import ChipEight.Yaml.Token

/-!
# ChipEight.Yaml.Node — documents as values

A node is a scalar, a sequence, a mapping, or a reference to a node given elsewhere.  A scalar keeps
how it was written, since only a plain one can stand for a number or for nothing.
-/

namespace ChipEight.Yaml

/-- A value of a document. -/
inductive Node where
  | scalar (style : Style) (tag : Option Tag) (text : String)
  | sequence (items : List Node)
  | mapping (entries : List (Node × Node))
  /-- The named node of this number. -/
  | alias (number : Nat)

/-- What stands where nothing is written. -/
def Node.empty : Node := .scalar .plain none ""

/-- A document: its outermost node, and the named nodes by number. -/
structure Document where
  root : Node
  named : List (Nat × Node)

/-- The node that a reference stands for; other nodes stand for themselves. -/
def Document.resolve (d : Document) : Node → Node
  | .alias number => (d.named.lookup number).getD .empty
  | n => n

end ChipEight.Yaml
