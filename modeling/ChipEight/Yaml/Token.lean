/-!
# ChipEight.Yaml.Token — the pieces that a document is made of

Indentation is part of them: where the columns open or close a collection, there is a token for it.
-/

namespace ChipEight.Yaml

/-- How a scalar was written. -/
inductive Style where
  | plain
  | quoted
  /-- A block of lines under `|`. -/
  | literal
  /-- A block of lines under `>`. -/
  | folded
  deriving DecidableEq, Repr

/-- A tag, or a part of one, in bytes. -/
abbrev Tag := List UInt8

/-- A piece of a document. -/
inductive Token where
  /-- A directive that gives the version. -/
  | version (major minor : Nat)
  /-- A directive that gives tags with a handle their beginning. -/
  | handle (name : String) (beginning : Tag)
  | documentStart
  | documentEnd
  /-- The columns open a sequence. -/
  | blockSequence
  /-- The columns open a mapping. -/
  | blockMapping
  /-- The columns close a collection. -/
  | blockEnd
  | flowSequence
  | flowSequenceEnd
  | flowMapping
  | flowMappingEnd
  /-- A dash. -/
  | item
  /-- A comma between brackets. -/
  | comma
  /-- A key follows. -/
  | key
  /-- A value follows. -/
  | value
  /-- A node given elsewhere. -/
  | alias (name : String)
  /-- The name of the node that follows. -/
  | anchor (name : String)
  /-- The tag of the node that follows. -/
  | tag (handle : String) (suffix : Tag)
  | scalar (style : Style) (text : String)
  deriving DecidableEq, Repr

/-- A token and the line it starts in. -/
structure Piece where
  token : Token
  line : Nat
  deriving DecidableEq, Repr

end ChipEight.Yaml
