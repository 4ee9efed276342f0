/-!
# ChipEight.Yaml.Flaw — why a text is no document
-/

namespace ChipEight.Yaml

/-- Why a text is no document. -/
inductive Flaw where
  /-- The bytes are no text. -/
  | encoding
  /-- A character that may not occur. -/
  | character (code : Nat)
  /-- The text ends within quotes that were opened in this line. -/
  | unclosed (line : Nat)
  /-- An unknown escape between double quotes or in a tag. -/
  | escape (line : Nat)
  /-- A tab where only spaces may indent. -/
  | tab (line : Nat)
  /-- A key without its colon. -/
  | colon (line : Nat)
  /-- Something stands where it cannot. -/
  | unexpected (line : Nat)
  /-- The text ends within a collection. -/
  | unfinished
  /-- A name that no node was given. -/
  | anchor (name : String)
  /-- A tag that begins with an unknown handle. -/
  | handle (name : String)
  /-- A directive that is not known, or given twice. -/
  | directive (line : Nat)
  /-- There is more than one document. -/
  | documents
  deriving DecidableEq, Repr

/-- The text of a flaw. -/
def Flaw.message : Flaw → String
  | .encoding => "text is not valid UTF-8"
  | .character code => "character " ++ toString code ++ " is not allowed"
  | .unclosed line => "unclosed quote from line " ++ toString line
  | .escape line => "unknown escape at line " ++ toString line
  | .tab line => "tab in the indentation at line " ++ toString line
  | .colon line => "no colon behind the key at line " ++ toString line
  | .unexpected line => "unexpected content at line " ++ toString line
  | .unfinished => "unexpected end of text"
  | .anchor name => "unknown anchor " ++ name
  | .handle name => "unknown tag handle " ++ name
  | .directive line => "unknown directive at line " ++ toString line
  | .documents => "more than one document"

end ChipEight.Yaml
