import ChipEight.Yaml.Flaw

/-!
# ChipEight.Yaml.Cursor — a place in a text

A `Cursor` is what is left of a text, with the line, the column and the number of bytes in front.
Lines end with a line feed only; other line ends are replaced before reading starts.  Main
statements: moving on takes characters off the front (`rest_next`, `rest_skip`), so reading ends.
-/

namespace ChipEight.Yaml

/-- A character may occur in a document. -/
def isAllowed (c : Char) : Bool :=
  let n := c.toNat
  n == 0x09 || n == 0x0A || n == 0x0D || (0x20 ≤ n && n ≤ 0x7E) || n == 0x85 ||
    (0xA0 ≤ n && n ≤ 0xD7FF) || (0xE000 ≤ n && n ≤ 0xFFFD) || 0x10000 ≤ n

/-- All line ends become line feeds. -/
def unifyLines : List Char → List Char
  | '\r' :: '\n' :: cs => '\n' :: unifyLines cs
  | c :: cs =>
    (if c == '\r' || c == '\x85' || c == '\u2028' || c == '\u2029' then '\n' else c) ::
      unifyLines cs
  | [] => []

/-- A space or a tab. -/
def isBlank (c : Char) : Bool := c == ' ' || c == '\t'

/-- A blank, a line end or the end of the text comes next. -/
def blankNext : List Char → Bool
  | [] => true
  | c :: _ => isBlank c || c == '\n'

/-- A character that opens, closes or parts brackets. -/
def isFlowMark (c : Char) : Bool := c == ',' || c == '[' || c == ']' || c == '{' || c == '}'

/-- A character of a name. -/
def isNameChar (c : Char) : Bool := c.isAlphanum || c == '-' || c == '_'

/-- The rest of a text from a place on. -/
structure Cursor where
  rest : List Char
  line : Nat := 1
  column : Nat := 0
  /-- Number of bytes in front. -/
  offset : Nat := 0

namespace Cursor

/-- One character further. -/
def next (c : Cursor) : Cursor :=
  match c.rest with
  | [] => c
  | ch :: cs =>
    if ch = '\n' then ⟨cs, c.line + 1, 0, c.offset + 1⟩
    else ⟨cs, c.line, c.column + 1, c.offset + ch.utf8Size⟩

/-- So many characters further. -/
def skip : Nat → Cursor → Cursor
  | 0, c => c
  | n + 1, c => skip n c.next

theorem rest_next (c : Cursor) : c.next.rest = c.rest.tail := by
  unfold next
  split
  · next h => simp [h]
  · next h =>
    rw [h]
    split <;> rfl

theorem rest_skip (n : Nat) (c : Cursor) : (c.skip n).rest = c.rest.drop n := by
  induction n generalizing c with
  | zero => rfl
  | succ n ih => rw [skip, ih, rest_next, List.drop_tail]

theorem length_rest_next_lt {c : Cursor} {ch : Char} {cs : List Char} (h : c.rest = ch :: cs) :
    c.next.rest.length < c.rest.length := by
  rw [rest_next, h]
  exact Nat.lt_succ_self _

theorem length_rest_skip_lt {c : Cursor} {ch : Char} {cs : List Char} (h : c.rest = ch :: cs)
    (n : Nat) : (c.skip (n + 1)).rest.length < c.rest.length := by
  rw [rest_skip, h, List.drop_succ_cons, List.length_drop, List.length_cons]
  omega

/-- The characters up to the first that fails the test, and the place of that one. -/
def takeWhile (p : Char → Bool) (c : Cursor) : List Char × Cursor :=
  let cs := c.rest.takeWhile p
  (cs, c.skip cs.length)

/-- Over the blanks that come next. -/
def skipBlanks (c : Cursor) : Cursor := (c.takeWhile isBlank).2

/-- Over what is left of the line and its end, which may be blanks and a comment only. -/
def skipLine (c : Cursor) : Except Flaw Cursor :=
  let c := c.skipBlanks
  let c := if c.rest.head? = some '#' then (c.takeWhile (· != '\n')).2 else c
  match c.rest with
  | [] => .ok c
  | ch :: _ => if ch = '\n' then .ok c.next else .error (.unexpected c.line)

/-- A given character three times starts a line and stands alone. -/
def atMark (c : Cursor) (mark : Char) : Bool :=
  c.column == 0 &&
    match c.rest with
    | x :: y :: z :: cs => x == mark && y == mark && z == mark && blankNext cs
    | _ => false

/-- A document starts or ends here. -/
def atDocumentMark (c : Cursor) : Bool := c.atMark '-' || c.atMark '.'

end Cursor

end ChipEight.Yaml
