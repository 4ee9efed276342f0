import ChipEight.Yaml.Property
import ChipEight.Yaml.Scalar

/-!
# ChipEight.Yaml.Lexer — the tokens of a text

Outside of brackets the columns tell what belongs together, and whether something is a key is known
only at the colon behind it.  So the lexer keeps the columns of the collections that are open
(`blocks`), and for every bracket the place where a key may have begun (`Start`): at the colon, the
tokens for the key go in there.  A key is on one line and at most 1024 bytes in front of its colon.
-/

namespace ChipEight.Yaml

/-- A place where a key may have begun. -/
structure Start where
  /-- Nothing but a key can stand there. -/
  required : Bool
  /-- Number of tokens in front. -/
  tokens : Nat
  place : Cursor

namespace Start

/-- The most bytes from the begin of a key to its colon. -/
abbrev reach : Nat := 1024

/-- A colon at the cursor is too far away. -/
def isPast (s : Start) (c : Cursor) : Bool :=
  s.place.line < c.line || s.place.offset + reach < c.offset

/-- The place, unless a colon at the cursor is too far away from it. -/
def upTo (c : Cursor) : Option Start → Except Flaw (Option Start)
  | none => .ok none
  | some s =>
    if !s.isPast c then .ok (some s)
    else if s.required then .error (.colon s.place.line)
    else .ok none

end Start

/-- A text read up to some place. -/
structure Lexer where
  cursor : Cursor
  /-- The pieces so far. -/
  pieces : Array Piece := #[]
  /-- The columns of the open collections outside of brackets, innermost first. -/
  blocks : List Nat := []
  /-- Where a key may have begun, within the innermost brackets. -/
  start : Option Start := none
  /-- The same for each pair of brackets around, innermost first. -/
  outer : List (Option Start) := []
  /-- A key may begin here. -/
  fresh : Bool := true

namespace Lexer

/-- Some bracket is open. -/
def inFlow (l : Lexer) : Bool := !l.outer.isEmpty

/-- The least column of what is inside the innermost open collection. -/
def least (l : Lexer) : Nat :=
  match l.blocks with
  | [] => 0
  | column :: _ => column + 1

/-- One more token, at a place. -/
def emit (l : Lexer) (t : Token) (c : Cursor) : Lexer :=
  { l with pieces := l.pieces.push ⟨t, c.line⟩ }

/-- A token put in behind the first `n`. -/
def insert (l : Lexer) (n : Nat) (t : Token) (c : Cursor) : Lexer :=
  { l with pieces := l.pieces.insertIdxIfInBounds n ⟨t, c.line⟩ }

/-- No key begins where one may have begun. -/
def dropStart (l : Lexer) : Except Flaw Lexer :=
  match l.start with
  | none => .ok l
  | some s => if s.required then .error (.colon s.place.line) else .ok { l with start := none }

/-- A key may begin at the cursor, if one may at all. -/
def markStart (l : Lexer) : Except Flaw Lexer :=
  if l.fresh then do
    let l ← l.dropStart
    let required := !l.inFlow && l.blocks.head? == some l.cursor.column
    return { l with start := some ⟨required, l.pieces.size, l.cursor⟩ }
  else .ok l

/-- A place too far away for a colon at the cursor is forgotten; one around a pair of brackets
matters again only behind it. -/
def expire (l : Lexer) : Except Flaw Lexer := do
  let start ← Start.upTo l.cursor l.start
  return { l with start }

/-- Outside of brackets, a collection is opened at a column deeper than the innermost one; its token
goes in behind the first `n`. -/
def openBlock (l : Lexer) (n : Nat) (t : Token) (c : Cursor) : Lexer :=
  if !l.inFlow && l.blocks.head?.all (· < c.column) then
    { l.insert n t c with blocks := c.column :: l.blocks }
  else l

/-- Outside of brackets, the collections that fail the test are closed, from the innermost on. -/
def closeBlocks (l : Lexer) (keep : Nat → Bool) : Lexer :=
  if l.inFlow then l
  else
    let closed := l.blocks.takeWhile fun column => !keep column
    { l with
      pieces := l.pieces ++ Array.replicate closed.length ⟨.blockEnd, l.cursor.line⟩
      blocks := l.blocks.drop closed.length }

/-- Over blanks, comments and line ends, and over a byte order mark that starts a line.  Outside of
brackets a key may begin on a new line, and no tab may stand where a key may begin.  The flag tells
whether one may. -/
def contentFrom (flow fresh comment : Bool) (c : Cursor) : Bool × Cursor :=
  match _h : c.rest with
  | [] => (fresh, c)
  | ch :: _ =>
    if ch == '\n' then contentFrom flow (fresh || !flow) false c.next
    else if comment || ch == ' ' || (ch == '\t' && (flow || !fresh)) then
      contentFrom flow fresh comment c.next
    else if ch == '#' then contentFrom flow fresh true c.next
    else if ch == '\ufeff' && c.column == 0 then contentFrom flow fresh false c.next
    else (fresh, c)
termination_by c.rest.length
decreasing_by all_goals exact Cursor.length_rest_next_lt ‹_›

/-- Up to the next token. -/
def toContent (l : Lexer) : Lexer :=
  let (fresh, cursor) := contentFrom l.inFlow l.fresh false l.cursor
  { l with fresh, cursor }

/-! ### One token each -/

/-- A token that is neither part of a key nor in front of one. -/
def single (l : Lexer) (t : Token) (fresh : Bool) : Except Flaw Lexer := do
  let l ← l.dropStart
  return { l.emit t l.cursor with fresh, cursor := l.cursor.next }

/-- The start or the end of a document. -/
def documentMark (l : Lexer) (t : Token) : Except Flaw Lexer := do
  let l ← (l.closeBlocks fun _ => false).dropStart
  return { l.emit t l.cursor with fresh := false, cursor := l.cursor.skip 3 }

/-- A directive. -/
def directive (l : Lexer) : Except Flaw Lexer := do
  let l ← (l.closeBlocks fun _ => false).dropStart
  let (t, cursor) ← readDirective l.cursor
  return { l.emit t l.cursor with fresh := false, cursor }

/-- An opening bracket. -/
def openFlow (l : Lexer) (t : Token) : Except Flaw Lexer := do
  let l ← l.markStart
  return { l.emit t l.cursor with
    start := none
    outer := l.start :: l.outer
    fresh := true
    cursor := l.cursor.next }

/-- A closing bracket. -/
def closeFlow (l : Lexer) (t : Token) : Except Flaw Lexer := do
  let l ← l.single t false
  match l.outer with
  | [] => return l
  | start :: outer => return { l with start, outer }

/-- A dash. -/
def item (l : Lexer) : Except Flaw Lexer :=
  if !l.inFlow && !l.fresh then .error (.unexpected l.cursor.line)
  else (l.openBlock l.pieces.size .blockSequence l.cursor).single .item true

/-- A question mark. -/
def key (l : Lexer) : Except Flaw Lexer :=
  if !l.inFlow && !l.fresh then .error (.unexpected l.cursor.line)
  else (l.openBlock l.pieces.size .blockMapping l.cursor).single .key (!l.inFlow)

/-- A colon: behind a key that may have begun, or behind one that was announced. -/
def value (l : Lexer) : Except Flaw Lexer :=
  match l.start with
  | some s =>
    let l := (l.insert s.tokens .key s.place).openBlock s.tokens .blockMapping s.place
    .ok { l.emit .value l.cursor with start := none, fresh := false, cursor := l.cursor.next }
  | none =>
    if !l.inFlow && !l.fresh then .error (.unexpected l.cursor.line)
    else (l.openBlock l.pieces.size .blockMapping l.cursor).single .value (!l.inFlow)

/-- A token that may be part of a key, with the place behind it. -/
def part (l : Lexer) (read : Cursor → Except Flaw (Token × Cursor)) : Except Flaw Lexer := do
  let l ← l.markStart
  let (t, cursor) ← read l.cursor
  return { l.emit t l.cursor with fresh := false, cursor }

/-- A quoted scalar. -/
def quoted (l : Lexer) (quote : Char) : Except Flaw Lexer :=
  l.part fun c => do
    let (text, after) ← quotedFrom quote c.line [] .none c.next
    return (.scalar .quoted (String.ofList text), after)

/-- A plain scalar.  When lines ended behind it, a key may begin. -/
def plain (l : Lexer) : Except Flaw Lexer := do
  let l ← l.markStart
  let (text, fresh, cursor) ← plainFrom l.inFlow l.least [] .none l.cursor
  return { l.emit (.scalar .plain (String.ofList text)) l.cursor with fresh, cursor }

/-- A scalar in a block. -/
def block (l : Lexer) (style : Style) : Except Flaw Lexer := do
  let l ← l.dropStart
  let (text, cursor) ← readBlock (style == .folded) l.least l.cursor.next
  return { l.emit (.scalar style (String.ofList text)) l.cursor with fresh := true, cursor }

/-- A character can start a plain scalar where it is no indicator. -/
def startsPlain (flow : Bool) (ch : Char) : Bool :=
  ch == '-' || (!flow && (ch == '?' || ch == ':')) ||
    !(isBlank ch || isFlowMark ch || "?:#&*!|>'\"%@`".toList.contains ch)

/-- The token at the cursor, whose rest is `ch :: cs`. -/
def token (l : Lexer) (ch : Char) (cs : List Char) : Except Flaw Lexer :=
  if ch == '%' && l.cursor.column == 0 then l.directive
  else if l.cursor.atMark '-' then l.documentMark .documentStart
  else if l.cursor.atMark '.' then l.documentMark .documentEnd
  else if ch == '[' then l.openFlow .flowSequence
  else if ch == '\x7b' then l.openFlow .flowMapping
  else if ch == ']' then l.closeFlow .flowSequenceEnd
  else if ch == '\x7d' then l.closeFlow .flowMappingEnd
  else if ch == ',' then l.single .comma true
  else if ch == '-' && blankNext cs then l.item
  else if ch == '?' && (l.inFlow || blankNext cs) then l.key
  else if ch == ':' && (l.inFlow || blankNext cs) then l.value
  else if ch == '*' then l.part fun c => do
    let (name, after) ← readName c.next
    return (.alias name, after)
  else if ch == '&' then l.part fun c => do
    let (name, after) ← readName c.next
    return (.anchor name, after)
  else if ch == '!' then l.part (readTag l.inFlow)
  else if ch == '|' && !l.inFlow then l.block .literal
  else if ch == '>' && !l.inFlow then l.block .folded
  else if ch == '\'' || ch == '"' then l.quoted ch
  else if startsPlain l.inFlow ch then l.plain
  else .error (.unexpected l.cursor.line)

/-- The pieces of what is left, of at most so many tokens. -/
def run : Nat → Lexer → Except Flaw (List Piece)
  | 0, l => .error (.unexpected l.cursor.line)
  | k + 1, l => do
    let l ← l.toContent.expire
    match l.cursor.rest with
    | [] =>
      let l ← (l.closeBlocks fun _ => false).dropStart
      return l.pieces.toList
    | ch :: cs => run k (← (l.closeBlocks (· ≤ l.cursor.column)).token ch cs)

end Lexer

/-- The pieces of a text.  Each token takes a character at least. -/
def Piece.ofText (text : List Char) : Except Flaw (List Piece) :=
  Lexer.run (text.length + 1) { cursor := { rest := text } }

end ChipEight.Yaml
