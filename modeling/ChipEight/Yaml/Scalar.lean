import ChipEight.Text.Numeral
import ChipEight.Yaml.Cursor

/-!
# ChipEight.Yaml.Scalar — scalars

Plain scalars end where an indicator could not be part of them.  They and quoted ones may go over
several lines, which are folded: one line end is a blank, each further one stays (`Gap`).  Scalars
in blocks take all lines that are indented as deeply as the first.
-/

namespace ChipEight.Yaml

/-- What lies between two words of a scalar. -/
inductive Gap where
  /-- Blanks of one line, last first. -/
  | blanks (cs : List Char)
  /-- A line end and so many more. -/
  | lines (more : Nat)
  /-- An escaped line end, and so many others. -/
  | joined (more : Nat)

namespace Gap

/-- Nothing lies between. -/
def none : Gap := .blanks []

/-- Nothing lies between. -/
def isNone : Gap → Bool
  | .blanks cs => cs.isEmpty
  | _ => false

/-- The next word is on another line. -/
def isLines : Gap → Bool
  | .blanks _ => false
  | _ => true

/-- One more blank; at the begin of a line it does not count. -/
def blank (ch : Char) : Gap → Gap
  | .blanks cs => .blanks (ch :: cs)
  | g => g

/-- One more line end; blanks in front of it do not count. -/
def lineEnd : Gap → Gap
  | .blanks _ => .lines 0
  | .lines n => .lines (n + 1)
  | .joined n => .joined (n + 1)

/-- What the value of the scalar has between the words. -/
def text : Gap → List Char
  | .blanks cs => cs.reverse
  | .lines 0 => [' ']
  | .lines n => List.replicate n '\n'
  | .joined n => List.replicate n '\n'

end Gap

/-! ### Plain scalars -/

/-- The characters that cannot follow a colon between brackets. -/
def isTightMark (ch : Char) : Bool := ch == '?' || isFlowMark ch

/-- The rest of a plain scalar whose later lines start at column `indent` or behind; `done` is what
was read, last first.  The flag tells that lines ended behind the scalar. -/
def plainFrom (flow : Bool) (indent : Nat) (done : List Char) (gap : Gap) (c : Cursor) :
    Except Flaw (List Char × Bool × Cursor) :=
  match _h : c.rest with
  | [] => .ok (done.reverse, gap.isLines, c)
  | ch :: cs =>
    if ch == '\n' then plainFrom flow indent done gap.lineEnd c.next
    else if ch == '\t' && gap.isLines && c.column < indent then .error (.tab c.line)
    else if isBlank ch then plainFrom flow indent done (gap.blank ch) c.next
    else if !gap.isNone && (ch == '#' || (!flow && c.column < indent)) then
      .ok (done.reverse, gap.isLines, c)
    else if c.atDocumentMark || (ch == ':' && blankNext cs) then
      .ok (done.reverse, gap.isLines, c)
    else if flow && ch == ':' && cs.head?.any isTightMark then .error (.unexpected c.line)
    else if flow && isFlowMark ch then .ok (done.reverse, gap.isLines, c)
    else plainFrom flow indent (ch :: (gap.text.reverse ++ done)) .none c.next
termination_by c.rest.length
decreasing_by all_goals exact Cursor.length_rest_next_lt ‹_›

/-! ### Quoted scalars -/

/-- The character of a short escape. -/
def shortEscape? : Char → Option Char
  | '0' => some '\x00'
  | 'a' => some '\x07'
  | 'b' => some '\x08'
  | 't' | '\t' => some '\t'
  | 'n' => some '\n'
  | 'v' => some '\x0b'
  | 'f' => some '\x0c'
  | 'r' => some '\r'
  | 'e' => some '\x1b'
  | ' ' => some ' '
  | '"' => some '"'
  | '/' => some '/'
  | '\\' => some '\\'
  | 'N' => some '\x85'
  | '_' => some '\xa0'
  | 'L' => some '\u2028'
  | 'P' => some '\u2029'
  | _ => none

/-- The number of digits of a long escape. -/
def longEscape? : Char → Option Nat
  | 'x' => some 2
  | 'u' => some 4
  | 'U' => some 8
  | _ => none

/-- The character with the given code point, if there is one. -/
def charOf? (n : Nat) : Option Char := if n.isValidChar then some (Char.ofNat n) else none

/-- The character that an escape stands for, from behind its backslash and first letter on, and the
number of characters it takes there. -/
def escape? (letter : Char) (cs : List Char) : Option (Char × Nat) :=
  match shortEscape? letter, longEscape? letter with
  | some ch, _ => some (ch, 0)
  | none, some n =>
    if n ≤ cs.length then
      ((Numeral.digits? 16 (cs.take n)).bind charOf?).map fun ch => (ch, n)
    else none
  | none, none => none

/-- The rest of a quoted scalar that was opened in line `start`. -/
def quotedFrom (quote : Char) (start : Nat) (done : List Char) (gap : Gap) (c : Cursor) :
    Except Flaw (List Char × Cursor) :=
  match _h : c.rest with
  | [] => .error (.unclosed start)
  | ch :: cs =>
    let before := gap.text.reverse ++ done
    if c.atDocumentMark then .error (.unclosed start)
    else if ch == '\n' then quotedFrom quote start done gap.lineEnd c.next
    else if isBlank ch then quotedFrom quote start done (gap.blank ch) c.next
    else if ch == quote then
      if quote == '\'' && cs.head? == some '\'' then
        quotedFrom quote start (ch :: before) .none (c.skip 2)
      else .ok (before.reverse, c.next)
    else if quote == '"' && ch == '\\' then
      match cs with
      | [] => .error (.unclosed start)
      | letter :: more =>
        if letter == '\n' then quotedFrom quote start before (.joined 0) (c.skip 2)
        else
          match escape? letter more with
          | some (d, n) => quotedFrom quote start (d :: before) .none (c.skip (n + 2))
          | none => .error (.escape c.line)
    else quotedFrom quote start (ch :: before) .none c.next
termination_by c.rest.length
decreasing_by
  all_goals first
    | exact Cursor.length_rest_next_lt ‹_›
    | exact Cursor.length_rest_skip_lt ‹_› _

/-! ### Scalars in blocks -/

/-- How a block ends: with all its line ends, with none, or with one. -/
inductive Chomp where
  | keep
  | strip
  | clip
  deriving DecidableEq

/-- The mark of how a block ends. -/
def chompMark? (c : Cursor) : Option (Chomp × Cursor) :=
  match c.rest with
  | '+' :: _ => some (.keep, c.next)
  | '-' :: _ => some (.strip, c.next)
  | _ => none

/-- The mark of how deep a block is, a digit other than zero. -/
def depthMark? (c : Cursor) : Option (Nat × Cursor) :=
  match c.rest with
  | ch :: _ => if '1' ≤ ch ∧ ch ≤ '9' then some (ch.toNat - 48, c.next) else none
  | [] => none

/-- The marks behind the indicator of a block, in either order. -/
def blockMarks (c : Cursor) : Chomp × Option Nat × Cursor :=
  match chompMark? c with
  | some (chomp, c) =>
    match depthMark? c with
    | some (n, c) => (chomp, some n, c)
    | none => (chomp, none, c)
  | none =>
    match depthMark? c with
    | some (n, c) =>
      match chompMark? c with
      | some (chomp, c) => (chomp, some n, c)
      | none => (.clip, some n, c)
    | none => (.clip, none, c)

/-- Over the empty lines of a block and the indentation of the next line, which may not be a tab.
Answers the number of line ends and the deepest column reached.  Without a known indentation all
spaces belong to it. -/
def blockGapFrom (indent : Option Nat) (ends deepest : Nat) (c : Cursor) :
    Except Flaw (Nat × Nat × Cursor) :=
  match _h : c.rest with
  | [] => .ok (ends, max deepest c.column, c)
  | ch :: _ =>
    let outside := indent.all (c.column < ·)
    let deepest := max deepest c.column
    if ch == ' ' && outside then blockGapFrom indent ends deepest c.next
    else if ch == '\t' && outside then .error (.tab c.line)
    else if ch == '\n' then blockGapFrom indent (ends + 1) deepest c.next
    else .ok (ends, deepest, c)
termination_by c.rest.length
decreasing_by all_goals exact Cursor.length_rest_next_lt ‹_›

/-- What was read of a block: its text, whether its last line has an end, whether that line starts
with a blank, and the number of empty lines since. -/
structure BlockText where
  text : List Char := []
  ended : Bool := false
  blank : Bool := false
  ends : Nat := 0

namespace BlockText

/-- What stands between what was read and the next line: in a folded block, one line end between
lines that do not start with blanks is a space. -/
def gap (b : BlockText) (folded blank : Bool) : List Char :=
  let first :=
    if !b.ended then []
    else if folded && !b.blank && !blank then (if b.ends = 0 then [' '] else [])
    else ['\n']
  first ++ List.replicate b.ends '\n'

/-- The value of a block. -/
def value (b : BlockText) : Chomp → List Char
  | .strip => b.text
  | .clip => b.text ++ if b.ended then ['\n'] else []
  | .keep => b.text ++ (if b.ended then ['\n'] else []) ++ List.replicate b.ends '\n'

end BlockText

/-- The lines of a block at column `indent`, at most so many. -/
def blockLines (folded : Bool) (indent : Nat) :
    Nat → BlockText → Cursor → Except Flaw (BlockText × Cursor)
  | 0, b, c => .ok (b, c)
  | k + 1, b, c =>
    match c.rest with
    | [] => .ok (b, c)
    | ch :: _ =>
      if c.column = indent then do
        let (line, c) := c.takeWhile (· != '\n')
        let (ends, _, after) ← blockGapFrom (some indent) 0 0 c.next
        let text := b.text ++ b.gap folded (isBlank ch) ++ line
        blockLines folded indent k ⟨text, !c.rest.isEmpty, isBlank ch, ends⟩ after
      else .ok (b, c)

/-- A scalar in a block, from behind its indicator on, within a collection whose content starts at
column `least` or behind. -/
def readBlock (folded : Bool) (least : Nat) (c : Cursor) : Except Flaw (List Char × Cursor) := do
  let (chomp, depth, c) := blockMarks c
  let c ← c.skipLine
  let given := depth.map fun n => least - 1 + n
  let (ends, deepest, c) ← blockGapFrom given 0 0 c
  let indent := given.getD (max deepest (max least 1))
  let (b, c) ← blockLines folded indent (c.rest.length + 1) { ends } c
  return (b.value chomp, c)

end ChipEight.Yaml
