import ChipEight.Text.Numeral
import ChipEight.Yaml.Cursor
import ChipEight.Yaml.Token

/-!
# ChipEight.Yaml.Property — names, tags and directives

Tags are kept in bytes, since percent signs may escape any; they end at a zero byte.
-/

namespace ChipEight.Yaml

/-- A name given to a node may end here. -/
def endsName : List Char → Bool
  | [] => true
  | ch :: cs => blankNext (ch :: cs) || "?:,]\x7d%@`".toList.contains ch

/-- A name, from behind its indicator on. -/
def readName (c : Cursor) : Except Flaw (String × Cursor) :=
  let (name, after) := c.takeWhile isNameChar
  if name.isEmpty || !endsName after.rest then .error (.unexpected c.line)
  else .ok (String.ofList name, after)

/-! ### Tags -/

/-- A character of a tag; between angle brackets more are allowed. -/
def isTagChar (verbatim : Bool) (ch : Char) : Bool :=
  isNameChar ch || ";/?:@&=+$.!~*'()".toList.contains ch ||
    (verbatim && (ch == ',' || ch == '[' || ch == ']'))

/-- The byte of an ASCII character. -/
def byteOf (ch : Char) : UInt8 := UInt8.ofNat ch.toNat

/-- A tag ends at a zero byte. -/
def upToZero (bytes : Tag) : Tag := bytes.takeWhile (· != 0)

/-- An escaped byte. -/
def escapedByte? : List Char → Option (UInt8 × List Char)
  | '%' :: a :: b :: cs => (Numeral.digits? 16 [a, b]).map fun n => (UInt8.ofNat n, cs)
  | _ => none

/-- The number of bytes that continue a character after its first. -/
def continuing? (b : UInt8) : Option Nat :=
  if b < 0x80 then some 0
  else if b &&& 0xE0 == 0xC0 then some 1
  else if b &&& 0xF0 == 0xE0 then some 2
  else if b &&& 0xF8 == 0xF0 then some 3
  else none

/-- So many escaped bytes that continue a character. -/
def escapedTail? : Nat → List Char → Option (List UInt8)
  | 0, _ => some []
  | n + 1, cs => do
    let (b, cs) ← escapedByte? cs
    if b &&& 0xC0 == 0x80 then return b :: (← escapedTail? n cs) else none

/-- The bytes of an escaped character. -/
def escapedChar? (cs : List Char) : Option (UInt8 × List UInt8) := do
  let (b, cs) ← escapedByte? cs
  return (b, ← escapedTail? (← continuing? b) cs)

/-- The rest of a tag; `done` is what was read, last first. -/
def tagFrom (verbatim : Bool) (done : Tag) (c : Cursor) : Except Flaw (Tag × Cursor) :=
  match _h : c.rest with
  | [] => .ok (done.reverse, c)
  | ch :: _ =>
    if ch == '%' then
      match escapedChar? c.rest with
      | some (b, bs) =>
        tagFrom verbatim ((b :: bs).reverse ++ done) (c.skip (3 * bs.length + 2 + 1))
      | none => .error (.escape c.line)
    else if isTagChar verbatim ch then tagFrom verbatim (byteOf ch :: done) c.next
    else .ok (done.reverse, c)
termination_by c.rest.length
decreasing_by
  · exact Cursor.length_rest_skip_lt ‹_› _
  · exact Cursor.length_rest_next_lt ‹_›

/-- A part of a tag that may not be empty. -/
def readTagPart (verbatim : Bool) (c : Cursor) : Except Flaw (Tag × Cursor) := do
  let (bytes, after) ← tagFrom verbatim [] c
  if bytes.isEmpty then throw (.unexpected c.line) else return (upToZero bytes, after)

/-- The handle and the rest of a tag, from its exclamation mark on: in angle brackets, behind a
handle of its own, or behind the short one. -/
def tagParts (c : Cursor) : Except Flaw (String × Tag × Cursor) := do
  match c.next.rest with
  | '<' :: _ =>
    let (suffix, after) ← readTagPart true (c.skip 2)
    if after.rest.head? = some '>' then return ("", suffix, after.next)
    else throw (.unexpected c.line)
  | _ =>
    let (name, after) := c.next.takeWhile isNameChar
    if after.rest.head? = some '!' then
      let (suffix, after) ← readTagPart false after.next
      return (String.ofList ('!' :: name ++ ['!']), suffix, after)
    else
      let (bytes, after) ← tagFrom false (name.map byteOf).reverse after
      let suffix := upToZero bytes
      if suffix.isEmpty then return ("", [byteOf '!'], after) else return ("!", suffix, after)

/-- A tag, from its exclamation mark on.  A blank ends it, or a comma between brackets. -/
def readTag (flow : Bool) (c : Cursor) : Except Flaw (Token × Cursor) := do
  let (handle, suffix, after) ← tagParts c
  if blankNext after.rest || (flow && after.rest.head? = some ',') then
    return (.tag handle suffix, after)
  else throw (.unexpected c.line)

/-! ### Directives -/

/-- A part of a version: one to nine digits. -/
def readVersionPart (c : Cursor) : Except Flaw (Nat × Cursor) :=
  let (digits, after) := c.takeWhile Char.isDigit
  match Numeral.digits? 10 digits with
  | some n => if digits.length ≤ 9 then .ok (n, after) else .error (.directive c.line)
  | none => .error (.directive c.line)

/-- The version that a directive gives. -/
def readVersion (c : Cursor) : Except Flaw (Token × Cursor) := do
  let (major, after) ← readVersionPart c
  if after.rest.head? = some '.' then
    let (minor, after) ← readVersionPart after.next
    return (.version major minor, after)
  else throw (.directive c.line)

/-- The handle that a directive gives, and what it stands for. -/
def readHandle (c : Cursor) : Except Flaw (Token × Cursor) := do
  if c.rest.head? = some '!' then
    let (name, after) := c.next.takeWhile isNameChar
    let closed := after.rest.head? = some '!'
    let after := if closed then after.next else after
    if (closed || name.isEmpty) && after.rest.head?.any isBlank then
      let (beginning, after) ← readTagPart true after.skipBlanks
      if blankNext after.rest then
        let handle := '!' :: name ++ (if closed then ['!'] else [])
        return (.handle (String.ofList handle) beginning, after)
      else throw (.directive c.line)
    else throw (.directive c.line)
  else throw (.directive c.line)

/-- A directive, from its percent sign on, with its line. -/
def readDirective (c : Cursor) : Except Flaw (Token × Cursor) := do
  let (name, after) := c.next.takeWhile isNameChar
  if !blankNext after.rest then throw (.directive c.line)
  let (token, after) ←
    if name = "YAML".toList then readVersion after.skipBlanks
    else if name = "TAG".toList then readHandle after.skipBlanks
    else throw (.directive c.line)
  return (token, ← after.skipLine)

end ChipEight.Yaml
