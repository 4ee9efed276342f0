import ChipEight.Text.Invisible

/-!
# ChipEight.Text.Quoted — text between quotes, for messages

A quoted text shows what it holds: quote and backslash are escaped, the line and tab controls and
the null character have short names, and every other invisible character is written by its code
point.
-/

namespace ChipEight.Text

/-- The small hexadecimal digits of `n`. -/
def smallHex (n : Nat) : List Char := Nat.toDigits 16 n

/-- How one character is written between quotes. -/
def escaped (c : Char) : List Char :=
  match c with
  | '\x00' => ['\\', '0']
  | '\t' => ['\\', 't']
  | '\n' => ['\\', 'n']
  | '\r' => ['\\', 'r']
  | '"' => ['\\', '"']
  | '\\' => ['\\', '\\']
  | c =>
    if isInvisible c then ['\\', 'u', '\x7b'] ++ smallHex c.toNat ++ ['\x7d'] else [c]

/-- The text between back ticks, as it is. -/
def ticked (text : String) : String := "\x60" ++ text ++ "\x60"

/-- The text between quotes, escaped. -/
def quoted (text : String) : String :=
  String.ofList ('"' :: text.toList.flatMap escaped ++ ['"'])

end ChipEight.Text
