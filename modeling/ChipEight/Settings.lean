import ChipEight.Clock
import ChipEight.Keypad
import ChipEight.Text.Quoted
import ChipEight.Yaml.Parser

/-!
# ChipEight.Settings — configuration and keys read from documents

A configuration is a mapping of named fields.  The one field known here is the clock frequency,
which may be left out or left empty; other fields are not looked at.  A key is read from a single
value.
-/

namespace ChipEight

/-- Why a document is no configuration. -/
inductive SettingsError where
  /-- The text cannot be read, for the reason given by the system. -/
  | unreadable (reason : String)
  /-- The text is no document. -/
  | document (flaw : Yaml.Flaw)
  /-- The document is not a mapping. -/
  | notMapping
  /-- The name of a field is not a scalar. -/
  | fieldName
  /-- A field is given twice. -/
  | duplicate (field : String)
  /-- A frequency is not a number of 64 bits without sign. -/
  | frequency
  deriving DecidableEq, Repr

/-- The text of such an error. -/
def SettingsError.message : SettingsError → String
  | .unreadable reason => reason
  | .document flaw => flaw.message
  | .notMapping => "expected a mapping of settings"
  | .fieldName => "expected the name of a setting"
  | .duplicate field => "duplicate field " ++ field
  | .frequency => "clock_frequency: expected a number without sign"

namespace Settings

/-- A word for nothing. -/
def isNull (text : String) : Bool :=
  text == "~" || text == "null" || text == "Null" || text == "NULL"

/-- A number behind its radix, such as `0x1F`. -/
def radixNumber? : List Char → Option Nat
  | '0' :: 'x' :: cs => Numeral.digits? 16 cs
  | '0' :: 'o' :: cs => Numeral.digits? 8 cs
  | '0' :: 'b' :: cs => Numeral.digits? 2 cs
  | _ => none

/-- A decimal number; with a leading zero it is none, unless it is zero. -/
def decimalNumber? (cs : List Char) : Option Nat :=
  if cs.length > 1 && cs.head? == some '0' then none else Numeral.digits? 10 cs

/-- A number of 64 bits without sign, as a plain scalar stands for one. -/
def number? (text : String) : Option Nat :=
  let cs := Numeral.dropPlus text.toList
  ((radixNumber? cs).or (decimalNumber? cs)).filter (· ≤ Numeral.limit64)

/-- The tag of what stands for nothing. -/
def nullTag : Yaml.Tag := "tag:yaml.org,2002:null".toList.map Yaml.byteOf

/-- The tag of numbers. -/
def numberTag : Yaml.Tag := "tag:yaml.org,2002:int".toList.map Yaml.byteOf

/-- A number, or nothing. -/
def frequency? : Yaml.Node → Except SettingsError (Option Nat)
  | .scalar style tag text =>
    let number : Except SettingsError (Option Nat) :=
      match number? text with
      | some n => .ok (some n)
      | none => .error .frequency
    match style, tag with
    | .plain, none => if text == "" || isNull text then .ok none else number
    | .plain, some tag =>
      if tag != nullTag then number
      else if isNull text then .ok none
      else .error .frequency
    | .literal, some tag => if tag == numberTag then number else .error .frequency
    | _, _ => .error .frequency
  | _ => .error .frequency

/-- The name of the field of the clock frequency. -/
def frequencyField : String := "clock_frequency"

/-- The fields of a document from the first given on; `found` is the frequency, if it was given
already. -/
def fields (d : Yaml.Document) (found : Option (Option Nat)) :
    List (Yaml.Node × Yaml.Node) → Except SettingsError Config
  | [] => .ok ⟨found.getD none⟩
  | (key, value) :: rest =>
    match d.resolve key with
    | .scalar _ _ name =>
      if name == frequencyField then
        match found with
        | some _ => .error (.duplicate frequencyField)
        | none => do fields d (some (← frequency? (d.resolve value))) rest
      else fields d found rest
    | _ => .error .fieldName

/-- The configuration of a document.  An empty document leaves everything as it is by default. -/
def ofDocument (d : Yaml.Document) : Except SettingsError Config :=
  match d.root with
  | .mapping entries => fields d none entries
  | .scalar .plain _ "" => .ok {}
  | _ => .error .notMapping

/-- The configuration in a text. -/
def ofText (text : String) : Except SettingsError Config :=
  match Yaml.parse text with
  | .ok d => ofDocument d
  | .error flaw => .error (.document flaw)

/-- The configuration in the bytes of a file. -/
def ofBytes (bytes : List UInt8) : Except SettingsError Config :=
  match String.fromUTF8? ⟨bytes.toArray⟩ with
  | some text => ofText text
  | none => .error (.document .encoding)

end Settings

/-- A single value of a document. -/
inductive Value where
  | integer (n : Int)
  | boolean (b : Bool)
  | string (s : String)
  | unit
  deriving DecidableEq, Repr

namespace Value

/-- What stands instead of the value expected. -/
def surprise : Value → String
  | .integer n => "invalid value: integer " ++ Text.ticked (toString n)
  | .boolean b => "invalid type: boolean " ++ Text.ticked (if b then "true" else "false")
  | .string s => "invalid type: string " ++ Text.quoted s
  | .unit => "invalid type: unit value"

end Value

/-- The key that a value stands for, or the text of what is wrong with it. -/
def Key.ofValue (v : Value) : Except String Key :=
  let wrong : Except String Key := .error (v.surprise ++ ", expected an integer between 0 and 15")
  match v with
  | .integer n =>
    match (if 0 ≤ n then Key.ofNat? n.toNat else none) with
    | some k => .ok k
    | none => wrong
  | _ => wrong

end ChipEight
