/-
# EightBit.Text.Numeral -- numerals of a least width, and padded columns

Bytes, addresses and opcodes are shown in hexadecimal, binary or decimal. A width is always a
*least* width: a value that needs more digits, or a text longer than its column, is shown whole.

The other way, a binary numeral is read as a byte, a digit at a time, and refused as soon as a
character is no digit or the value is too large.
-/

namespace EightBit.Text

/-! ## Columns -/

/-- `text` followed by blanks up to `width` characters. -/
def padRight (width : Nat) (text : String) : String :=
  text ++ String.ofList (List.replicate (width - text.length) ' ')

/-- `text` after blanks up to `width` characters. -/
def padLeft (width : Nat) (text : String) : String :=
  String.ofList (List.replicate (width - text.length) ' ') ++ text

/-! ## Numerals -/

/-- The digits of `n` in `base`, with leading zeros up to `width` digits. -/
def digits (base width n : Nat) : List Char :=
  let shown := Nat.toDigits base n
  List.replicate (width - shown.length) '0' ++ shown

/-- Upper case hexadecimal of at least two digits: `0A`, `F4`, `100`. -/
def hex (n : Nat) : String :=
  String.ofList ((digits 16 2 n).map Char.toUpper)

/-- A byte as two upper case hexadecimal digits. -/
def hexByte (byte : UInt8) : String :=
  hex byte.toNat

/-- Lower case hexadecimal of at least two digits after `0x`: `0x0a`, `0x100`. -/
def address (n : Nat) : String :=
  "0x" ++ String.ofList (digits 16 2 n)

/-- The eight binary digits of a byte after `0b`. -/
def binaryByte (byte : UInt8) : String :=
  "0b" ++ String.ofList (digits 2 8 byte.toNat)

/-! ## Reading -/

/-- Why a text is not the numeral of a byte. -/
inductive NumeralError
  | empty
  | invalidDigit
  /-- The value does not fit in a byte. -/
  | tooLarge
deriving DecidableEq, Repr

/-- The wording of a text that is not the numeral of a byte. -/
def NumeralError.message : NumeralError → String
  | .empty => "cannot parse integer from empty string"
  | .invalidDigit => "invalid digit found in string"
  | .tooLarge => "number too large to fit in target type"

/-- Whether a character is a binary digit. -/
def isBinaryDigit (c : Char) : Bool := c == '0' || c == '1'

/-- The byte that binary digits spell, those before them having given `value`. -/
def readBits (value : Nat) : List Char → Except NumeralError UInt8
  | [] => .ok (UInt8.ofNat value)
  | c :: rest =>
    if isBinaryDigit c then
      let next := 2 * value + (c.toNat - '0'.toNat)
      if next < 256 then readBits next rest else .error .tooLarge
    else .error .invalidDigit

/-- The byte that a binary numeral spells; a plus sign may stand in front of its digits. -/
def readBinary : List Char → Except NumeralError UInt8
  | [] => .error .empty
  | '+' :: c :: rest => readBits 0 (c :: rest)
  | numeral => readBits 0 numeral

end EightBit.Text
