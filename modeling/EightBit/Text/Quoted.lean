import EightBit.Text.Hidden

/-!
# EightBit.Text.Quoted -- text quoted in a message

A quotation stands in double quotes. A quote and a backslash get a backslash in front, four control
characters have a letter of their own, and any other character that a reader could not see is
written as its number between braces.
-/

namespace EightBit.Text

/-- A character as a quotation shows it. -/
def quoteChar (c : Char) : List Char :=
  match c with
  | '"' => ['\\', '"']
  | '\\' => ['\\', '\\']
  | '\t' => ['\\', 't']
  | '\r' => ['\\', 'r']
  | '\n' => ['\\', 'n']
  | '\x00' => ['\\', '0']
  | c =>
    if isHidden c then '\\' :: 'u' :: '\x7b' :: (Nat.toDigits 16 c.toNat ++ ['\x7d'])
    else [c]

/-- The text between double quotes, with every character as a quotation shows it. -/
def quoted (text : List Char) : String :=
  String.ofList ('"' :: (text.flatMap quoteChar ++ ['"']))

end EightBit.Text
