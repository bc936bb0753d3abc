import EightBit.Text.Blank
import EightBit.Text.Line
import EightBit.Text.Numeral
import EightBit.Text.Quoted

/-!
# EightBit.Program -- programs and their source text

Source text holds one byte a line, as up to eight binary digits. A `#` starts a comment that runs to
the end of its line, a line without a word before that is passed over, and whatever follows the
first word is ignored. A program read from source keeps, for each byte, the line it stood on.
-/

namespace EightBit

/-- A program in load order. -/
structure Program where
  bytes : List UInt8
  /-- The source line of each byte; empty for a program that was not read from source. -/
  sourceLines : List String
deriving DecidableEq, Repr

/-- Why a word in source text is not a byte. -/
inductive WordError
  /-- The word is longer than eight digits, or not all of it is binary digits. -/
  | notBinary (word : List Char)
  /-- The digits are not the numeral of a byte. -/
  | numeral (cause : Text.NumeralError)
deriving DecidableEq, Repr

/-- The wording of a word that is not a byte. -/
def WordError.message : WordError → String
  | .notBinary word => "expected up to 8 binary digits, found " ++ Text.quoted word
  | .numeral cause => cause.message

/-- A word in source text that is not a byte. -/
structure SourceError where
  /-- The number of its line, counted from one. -/
  line : Nat
  cause : WordError
deriving DecidableEq, Repr

/-- The wording of an error in source text. -/
def SourceError.message (e : SourceError) : String :=
  "parse error on line " ++ toString e.line ++ ": " ++ e.cause.message

namespace Program

/-- A program of no bytes. -/
def empty : Program := ⟨[], []⟩

/-- The program with one more byte in front, and the line it stood on. -/
def cons (byte : UInt8) (line : List Char) (p : Program) : Program :=
  ⟨byte :: p.bytes, String.ofList line :: p.sourceLines⟩

/-- The word of a line that stands for its byte: the first before any comment. -/
def codeWord (line : List Char) : List Char :=
  Text.firstWord (line.takeWhile (· != '#'))

/-- The byte that a word stands for: a binary numeral of no more than eight bytes of text, digits and
nothing else. -/
def byteOfWord (word : List Char) : Except WordError UInt8 :=
  if (String.ofList word).utf8ByteSize ≤ 8 && word.all Text.isBinaryDigit then
    (Text.readBinary word).mapError .numeral
  else .error (.notBinary word)

/-- The program on the lines of a source text, the first of which has this number. -/
def ofLines (number : Nat) : List (List Char) → Except SourceError Program
  | [] => .ok empty
  | line :: rest =>
    match codeWord line with
    | [] => ofLines (number + 1) rest
    | word =>
      match byteOfWord word with
      | .error cause => .error ⟨number, cause⟩
      | .ok byte => (ofLines (number + 1) rest).map (cons byte (Text.trim line))

/-- The program that a source text spells. -/
def ofSource (text : String) : Except SourceError Program :=
  ofLines 1 (Text.lines text.toList)

end Program

end EightBit
