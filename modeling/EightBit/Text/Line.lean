/-
# EightBit.Text.Line -- the lines of a text

A line ends at a line feed, and a carriage return directly before that line feed belongs to the
ending. A carriage return anywhere else is a character of its line. Text after the last line feed
is a line if there is any.
-/

namespace EightBit.Text

/-- Puts a character in front of the first line. -/
def consLine (c : Char) : List (List Char) → List (List Char)
  | [] => [[c]]
  | line :: rest => (c :: line) :: rest

/-- The lines of a text, without their endings. -/
def lines : List Char → List (List Char)
  | [] => []
  | '\n' :: rest => [] :: lines rest
  | '\r' :: '\n' :: rest => [] :: lines rest
  | c :: rest => consLine c (lines rest)

end EightBit.Text
