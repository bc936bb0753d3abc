import EightBit.Text.Blank

/-!
# EightBit.Text.Wrap -- a line broken into rows of a given width

A row takes words as long as they fit, each with the blanks before it. It ends before the first word
that does not fit, and the blanks at which it ends are shown on neither row: those that it had room
for and, if what does not fit is a blank, that one too. Where a word that does not fit is the first
of its row there is nothing to end before it, so it is cut where the row is full; the blanks that a
line begins with are kept, and count as part of its first word.
-/

namespace EightBit.Text

/-- The columns that a character takes: a soft hyphen takes none. -/
def columns (c : Char) : Nat :=
  if c = '\u00AD' then 0 else 1

/-- The columns that a text takes. -/
def width (text : List Char) : Nat :=
  text.foldl (fun width c => width + columns c) 0

/-- Whether a row may end at a character: at white space other than the no-break space. -/
def isBreak (c : Char) : Bool :=
  isBlank c && c != '\u00A0'

/-- A line while it is broken into rows. -/
structure Wrapping where
  /-- The rows that have ended. -/
  rows : List (List Char)
  /-- The row that goes on. -/
  row : List Char
  /-- The blanks since then. -/
  blanks : List Char
  /-- The word since then, which may go on. -/
  word : List Char
deriving DecidableEq, Repr

namespace Wrapping

/-- A line of which nothing is read. -/
def start : Wrapping := ⟨[], [], [], []⟩

/-- Puts the blanks and the word on the row. -/
def settle (w : Wrapping) : Wrapping :=
  { w with row := w.row ++ w.blanks ++ w.word, blanks := [], word := [] }

/-- The columns taken up since the last row ended. -/
def taken (w : Wrapping) : Nat :=
  width w.row + width w.blanks + width w.word

/-- Ends the row before the word, without the blanks between them. -/
def endRow (w : Wrapping) : Wrapping :=
  { w with rows := w.rows ++ [w.row], row := [], blanks := [] }

/-- Puts a character after those that are read. -/
def add (w : Wrapping) (c : Char) : Wrapping :=
  if isBreak c then { w with blanks := w.blanks ++ [c] } else { w with word := w.word ++ [c] }

/-- Reads a character. A blank ends the word before it, and the first word of a row is cut where
the row is full. -/
def step (limit : Nat) (w : Wrapping) (c : Char) : Wrapping :=
  let wordEnds := isBreak c && !w.word.isEmpty
  let cut := w.row.isEmpty && limit < w.taken + columns c
  let w := if wordEnds || cut then w.settle else w
  if limit < w.taken + columns c then
    if isBreak c then w.endRow else w.endRow.add c
  else
    w.add c

/-- The rows of the line: those that have ended and, unless it is empty, what is left. Blanks that
have no row to stand on come after an empty row. -/
def finish (w : Wrapping) : List (List Char) :=
  let rest := w.settle.row
  if w.row.isEmpty && w.word.isEmpty && !w.blanks.isEmpty then w.rows ++ [[], rest]
  else if w.rows.isEmpty || !rest.isEmpty then w.rows ++ [rest]
  else w.rows

end Wrapping

/-- A line broken into rows of at most so many columns. A line without characters is one row. -/
def wrap (limit : Nat) (line : List Char) : List (List Char) :=
  (line.foldl (Wrapping.step limit) Wrapping.start).finish

end EightBit.Text
