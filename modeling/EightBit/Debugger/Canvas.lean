/-
# EightBit.Debugger.Canvas -- rows of styled cells and framed panes

A screen is a list of rows and a row a list of cells; a cell is one character wide. A **pane** is a
frame with a title around rows that are cut, or filled up with blanks, to its inner width and
height.
-/

namespace EightBit

/-- A foreground colour. -/
inductive Colour
  | plain | yellow | red | cyan | green | magenta | white | darkGray
deriving DecidableEq, Repr

/-- How a cell is shown. -/
structure Style where
  colour : Colour := .plain
  bold : Bool := false
deriving DecidableEq, Repr

namespace Style

/-- The style of a cell that nothing covers. -/
def plain : Style := {}

/-- A colour, not bold. -/
def of (colour : Colour) : Style := { colour }

/-- A colour in bold. -/
def strong (colour : Colour) : Style := { colour, bold := true }

end Style

/-- One character of a screen. -/
structure Cell where
  glyph : Char
  style : Style
deriving DecidableEq, Repr

/-- A row of a screen. -/
abbrev Row := List Cell

namespace Row

/-- The cells of a text in one style. -/
def ofText (style : Style) (text : String) : Row :=
  text.toList.map (⟨·, style⟩)

/-- Exactly `width` cells: the row cut, or filled up with blanks in a style. -/
def fit (width : Nat) (fill : Style) (row : Row) : Row :=
  row.take width ++ List.replicate (width - row.length) ⟨' ', fill⟩

/-- A fitted row has the width asked for. -/
@[simp] theorem length_fit (width : Nat) (fill : Style) (row : Row) :
    (row.fit width fill).length = width := by
  simp [fit]
  omega

/-- The characters of a row. -/
def text (row : Row) : String :=
  String.ofList (row.map Cell.glyph)

end Row

/-! ## Panes -/

/-- A framed part of a screen. -/
structure Pane where
  title : String
  /-- The style of the frame and the title. -/
  border : Style
  /-- The style of blanks inside the frame. -/
  fill : Style
  rows : List Row

namespace Pane

/-- A line of the frame: a corner, a text on a rule, and a corner, `width` cells in all. -/
def rule (p : Pane) (width : Nat) (left : Char) (text : String) (right : Char) : Row :=
  let inner := (text.toList.take (width - 2)).map fun c => Cell.mk c p.border
  Cell.mk left p.border
    :: (inner ++ List.replicate (width - 2 - inner.length) ⟨'─', p.border⟩
      ++ [Cell.mk right p.border])

/-- The pane as `height` rows of `width` cells. -/
def draw (p : Pane) (width height : Nat) : List Row :=
  let side : Cell := ⟨'│', p.border⟩
  let blank : Row := []
  let inner := (p.rows ++ List.replicate (height - 2 - p.rows.length) blank).take (height - 2)
  p.rule width '┌' p.title '┐'
    :: (inner.map (fun row => side :: (row.fit (width - 2) p.fill ++ [side]))
      ++ [p.rule width '└' "" '┘'])

end Pane

end EightBit
