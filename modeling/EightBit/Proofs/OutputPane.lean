/-
# EightBit.Proofs.OutputPane -- how much of the console is in view

The output pane has six rows. It selects the last six *lines* of the console and shows the first six of the
rows that they are broken into, so the end of the console is in view exactly if there are no more rows than
that. Which of the lines is the long one makes no difference.

The pane is looked at where it stands on the screen. `crop` cuts a rectangle out of a screen; it goes through
the layout a pane at a time, and what it finds inside a frame is `Pane.inside`.
-/
import EightBit.Debugger.Screen
import EightBit.Proofs.Lines
import EightBit.Proofs.Wrapping

namespace EightBit

/-- The rectangle of a screen that has so many rows of so many cells, below and to the right of a number of
others. -/
def crop (above left height width : Nat) (screen : List Row) : List Row :=
  ((screen.drop above).take height).map fun row => (row.drop left).take width

section Crop

variable {above left height width : Nat}

theorem crop_append {upper : List Row} (lower : List Row) :
    crop (upper.length + above) left height width (upper ++ lower)
      = crop above left height width lower := by
  rw [crop, List.drop_length_add_append]
  rfl

/-- To the right of rows that have the same width. -/
theorem crop_beside {n : Nat} {ls rs : List Row} (hlength : ls.length = rs.length)
    (hn : ∀ row ∈ ls, row.length = n) :
    crop above (n + left) height width (List.zipWith (· ++ ·) ls rs)
      = crop above left height width rs := by
  have hcut : (List.zipWith (· ++ ·) ls rs).map (fun row => (row.drop (n + left)).take width)
      = rs.map fun row => (row.drop left).take width := by
    induction ls generalizing rs with
    | nil =>
      rw [List.length_nil, eq_comm, List.length_eq_zero_iff] at hlength
      rw [hlength]
      rfl
    | cons l ls ih =>
      obtain ⟨r, rs, rfl⟩ := List.exists_cons_of_length_eq_add_one hlength.symm
      rw [List.forall_mem_cons] at hn
      rw [List.zipWith_cons_cons, List.map_cons, List.map_cons, ih (by simpa using hlength) hn.2,
        ← hn.1, List.drop_length_add_append]
  unfold crop
  rw [List.map_take, List.map_drop, hcut, List.map_take, List.map_drop]

end Crop

/-! ## Panes -/

namespace Pane

variable (p : Pane) {width height : Nat}

theorem length_rule (hwidth : 2 ≤ width) (left : Char) (text : String) (right : Char) :
    (p.rule width left text right).length = width := by
  simp [rule]
  omega

theorem length_draw (hheight : 2 ≤ height) : (p.draw width height).length = height := by
  simp [draw]
  omega

theorem length_of_mem_draw (hwidth : 2 ≤ width) {row : Row} (h : row ∈ p.draw width height) :
    row.length = width := by
  simp only [draw, List.mem_cons, List.mem_append, List.mem_map] at h
  rcases h with rfl | ⟨inner, -, rfl⟩ | rfl | h
  · exact p.length_rule hwidth ..
  · simp
    omega
  · exact p.length_rule hwidth ..
  · cases h

/-- What stands inside the frame: the rows that there is room for, and blank ones. -/
def inside (width height : Nat) : List Row :=
  (p.rows.take height ++ List.replicate (height - p.rows.length) []).map (Row.fit width p.fill)

/-- Inside the frame there is what is to be there, whatever comes below the pane. -/
theorem crop_draw (width height : Nat) (lower : List Row) :
    crop 1 1 height width (p.draw (width + 2) (height + 2) ++ lower) = p.inside width height := by
  have hrows : (p.rows ++ List.replicate (height - p.rows.length) []).take height
      = p.rows.take height ++ List.replicate (height - p.rows.length) [] := by
    rw [List.take_append, List.take_replicate, Nat.min_self]
  have hlength : (p.rows.take height ++ List.replicate (height - p.rows.length) []).length
      = height := by
    simp
    omega
  simp only [draw, Nat.add_sub_cancel, hrows]
  unfold crop inside
  rw [List.cons_append, List.drop_succ_cons, List.drop_zero, List.append_assoc,
    List.take_left' (by rw [List.length_map, hlength]), List.map_map]
  refine List.map_congr_left fun row _ => ?_
  simp

end Pane

theorem Text.unblanked_dropReturn (line : List Char) :
    Text.unblanked (Text.dropReturn line) = Text.unblanked line := by
  rcases Text.eq_dropReturn_append line with hline | hline
  · rw [← hline]
  · have hreturn : Text.unblanked ['\r'] = [] := by decide
    rw [congrArg Text.unblanked hline, Text.unblanked_append, hreturn, List.append_nil]

namespace Debugger

/-! ## The rows of the output -/

/-- The inner width of the output pane of a screen. -/
def outputWidth (width : Nat) : Nat :=
  width - width * 45 / 100 - 2

/-- The rows that the last six lines of the console are broken into. -/
def outputRows (d : Debugger) (columns : Nat) : List (List Char) :=
  (Text.lines (['\n'].intercalate (d.consoleTail 6))).flatMap (Text.wrap columns)

/-- What a screen shows inside the frame of the output pane. -/
def outputView (d : Debugger) (width height : Nat) : List Row :=
  crop (height - 11) (width * 45 / 100 + 1) 6 (outputWidth width) (d.screen width height)

/-- A row as the pane shows it. -/
def shownRow (columns : Nat) (row : List Char) : Row :=
  (outputRow row).fit columns Style.plain

variable {d : Debugger} {width height columns : Nat}

theorem outputWidth_pos (hwidth : 5 ≤ width) : 1 ≤ outputWidth width := by
  unfold outputWidth
  omega

theorem outputView_eq_inside (d : Debugger) (hwidth : 5 ≤ width) (hheight : 14 ≤ height) :
    d.outputView width height
      = (d.outputPane (outputWidth width + 2) 8).inside (outputWidth width) 6 := by
  have hinner := outputWidth_pos hwidth
  have hleft : 2 ≤ width * 45 / 100 := by omega
  have hright : width - width * 45 / 100 = outputWidth width + 2 := by
    unfold outputWidth at hinner ⊢
    omega
  have hlength : ∀ (p : Pane) (w h : Nat), 2 ≤ h → (p.draw w h).length = h :=
    fun p _ _ => p.length_draw
  have habove : height - 11 = ((d.memoryPane (height - 12)).draw (outputWidth width + 2)
      (height - 12)).length + 1 := by
    rw [hlength _ _ _ (by omega)]
    omega
  unfold outputView screen
  simp only [hright]
  rw [crop_beside, habove, List.append_assoc, crop_append, Pane.crop_draw]
  case hlength =>
    simp only [List.length_append]
    rw [hlength _ _ 8, hlength _ _ 3, hlength _ _ 8, hlength _ _ 4, hlength, hlength] <;> omega
  case hn =>
    simp only [List.forall_mem_append]
    exact ⟨⟨fun _ => Pane.length_of_mem_draw _ hleft, fun _ => Pane.length_of_mem_draw _ hleft⟩,
      fun _ => Pane.length_of_mem_draw _ hleft⟩

/-- The view is the first six rows, and blank ones if there are fewer. -/
theorem outputView_eq (d : Debugger) (hwidth : 5 ≤ width) (hheight : 14 ≤ height) :
    d.outputView width height =
      ((d.outputRows (outputWidth width)).take 6
        ++ List.replicate (6 - (d.outputRows (outputWidth width)).length) []).map
          (shownRow (outputWidth width)) := by
  rw [outputView_eq_inside d hwidth hheight]
  have hrows : (d.outputPane (outputWidth width + 2) 8).rows
      = (d.outputRows (outputWidth width)).map outputRow := rfl
  have hblank : ([] : Row) = outputRow [] := rfl
  unfold Pane.inside
  rw [hrows, List.length_map, ← List.map_take, hblank, ← List.map_replicate, ← List.map_append,
    List.map_map]
  rfl

@[simp] theorem length_outputRow (row : List Char) : (outputRow row).length = Text.width row := by
  have hcolumns : ∀ c, Text.columns c = if Text.columns c != 0 then 1 else 0 := by
    intro c
    unfold Text.columns
    split <;> rfl
  rw [outputRow, List.length_map, Text.width_eq_sum, ← List.countP_eq_length_filter]
  induction row with
  | nil => rfl
  | cons c row ih =>
    rw [List.countP_cons, List.map_cons, List.sum_cons, ih, ← hcolumns, Nat.add_comm]

/-- A row that fits and ends in a letter, as the pane shows it. -/
theorem shownRow_concat {row : List Char} {c : Char} (hc : Text.Visible c)
    (hfits : Text.width (row ++ [c]) ≤ columns) :
    shownRow columns (row ++ [c]) = outputRow row
      ++ ⟨c, Style.plain⟩
        :: List.replicate (columns - Text.width (row ++ [c])) ⟨' ', Style.plain⟩ := by
  have hcells : outputRow (row ++ [c]) = outputRow row ++ [⟨c, Style.plain⟩] := by
    simp [outputRow, hc.columns]
  unfold shownRow Row.fit
  rw [length_outputRow, List.take_of_length_le (by rwa [length_outputRow]), hcells,
    List.append_assoc, List.singleton_append]

/-! ## The end of the console -/

/-- Read row by row, the view ends in a character: after it there are only blanks. -/
def EndsIn (view : List Row) (c : Char) : Prop :=
  ∃ before n, view.flatten = before ++ ⟨c, Style.plain⟩ :: List.replicate n ⟨' ', Style.plain⟩

variable {front : List (List Char)} {line : List Char} {c : Char}

theorem consoleTail_of_lines {last : List Char}
    (hlines : Text.lines d.console.toList = front ++ [last]) :
    d.consoleTail 6 = front.drop (front.length - 5) ++ [last] := by
  show (Text.lines _).drop ((Text.lines _).length - 6) = _
  rw [hlines, List.length_append, List.length_singleton, Nat.add_sub_add_right,
    List.drop_append_of_le_length (Nat.sub_le ..)]

/-- The rows of the selected lines before the last one. -/
def earlierRows (columns : Nat) (front : List (List Char)) : List (List Char) :=
  ((front.drop (front.length - 5)).map Text.dropReturn).flatMap (Text.wrap columns)

theorem outputRows_of_lines (hlines : Text.lines d.console.toList = front ++ [line ++ [c]])
    (columns : Nat) :
    d.outputRows columns = earlierRows columns front ++ Text.wrap columns (line ++ [c]) := by
  have hlf : ∀ l ∈ front ++ [line ++ [c]], '\n' ∉ l := by
    intro l hl
    rw [← hlines] at hl
    exact Text.notMem_of_mem_lines hl
  rw [List.forall_mem_append, List.forall_mem_singleton] at hlf
  unfold outputRows
  rw [consoleTail_of_lines hlines, Text.lines_intercalate_concat
      (fun l hl => hlf.1 l (List.mem_of_mem_drop hl)) hlf.2 (by simp),
    List.flatMap_append, List.flatMap_singleton]
  rfl

/-- If the last line ends in a letter, so does the last row; what else there is in the rows does not depend on
which letter it is. -/
theorem exists_outputRows (columns : Nat) (front : List (List Char)) (line : List Char) :
    ∃ rows row, ∀ (d : Debugger) c, Text.Visible c →
      Text.lines d.console.toList = front ++ [line ++ [c]] →
        d.outputRows columns = rows ++ [row ++ [c]] := by
  obtain ⟨rows, row, hwrap⟩ := Text.exists_wrap_concat columns line
  refine ⟨earlierRows columns front ++ rows, row, fun d c hc hlines => ?_⟩
  rw [outputRows_of_lines hlines, hwrap c hc, List.append_assoc]

section LastRow

variable {rows : List (List Char)} {row : List Char}

theorem width_le_of_outputRows (hcolumns : 1 ≤ columns)
    (hrows : d.outputRows columns = rows ++ [row]) : Text.width row ≤ columns := by
  have hmem : row ∈ d.outputRows columns :=
    hrows ▸ List.mem_append_right _ (List.mem_singleton_self row)
  obtain ⟨l, -, hl⟩ := List.mem_flatMap.mp hmem
  exact Text.width_le_of_mem_wrap hcolumns hl

/-- If there is room for all of the rows, they are what is in view. -/
theorem outputView_of_room (hwidth : 5 ≤ width) (hheight : 14 ≤ height)
    (hrows : d.outputRows (outputWidth width) = rows ++ [row]) (hroom : rows.length < 6) :
    d.outputView width height = rows.map (shownRow (outputWidth width))
      ++ shownRow (outputWidth width) row
        :: List.replicate (5 - rows.length) (shownRow (outputWidth width) []) := by
  have hlength : (rows ++ [row]).length = rows.length + 1 := by simp
  rw [outputView_eq d hwidth hheight, hrows, List.take_of_length_le (by omega), hlength,
    List.map_append, List.map_append, List.map_singleton, List.map_replicate, List.append_assoc,
    Nat.add_comm, ← Nat.sub_sub]
  rfl

/-- If the last row is one of the first six, the view ends in the last character. -/
theorem endsIn_outputView (hwidth : 5 ≤ width) (hheight : 14 ≤ height) (hc : Text.Visible c)
    (hrows : d.outputRows (outputWidth width) = rows ++ [row ++ [c]]) (hroom : rows.length < 6) :
    EndsIn (d.outputView width height) c := by
  have hfits := width_le_of_outputRows (outputWidth_pos hwidth) hrows
  have hblank : shownRow (outputWidth width) []
      = List.replicate (outputWidth width) ⟨' ', Style.plain⟩ := by
    simp [shownRow, outputRow, Row.fit]
  rw [EndsIn, outputView_of_room hwidth hheight hrows hroom, shownRow_concat hc hfits, hblank,
    List.flatten_append, List.flatten_cons, List.flatten_replicate_replicate, List.append_assoc,
    List.cons_append, List.replicate_append_replicate, ← List.append_assoc]
  exact ⟨_, _, rfl⟩

/-- Which letter the console ends in makes no difference to the view if the last row is not one of the first
six, and if it is then each letter makes another view. -/
theorem outputView_eq_iff {d' : Debugger} {c' : Char} (hwidth : 5 ≤ width) (hheight : 14 ≤ height)
    (hc : Text.Visible c) (hc' : Text.Visible c')
    (hrows : d.outputRows (outputWidth width) = rows ++ [row ++ [c]])
    (hrows' : d'.outputRows (outputWidth width) = rows ++ [row ++ [c']]) :
    d'.outputView width height = d.outputView width height ↔ c' = c ∨ 6 ≤ rows.length := by
  constructor
  · intro hview
    rw [or_iff_not_imp_right, Nat.not_le]
    intro hroom
    have hfits := width_le_of_outputRows (outputWidth_pos hwidth) hrows
    have hfits' := width_le_of_outputRows (outputWidth_pos hwidth) hrows'
    rw [outputView_of_room hwidth hheight hrows hroom, outputView_of_room hwidth hheight hrows' hroom,
      List.append_cancel_left_eq] at hview
    have hrow := List.head_eq_of_cons_eq hview
    rw [shownRow_concat hc hfits, shownRow_concat hc' hfits', List.append_cancel_left_eq] at hrow
    exact congrArg Cell.glyph (List.head_eq_of_cons_eq hrow)
  · intro h
    rw [outputView_eq d' hwidth hheight, outputView_eq d hwidth hheight, hrows, hrows']
    rcases h with rfl | hfull
    · rfl
    · rw [List.take_append_of_le_length hfull, List.take_append_of_le_length hfull]
      simp

end LastRow

/-! ## The rows and the lines -/

/-- Of a console without blanks a line takes as many rows as its width does, and at least one. -/
theorem length_outputRows (hcolumns : 1 ≤ columns)
    (hlines : Text.lines d.console.toList = front ++ [line ++ [c]])
    (hunbroken : ∀ c ∈ d.console.toList, Text.isBreak c = true → c = '\n') :
    (d.outputRows columns).length
      = ((d.consoleTail 6).map fun line => max 1 (Text.width line ⌈/⌉ columns)).sum := by
  have hletters : ∀ l ∈ Text.lines d.console.toList, ∀ c ∈ l, Text.isBreak c = false := by
    intro l hl c hc
    by_contra hbreak
    obtain rfl := hunbroken c (Text.mem_of_mem_lines hl hc) (by simpa using hbreak)
    exact Text.notMem_of_mem_lines hl hc
  have hkept : (front.drop (front.length - 5)).map Text.dropReturn
      = front.drop (front.length - 5) := by
    refine Text.map_dropReturn fun l hl hlast => ?_
    have hl' : l ∈ Text.lines d.console.toList :=
      hlines ▸ List.mem_append_left _ (List.mem_of_mem_drop hl)
    exact absurd (hletters l hl' '\r' (List.mem_of_getLast? hlast)) (by decide)
  have htail : d.outputRows columns = (d.consoleTail 6).flatMap (Text.wrap columns) := by
    rw [outputRows_of_lines hlines, earlierRows, hkept, consoleTail_of_lines hlines,
      List.flatMap_append, List.flatMap_singleton]
  rw [htail, List.length_flatMap]
  refine congrArg List.sum (List.map_congr_left fun l hl => ?_)
  exact Text.length_wrap hcolumns (hletters l (List.mem_of_mem_drop hl))

/-- The rows have the characters of the selected lines in their order, except for blanks. -/
theorem unblanked_outputRows (hcolumns : 1 ≤ columns)
    (hlines : Text.lines d.console.toList = front ++ [line ++ [c]]) :
    Text.unblanked (d.outputRows columns).flatten = Text.unblanked (d.consoleTail 6).flatten := by
  have hwrapped : ∀ ls : List (List Char),
      Text.unblanked ((ls.map Text.dropReturn).flatMap (Text.wrap columns)).flatten
        = Text.unblanked ls.flatten := by
    intro ls
    induction ls with
    | nil => rfl
    | cons l ls ih =>
      rw [List.map_cons, List.flatMap_cons, List.flatten_append, Text.unblanked_append, ih,
        Text.unblanked_wrap hcolumns, Text.unblanked_dropReturn, List.flatten_cons,
        Text.unblanked_append]
  rw [outputRows_of_lines hlines, consoleTail_of_lines hlines, List.flatten_append,
    List.flatten_append, Text.unblanked_append, Text.unblanked_append, earlierRows, hwrapped,
    Text.unblanked_wrap hcolumns, List.flatten_singleton]

/-- A program that prints a line of forty-three digits, four of two digits, and one of a single digit. -/
def longLineFirst : List UInt8 :=
  [Opcode.ldi.byte, 0, 48] ++ (List.replicate 41 [Opcode.pra.byte, 0]).flatten
    ++ (List.replicate 5 [Opcode.prn.byte, 0]).flatten
    ++ [Opcode.ldi.byte, 1, 7, Opcode.prn.byte, 1]

/-- A debugger that has stepped through that program. -/
def printedLongLine : Debugger := step^[49] (start {} longLineFirst)

/-- Its output, with one digit or another at the end. -/
def longLineThen (c : Char) : List Char :=
  List.replicate 41 '0' ++ "48\n48\n48\n48\n48\n".toList ++ [c, '\n']

/-- The lines before the last one. -/
def longLineAndFour : List (List Char) :=
  (List.replicate 41 '0' ++ ['4', '8']) :: List.replicate 4 ['4', '8']

theorem console_printedLongLine : printedLongLine.console.toList = longLineThen '7' := by
  decide +kernel

theorem lines_printedLongLine :
    Text.lines printedLongLine.console.toList = longLineAndFour ++ [[] ++ ['7']] := by
  rw [console_printedLongLine]
  decide

end Debugger

end EightBit
