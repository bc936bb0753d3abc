/-
# EightBit.Proofs.Wrapping -- what the rows of a broken line hold

A line is broken by reading it a character at a time. What is read so far stands in the rows that have ended,
in the row that goes on, in the blanks after it and in the word after those, in this order; `Sound` says that
it is all there except for blanks, and that it has room. Each of the operations that a step consists of keeps
it. For a word to have room on the next row there have to be blanks between it and the row that ends, which is
the second invariant, `blanks_after`.

From this follows what is known of the rows of every line: none is wider than it may be, and nothing but
blanks is left out. Two more facts are about where a line ends. If it ends in a character that is neither a
blank nor a soft hyphen, then so does its last row, and how many rows there are before it does not depend on
which character that is. The number of rows of a line without blanks is its width divided by that of a row,
rounded up.
-/
import EightBit.Text.Wrap
import Mathlib

namespace EightBit.Text

/-! ## Widths -/

theorem width_eq_sum (text : List Char) : width text = (text.map columns).sum := by
  rw [List.sum_eq_foldl, List.foldl_map]
  rfl

@[simp] theorem width_nil : width [] = 0 := rfl

@[simp] theorem width_append (text text' : List Char) :
    width (text ++ text') = width text + width text' := by
  simp [width_eq_sum]

@[simp] theorem width_singleton (c : Char) : width [c] = columns c := by
  simp [width_eq_sum]

theorem columns_le_one (c : Char) : columns c ≤ 1 := by
  unfold columns
  split <;> omega

theorem columns_of_isBreak {c : Char} (h : isBreak c = true) : columns c = 1 := by
  refine if_neg ?_
  rintro rfl
  exact absurd h (by decide)

/-- Blanks that are there take a column. -/
theorem width_pos_of_isBreak {text : List Char} (h : ∀ c ∈ text, isBreak c = true)
    (hne : text ≠ []) : 0 < width text := by
  obtain ⟨c, rest, rfl⟩ := List.exists_cons_of_ne_nil hne
  have hc := columns_of_isBreak (h c List.mem_cons_self)
  rw [width_eq_sum, List.map_cons, List.sum_cons]
  omega

/-- A text without the blanks at which a row may end. -/
def unblanked (text : List Char) : List Char :=
  text.filter fun c => !isBreak c

@[simp] theorem unblanked_append (text text' : List Char) :
    unblanked (text ++ text') = unblanked text ++ unblanked text' :=
  List.filter_append ..

theorem unblanked_eq_nil {text : List Char} (h : ∀ c ∈ text, isBreak c = true) :
    unblanked text = [] := by
  simpa [unblanked] using h

/-- A letter, as far as rows are concerned: a character that has a place of its own, since it is neither a blank
at which a row may end nor a soft hyphen. -/
structure Visible (c : Char) : Prop where
  isBreak : isBreak c = false
  columns : columns c = 1

namespace Wrapping

variable {limit : Nat} {line : List Char} {w : Wrapping} {c : Char}

/-! ## One step -/

theorem add_blank (h : isBreak c = true) : w.add c = { w with blanks := w.blanks ++ [c] } :=
  if_pos h

theorem add_letter (h : isBreak c = false) : w.add c = { w with word := w.word ++ [c] } :=
  if_neg (ne_true_of_eq_false h)

@[simp] theorem taken_settle (w : Wrapping) : w.settle.taken = w.taken := by
  simp [taken, settle, Nat.add_assoc]

@[simp] theorem taken_endRow (w : Wrapping) : w.endRow.taken = width w.word := by
  simp [taken, endRow]

@[simp] theorem taken_add (w : Wrapping) (c : Char) : (w.add c).taken = w.taken + columns c := by
  unfold add taken
  split <;> simp only [width_append, width_singleton] <;> omega

theorem step_of_room (h : w.taken + columns c ≤ limit) :
    step limit w c = (if isBreak c && !w.word.isEmpty then w.settle else w).add c := by
  have hcut : (w.row.isEmpty && decide (limit < w.taken + columns c)) = false := by
    simp [Nat.not_lt.mpr h]
  simp only [step, hcut, Bool.or_false]
  refine if_neg (Nat.not_lt.mpr ?_)
  split
  · rwa [taken_settle]
  · exact h

theorem step_of_full (h : limit < w.taken + columns c) :
    step limit w c =
      let w := if isBreak c && !w.word.isEmpty || w.row.isEmpty then w.settle else w
      if isBreak c then w.endRow else w.endRow.add c := by
  unfold step
  rw [decide_eq_true h, Bool.and_true]
  refine if_pos ?_
  split
  · rwa [taken_settle]
  · exact h

/-! ## What is read -/

/-- A line that is read to its end. -/
def after (limit : Nat) (line : List Char) : Wrapping :=
  line.foldl (step limit) start

theorem after_concat (limit : Nat) (line : List Char) (c : Char) :
    after limit (line ++ [c]) = step limit (after limit line) c :=
  List.foldl_concat ..

/-- Of what is read of a line nothing but blanks is lost, and there is room for what is left of it. -/
structure Sound (limit : Nat) (line : List Char) (w : Wrapping) : Prop where
  rows_le : ∀ row ∈ w.rows, width row ≤ limit
  taken_le : w.taken ≤ limit
  blanks : ∀ c ∈ w.blanks, isBreak c = true
  kept : unblanked (w.rows.flatten ++ w.row ++ w.blanks ++ w.word) = unblanked line

theorem Sound.settle (h : w.Sound limit line) : w.settle.Sound limit line where
  rows_le := h.rows_le
  taken_le := w.taken_settle ▸ h.taken_le
  blanks := List.forall_mem_nil _
  kept := by simpa [Wrapping.settle] using h.kept

theorem Sound.endRow (h : w.Sound limit line) : w.endRow.Sound limit line where
  rows_le := by
    have hrow : width w.row ≤ limit := by
      have hle := h.taken_le
      unfold taken at hle
      omega
    simpa [Wrapping.endRow, or_imp, forall_and] using ⟨h.rows_le, hrow⟩
  taken_le := by
    have hle := h.taken_le
    unfold taken at hle
    rw [taken_endRow]
    omega
  blanks := List.forall_mem_nil _
  kept := by simpa [Wrapping.endRow, unblanked_eq_nil h.blanks] using h.kept

theorem Sound.add (h : w.Sound limit line) (hroom : w.taken + columns c ≤ limit) :
    (w.add c).Sound limit (line ++ [c]) := by
  have hkept := h.kept
  refine ⟨?rows_le, w.taken_add c ▸ hroom, ?blanks, ?kept⟩
  case rows_le =>
    unfold Wrapping.add
    split <;> exact h.rows_le
  case blanks =>
    cases hc : isBreak c with
    | true => simpa [add_blank hc, or_imp, forall_and, hc] using h.blanks
    | false => simpa [add_letter hc] using h.blanks
  case kept =>
    cases hc : isBreak c with
    | true => simpa [add_blank hc, unblanked, hc] using hkept
    | false => simp [add_letter hc, ← hkept]

/-- A blank may be left out. -/
theorem Sound.skip (h : w.Sound limit line) (hc : isBreak c = true) :
    w.Sound limit (line ++ [c]) where
  rows_le := h.rows_le
  taken_le := h.taken_le
  blanks := h.blanks
  kept := by simpa [unblanked, hc] using h.kept

/-- After a row that goes on there are blanks, unless it is empty. -/
theorem blanks_step (h : w.row ≠ [] → w.blanks ≠ []) (c : Char) :
    (step limit w c).row ≠ [] → (step limit w c).blanks ≠ [] := by
  have hended : ∀ u : Wrapping, (u.endRow.add c).row = [] := by
    intro u
    unfold add
    split <;> rfl
  rcases Nat.lt_or_ge limit (w.taken + columns c) with hfull | hroom
  · rw [step_of_full hfull]
    cases hc : isBreak c with
    | true => exact fun hrow => absurd rfl hrow
    | false => exact fun hrow => absurd (hended _) hrow
  · rw [step_of_room hroom]
    cases hc : isBreak c with
    | true => simp [add_blank hc]
    | false => simpa [add_letter hc] using h

theorem blanks_after (limit : Nat) (line : List Char) :
    (after limit line).row ≠ [] → (after limit line).blanks ≠ [] := by
  induction line using List.reverseRecOn with
  | nil => exact fun hrow => absurd rfl hrow
  | append_singleton line c ih =>
    rw [after_concat]
    exact blanks_step ih c

/-- The word that a full row ends before has room for one more character on the next row. -/
theorem Sound.room (hlimit : 1 ≤ limit) (h : w.Sound limit line)
    (hblanks : w.row ≠ [] → w.blanks ≠ []) (c : Char) :
    (if w.row.isEmpty then w.settle else w).endRow.taken + columns c ≤ limit := by
  have hc := columns_le_one c
  by_cases hrow : w.row = []
  · have hempty : w.settle.endRow.taken = 0 := taken_endRow _
    rw [if_pos (List.isEmpty_iff.mpr hrow), hempty]
    omega
  · have hpos := width_pos_of_isBreak h.blanks (hblanks hrow)
    have hle := h.taken_le
    unfold taken at hle
    rw [if_neg (by simpa using hrow), taken_endRow]
    omega

theorem Sound.step (hlimit : 1 ≤ limit) (h : w.Sound limit line)
    (hblanks : w.row ≠ [] → w.blanks ≠ []) (c : Char) :
    (step limit w c).Sound limit (line ++ [c]) := by
  have hsettled : ∀ b : Bool, (if b then w.settle else w).Sound limit line := by
    rintro (_ | _)
    exacts [h, h.settle]
  rcases Nat.lt_or_ge limit (w.taken + columns c) with hfull | hroom
  · rw [step_of_full hfull]
    cases hc : isBreak c with
    | true => exact (hsettled _).endRow.skip hc
    | false => exact (hsettled _).endRow.add (h.room hlimit hblanks c)
  · rw [step_of_room hroom]
    refine (hsettled _).add ?_
    split
    · rwa [taken_settle]
    · exact hroom

theorem sound_after (hlimit : 1 ≤ limit) (line : List Char) :
    (after limit line).Sound limit line := by
  induction line using List.reverseRecOn with
  | nil => exact ⟨List.forall_mem_nil _, Nat.zero_le _, List.forall_mem_nil _, rfl⟩
  | append_singleton line c ih =>
    rw [after_concat]
    exact ih.step hlimit (blanks_after limit line) c

/-! ## What is left at the end -/

theorem mem_finish {row : List Char} (h : row ∈ w.finish) :
    row ∈ w.rows ∨ row = [] ∨ row = w.settle.row := by
  simp only [finish] at h
  split at h
  · simpa using h
  · split at h
    · have hrow := List.mem_append.mp h
      exact hrow.imp_right fun hlast => .inr (List.mem_singleton.mp hlast)
    · exact .inl h

theorem flatten_finish (w : Wrapping) :
    w.finish.flatten = w.rows.flatten ++ w.row ++ w.blanks ++ w.word := by
  have hrest : w.settle.row = w.row ++ w.blanks ++ w.word := rfl
  simp only [finish]
  split
  · simp [hrest]
  · split
    · simp [hrest]
    · next hnone =>
      have hnil : w.settle.row = [] := by
        simp only [Bool.or_eq_true, not_or, Bool.not_eq_true, Bool.not_eq_false',
          List.isEmpty_iff] at hnone
        exact hnone.2
      rw [List.append_assoc, List.append_assoc, ← List.append_assoc w.row, ← hrest, hnil,
        List.append_nil]

theorem finish_of_word (h : w.word ≠ []) : w.finish = w.rows ++ [w.settle.row] := by
  have hrest : w.settle.row ≠ [] := by simp [settle, h]
  simp [finish, h, hrest]

/-- Where a letter is put does not depend on which letter it is. -/
theorem exists_step_visible (limit : Nat) (w : Wrapping) :
    ∃ u : Wrapping, ∀ c, Visible c → step limit w c = { u with word := u.word ++ [c] } := by
  rcases Nat.lt_or_ge limit (w.taken + 1) with hfull | hroom
  · refine ⟨(if w.row.isEmpty then w.settle else w).endRow, fun c hc => ?_⟩
    rw [step_of_full (hc.columns.symm ▸ hfull), hc.isBreak]
    exact add_letter hc.isBreak
  · refine ⟨w, fun c hc => ?_⟩
    rw [step_of_room (hc.columns.symm ▸ hroom), hc.isBreak]
    exact add_letter hc.isBreak

/-! ## A line without blanks -/

/-- Without blanks there is only a word; the rows before it are full. -/
structure Unbroken (limit : Nat) (line : List Char) (w : Wrapping) : Prop where
  row : w.row = []
  blanks : w.blanks = []
  width : width line = limit * w.rows.length + width w.word
  word_pos : w.rows ≠ [] → 0 < Text.width w.word

theorem Unbroken.step (hsound : w.Sound limit line) (h : w.Unbroken limit line)
    (hc : isBreak c = false) : (step limit w c).Unbroken limit (line ++ [c]) := by
  obtain ⟨hrow, hblanks, hwidth, hpos⟩ := h
  have htaken : w.taken = Text.width w.word := by simp [taken, hrow, hblanks]
  have hle := hsound.taken_le
  have hone := columns_le_one c
  rcases Nat.lt_or_ge limit (w.taken + columns c) with hfull | hroom
  · have hstep : Wrapping.step limit w c = ⟨w.rows ++ [w.word], [], [], [c]⟩ := by
      rw [step_of_full hfull, hc]
      simp [hrow, hblanks, settle, endRow, add_letter hc]
    rw [hstep]
    refine ⟨rfl, rfl, ?_, fun _ => ?_⟩
    · simp [hwidth, Nat.mul_add]
      omega
    · simp
      omega
  · have hstep : Wrapping.step limit w c = { w with word := w.word ++ [c] } := by
      rw [step_of_room hroom, hc]
      exact add_letter hc
    rw [hstep]
    refine ⟨hrow, hblanks, ?_, fun hne => ?_⟩
    · simp [hwidth]
      omega
    · have hword := hpos hne
      simp
      omega

theorem unbroken_after (hlimit : 1 ≤ limit) (h : ∀ c ∈ line, isBreak c = false) :
    (after limit line).Unbroken limit line := by
  induction line using List.reverseRecOn with
  | nil => exact ⟨rfl, rfl, rfl, fun hne => absurd rfl hne⟩
  | append_singleton line c ih =>
    rw [List.forall_mem_append] at h
    rw [after_concat]
    exact (ih h.1).step (sound_after hlimit line) (h.2 c (List.mem_singleton_self c))

end Wrapping

/-! ## The rows of a line -/

variable {limit : Nat} {line row : List Char}

theorem wrap_eq_finish (limit : Nat) (line : List Char) :
    wrap limit line = (Wrapping.after limit line).finish := rfl

/-- No row is wider than it may be. -/
theorem width_le_of_mem_wrap (hlimit : 1 ≤ limit) (h : row ∈ wrap limit line) :
    width row ≤ limit := by
  have hsound := Wrapping.sound_after hlimit line
  rw [wrap_eq_finish] at h
  rcases Wrapping.mem_finish h with hrow | rfl | rfl
  · exact hsound.rows_le row hrow
  · exact Nat.zero_le _
  · simpa [Wrapping.taken, Wrapping.settle, Nat.add_assoc] using hsound.taken_le

/-- The rows have the characters of the line in their order, except for blanks. -/
theorem unblanked_wrap (hlimit : 1 ≤ limit) (line : List Char) :
    unblanked (wrap limit line).flatten = unblanked line := by
  rw [wrap_eq_finish, Wrapping.flatten_finish]
  exact (Wrapping.sound_after hlimit line).kept

/-- A letter at the end of a line is at the end of its last row. The rest of the rows is the same for every
letter. -/
theorem exists_wrap_concat (limit : Nat) (line : List Char) :
    ∃ rows row, ∀ c, Visible c → wrap limit (line ++ [c]) = rows ++ [row ++ [c]] := by
  obtain ⟨u, hu⟩ := Wrapping.exists_step_visible limit (Wrapping.after limit line)
  refine ⟨u.rows, u.row ++ u.blanks ++ u.word, fun c hc => ?_⟩
  rw [wrap_eq_finish, Wrapping.after_concat, hu c hc, Wrapping.finish_of_word (by simp)]
  simp [Wrapping.settle]

theorem ceilDiv_mul_add {n k r : Nat} (hpos : 0 < r) (hr : r ≤ n) :
    (n * k + r) ⌈/⌉ n = k + 1 := by
  rw [Nat.ceilDiv_eq_add_pred_div, Nat.mul_comm]
  refine Nat.div_eq_of_lt_le ?_ ?_
  · rw [Nat.succ_mul]
    omega
  · rw [Nat.succ_mul, Nat.succ_mul]
    omega

/-- A line without blanks has as many rows as its width takes. -/
theorem length_wrap (hlimit : 1 ≤ limit) (h : ∀ c ∈ line, isBreak c = false) :
    (wrap limit line).length = max 1 (width line ⌈/⌉ limit) := by
  obtain ⟨hrow, hblanks, hwidth, hpos⟩ := Wrapping.unbroken_after hlimit h
  have hle := (Wrapping.sound_after hlimit line).taken_le
  rw [wrap_eq_finish]
  generalize Wrapping.after limit line = w at hrow hblanks hwidth hpos hle ⊢
  have hword : width w.word ≤ limit := by simpa [Wrapping.taken, hrow, hblanks] using hle
  by_cases hrows : w.rows = []
  · have hnarrow : width line ⌈/⌉ limit ≤ 1 := by
      rw [ceilDiv_le_iff_le_mul hlimit, hwidth, hrows]
      simpa using hword
    rw [max_eq_left hnarrow]
    simp [Wrapping.finish, hblanks, hrows]
  · have hlast : w.word ≠ [] := by
      intro hnil
      have hword := hpos hrows
      rw [hnil, width_nil] at hword
      omega
    have hceil : width line ⌈/⌉ limit = w.rows.length + 1 := by
      rw [hwidth, ceilDiv_mul_add (hpos hrows) hword]
    rw [Wrapping.finish_of_word hlast, hceil]
    simp

end EightBit.Text
