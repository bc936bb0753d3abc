/-
# EightBit.Proofs.Lines -- where the lines of a text begin and end

Splitting a text into lines is one pass over its characters. Here it is shown to be what it is for: a
text with a line feed in it is a line, the line feed, and the lines of the rest; one without is a single
line, or none if it is empty. The carriage return before a line feed goes with it, **one** of them and no
other. From this follows the same in one equation, `lines_eq_splitLines`: the lines are what stands
between the line feeds.

Proofs about the lines of a text go by `line_induction`, a line at a time.
-/
import EightBit.Text.Line
import Mathlib

namespace EightBit.Text

/-! ## A line at a time -/

/-- To prove something of every text, it is enough to prove it of texts that have no line feed and to
get past one line feed. -/
@[elab_as_elim]
theorem line_induction {P : List Char → Prop} (last : ∀ text, '\n' ∉ text → P text)
    (line : ∀ line rest, '\n' ∉ line → P rest → P (line ++ '\n' :: rest)) (text : List Char) :
    P text := by
  induction hn : text.length using Nat.strong_induction_on generalizing text with
  | _ n ih =>
    by_cases hmem : '\n' ∈ text
    · obtain ⟨first, rest, rfl, hfirst⟩ := List.eq_append_cons_of_mem hmem
      refine line first rest hfirst (ih rest.length ?_ rest rfl)
      rw [← hn, List.length_append, List.length_cons]
      omega
    · exact last text hmem

/-- A line without the carriage return at its end, if one is there. -/
def dropReturn (line : List Char) : List Char :=
  if line.getLast? = some '\r' then line.dropLast else line

theorem dropReturn_of_ne {line : List Char} (h : line.getLast? ≠ some '\r') :
    dropReturn line = line :=
  if_neg h

theorem map_dropReturn {ls : List (List Char)} (h : ∀ line ∈ ls, line.getLast? ≠ some '\r') :
    ls.map dropReturn = ls :=
  (List.map_congr_left fun line hline => dropReturn_of_ne (h line hline)).trans (List.map_id' ls)

theorem dropReturn_concat (line : List Char) : dropReturn (line ++ ['\r']) = line := by
  rw [dropReturn, List.getLast?_concat, if_pos rfl, List.dropLast_concat]

/-- What is dropped from a line is a carriage return or nothing. -/
theorem eq_dropReturn_append (line : List Char) :
    line = dropReturn line ∨ line = dropReturn line ++ ['\r'] := by
  by_cases h : line.getLast? = some '\r'
  · right
    obtain ⟨front, rfl⟩ := List.getLast?_eq_some_iff.mp h
    rw [dropReturn_concat]
  · exact .inl (dropReturn_of_ne h).symm

theorem dropReturn_cons {c : Char} {line : List Char} (h : c = '\r' → line ≠ []) :
    dropReturn (c :: line) = c :: dropReturn line := by
  cases line with
  | nil =>
    have hc : c ≠ '\r' := fun hc => h hc rfl
    exact if_neg fun hlast => hc (Option.some.inj hlast)
  | cons d line =>
    unfold dropReturn
    rw [List.getLast?_cons_cons, List.dropLast_cons_cons]
    split <;> rfl

/-- A character that ends no line is the first one of its line. -/
theorem lines_cons {c : Char} {rest : List Char} (hlf : c ≠ '\n')
    (hcr : c = '\r' → rest.head? ≠ some '\n') : lines (c :: rest) = consLine c (lines rest) := by
  rw [lines.eq_4]
  · exact hlf
  · rintro tail rfl rfl
    exact hcr rfl rfl

/-- A text that has a line feed is a line and the lines of the rest. -/
theorem lines_append {line : List Char} (h : '\n' ∉ line) (rest : List Char) :
    lines (line ++ '\n' :: rest) = dropReturn line :: lines rest := by
  induction line with
  | nil =>
    rw [List.nil_append, lines]
    rfl
  | cons c line ih =>
    rw [List.mem_cons, not_or] at h
    by_cases hcr : c = '\r' ∧ line = []
    · obtain ⟨rfl, rfl⟩ := hcr
      show lines ('\r' :: '\n' :: rest) = _
      rw [lines]
      rfl
    · have hhead : c = '\r' → (line ++ '\n' :: rest).head? ≠ some '\n' := by
        intro hc
        cases line with
        | nil => exact absurd ⟨hc, rfl⟩ hcr
        | cons d line =>
          intro hd
          obtain rfl : d = '\n' := Option.some.inj hd
          exact h.2 List.mem_cons_self
      rw [List.cons_append, lines_cons (Ne.symm h.1) hhead, ih h.2,
        dropReturn_cons fun hc hnil => hcr ⟨hc, hnil⟩]
      rfl

/-- A text without a line feed is one line, if there is anything in it. -/
theorem lines_of_notMem {text : List Char} (h : '\n' ∉ text) (hne : text ≠ []) :
    lines text = [text] := by
  induction text with
  | nil => exact absurd rfl hne
  | cons c text ih =>
    rw [List.mem_cons, not_or] at h
    have hhead : text.head? ≠ some '\n' := fun hc => h.2 (List.mem_of_head? hc)
    rw [lines_cons (Ne.symm h.1) fun _ => hhead]
    cases text with
    | nil => rfl
    | cons d text => rw [ih h.2 (List.cons_ne_nil _ _), consLine]

/-! ## Between the line feeds -/

/-- The lines of a text as what stands between its line feeds: a carriage return before a line feed is
dropped, and after the last line feed there is a line only if there is anything. -/
def splitLines (text : List Char) : List (List Char) :=
  let pieces := text.splitOn '\n'
  pieces.dropLast.map dropReturn ++ pieces.getLast?.toList.filter (· ≠ [])

theorem splitOn_of_notMem {text : List Char} (h : '\n' ∉ text) : text.splitOn '\n' = [text] := by
  have hsplit : (['\n'].intercalate [text]).splitOn '\n' = [text] :=
    List.splitOn_intercalate '\n' (by simpa using h) (List.cons_ne_nil _ _)
  rwa [List.intercalate_singleton] at hsplit

theorem splitOn_append {line : List Char} (h : '\n' ∉ line) (rest : List Char) :
    (line ++ '\n' :: rest).splitOn '\n' = line :: rest.splitOn '\n' := by
  have hline : line.splitOnP (· == '\n') = [line] := splitOn_of_notMem h
  have hsplit := List.splitOnP_append_cons (p := (· == '\n')) line rest (beq_self_eq_true '\n')
  rwa [hline, List.singleton_append] at hsplit

/-- **The lines of a text** are what stands between its line feeds. -/
theorem lines_eq_splitLines (text : List Char) : lines text = splitLines text := by
  induction text using line_induction with
  | last text h =>
    rw [splitLines, splitOn_of_notMem h]
    by_cases hne : text = []
    · rw [hne]
      rfl
    · rw [lines_of_notMem h hne]
      simp [hne]
  | line line rest h ih =>
    have hrest : rest.splitOn '\n' ≠ [] := List.splitOnP_ne_nil _ _
    obtain ⟨piece, pieces, hpieces⟩ := List.exists_cons_of_ne_nil hrest
    rw [splitLines, hpieces] at ih
    rw [lines_append h, ih, splitLines, splitOn_append h, hpieces, List.dropLast_cons_cons,
      List.getLast?_cons_cons]
    rfl

theorem notMem_dropReturn {line : List Char} (h : '\n' ∉ line) : '\n' ∉ dropReturn line := by
  intro hmem
  rcases eq_dropReturn_append line with hline | hline
  · exact h (hline ▸ hmem)
  · exact h (hline ▸ List.mem_append_left _ hmem)

/-- No line has a line feed in it. -/
theorem notMem_of_mem_lines {text line : List Char} (h : line ∈ lines text) : '\n' ∉ line := by
  induction text using line_induction with
  | last text hlf =>
    by_cases hne : text = []
    · rw [hne] at h
      cases h
    · rw [lines_of_notMem hlf hne, List.mem_singleton] at h
      rwa [h]
  | line first rest hlf ih =>
    rw [lines_append hlf, List.mem_cons] at h
    rcases h with rfl | h
    · exact notMem_dropReturn hlf
    · exact ih h

/-- What is in a line is in the text. -/
theorem mem_of_mem_lines {text line : List Char} (h : line ∈ lines text) {c : Char} (hc : c ∈ line) :
    c ∈ text := by
  induction text using line_induction with
  | last text hlf =>
    by_cases hne : text = []
    · rw [hne] at h
      cases h
    · rw [lines_of_notMem hlf hne, List.mem_singleton] at h
      rwa [← h]
  | line first rest hlf ih =>
    rw [lines_append hlf, List.mem_cons] at h
    rcases h with rfl | h
    · refine List.mem_append_left _ ?_
      rcases eq_dropReturn_append first with hfirst | hfirst
      · rwa [hfirst]
      · exact hfirst ▸ List.mem_append_left _ hc
    · exact List.mem_append_right _ (List.mem_cons_of_mem _ (ih h))

/-! ## Lines put together -/

/-- Lines that each end in a line feed, with a last one that does not. -/
theorem lines_flatMap {ls : List (List Char)} (h : ∀ line ∈ ls, '\n' ∉ line) (text : List Char) :
    lines (ls.flatMap (· ++ ['\n']) ++ text) = ls.map dropReturn ++ lines text := by
  induction ls with
  | nil => rfl
  | cons line ls ih =>
    rw [List.forall_mem_cons] at h
    rw [List.flatMap_cons, List.append_assoc, List.append_assoc, List.singleton_append,
      lines_append h.1, ih h.2]
    rfl

/-- Lines that are joined by line feeds, the last of which is not empty: each of the others loses a carriage
return at its end, if it has one. -/
theorem lines_intercalate_concat {ls : List (List Char)} {last : List Char}
    (hls : ∀ line ∈ ls, '\n' ∉ line) (hlast : '\n' ∉ last) (hne : last ≠ []) :
    lines (['\n'].intercalate (ls ++ [last])) = ls.map dropReturn ++ [last] := by
  have hjoined : ['\n'].intercalate (ls ++ [last]) = ls.flatMap (· ++ ['\n']) ++ last := by
    clear hls
    induction ls with
    | nil => rw [List.nil_append, List.intercalate_singleton, List.flatMap_nil, List.nil_append]
    | cons line ls ih =>
      rw [List.cons_append, List.intercalate_cons_of_ne_nil (by simp), ih, List.flatMap_cons,
        List.append_assoc _ _ last]
  rw [hjoined, lines_flatMap hls, lines_of_notMem hlast hne]

/-- Lines that are joined by line feeds are the lines of the text, if they are not empty and none of
them ends in a carriage return. -/
theorem lines_intercalate {ls : List (List Char)} (hlf : ∀ line ∈ ls, '\n' ∉ line)
    (hcr : ∀ line ∈ ls, line.getLast? ≠ some '\r') (hne : ∀ line ∈ ls, line ≠ []) :
    lines (['\n'].intercalate ls) = ls := by
  rcases List.eq_nil_or_concat ls with rfl | ⟨front, last, rfl⟩
  · rfl
  · rw [List.concat_eq_append, List.forall_mem_append, List.forall_mem_singleton] at hlf hcr hne
    rw [List.concat_eq_append, lines_intercalate_concat hlf.1 hlf.2 hne.2, map_dropReturn hcr.1]

end EightBit.Text
