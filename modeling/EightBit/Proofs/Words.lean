/-
# EightBit.Proofs.Words -- the first word of a text, and texts without the white space around them

The first word of a text is found by two passes, one over the white space in front and one over what is
not white space. `Begins` says what a first word is without saying how it is found, and `begins_iff` is
that the two passes find it. White space put before or after a text leaves its first word alone.

Trimming takes white space off both ends and nothing else, and leaves none there.
-/
import EightBit.Text.Blank
import Mathlib

namespace EightBit.Text

/-! ## The first word -/

/-- There is nothing but white space in a text. -/
def Blank (text : List Char) : Prop :=
  ∀ c ∈ text, isBlank c = true

/-- After white space, if there is any, a text begins with this word: a run of other characters, at least
one, that white space or the end of the text follows. -/
def Begins (text word : List Char) : Prop :=
  ∃ indent rest, text = indent ++ word ++ rest ∧ Blank indent ∧ word ≠ [] ∧
    (∀ c ∈ word, isBlank c = false) ∧ ∀ c ∈ rest.head?, isBlank c = true

theorem blank_nil : Blank [] :=
  List.forall_mem_nil _

theorem blank_append {text rest : List Char} : Blank (text ++ rest) ↔ Blank text ∧ Blank rest :=
  List.forall_mem_append

theorem trimStart_eq_nil {text : List Char} : trimStart text = [] ↔ Blank text :=
  List.dropWhile_eq_nil_iff

/-- What is left of a text after the white space it begins with begins with something else. -/
theorem isBlank_of_mem_head_trimStart {text : List Char} {c : Char} (h : c ∈ (trimStart text).head?) :
    isBlank c = false := by
  have hhead := List.head?_dropWhile_not isBlank text
  rw [show (text.dropWhile isBlank).head? = some c from h] at hhead
  exact hhead

theorem firstWord_of_blank {text : List Char} (h : Blank text) : firstWord text = [] := by
  rw [firstWord, trimStart_eq_nil.mpr h, List.takeWhile_nil]

theorem Begins.firstWord_eq {text word : List Char} (h : Begins text word) : firstWord text = word := by
  obtain ⟨indent, rest, rfl, hindent, hne, hword, hrest⟩ := h
  obtain ⟨c, tail, rfl⟩ := List.exists_cons_of_ne_nil hne
  have hstart : trimStart (indent ++ (c :: tail) ++ rest) = (c :: tail) ++ rest := by
    rw [trimStart, List.append_assoc, List.dropWhile_append_of_pos hindent, List.cons_append,
      List.dropWhile_cons_of_neg (by simp [hword c List.mem_cons_self])]
  have hend : rest.takeWhile (!isBlank ·) = [] := by
    cases rest with
    | nil => rfl
    | cons d rest => exact List.takeWhile_cons_of_neg (by simp [hrest d rfl])
  rw [firstWord, hstart, List.takeWhile_append_of_pos (by simpa using hword), hend, List.append_nil]

/-- A text that is not all white space begins with its first word. -/
theorem begins_firstWord {text : List Char} (h : ¬ Blank text) : Begins text (firstWord text) := by
  have hindent : Blank (text.takeWhile isBlank) := fun _ => List.mem_takeWhile_imp
  obtain ⟨c, tail, hcons⟩ := List.exists_cons_of_ne_nil (mt trimStart_eq_nil.mp h)
  have hc : isBlank c = false := isBlank_of_mem_head_trimStart (by rw [hcons]; rfl)
  refine ⟨text.takeWhile isBlank, (trimStart text).dropWhile (!isBlank ·), ?_, hindent, ?_, ?_, ?_⟩
  · rw [firstWord, List.append_assoc, List.takeWhile_append_dropWhile, trimStart,
      List.takeWhile_append_dropWhile]
  · rw [firstWord, hcons, List.takeWhile_cons_of_pos (by simp [hc])]
    exact List.cons_ne_nil _ _
  · intro d hd
    simpa using List.mem_takeWhile_imp hd
  · intro d hd
    have hhead := List.head?_dropWhile_not (!isBlank ·) (trimStart text)
    rw [Option.mem_def.mp hd] at hhead
    simpa using hhead

/-- **The first word of a text** is what it begins with after white space. -/
theorem begins_iff {text word : List Char} : Begins text word ↔ firstWord text = word ∧ word ≠ [] := by
  constructor
  · intro h
    obtain ⟨_, _, _, _, hne, _⟩ := id h
    exact ⟨h.firstWord_eq, hne⟩
  · rintro ⟨rfl, hne⟩
    exact begins_firstWord fun hblank => hne (firstWord_of_blank hblank)

/-- Only a text of white space has no first word. -/
theorem firstWord_eq_nil {text : List Char} : firstWord text = [] ↔ Blank text := by
  refine ⟨fun h => ?_, firstWord_of_blank⟩
  by_contra hblank
  exact (begins_iff.mp (begins_firstWord hblank)).2 h

theorem firstWord_blank_append {indent : List Char} (h : Blank indent) (text : List Char) :
    firstWord (indent ++ text) = firstWord text := by
  rw [firstWord, trimStart, List.dropWhile_append_of_pos h]
  rfl

theorem firstWord_append_blank {gap : List Char} (h : Blank gap) (text : List Char) :
    firstWord (text ++ gap) = firstWord text := by
  by_cases htext : Blank text
  · rw [firstWord_of_blank htext, firstWord_of_blank (blank_append.mpr ⟨htext, h⟩)]
  · obtain ⟨indent, rest, hsplit, hindent, hne, hword, hrest⟩ := begins_firstWord htext
    refine Begins.firstWord_eq ⟨indent, rest ++ gap, ?_, hindent, hne, hword, ?_⟩
    · rw [← List.append_assoc, ← hsplit]
    · intro c hc
      cases rest with
      | nil => exact h c (List.mem_of_head? hc)
      | cons d rest => exact hrest c hc

/-! ## Trimming -/

/-- There is no white space at either end of a text. -/
def Trimmed (text : List Char) : Prop :=
  (∀ c ∈ text.head?, isBlank c = false) ∧ ∀ c ∈ text.getLast?, isBlank c = false

theorem trimEnd_eq (text : List Char) : trimEnd text = text.rdropWhile isBlank :=
  rfl

/-- What trimming takes off is white space. -/
theorem exists_eq_append_trim (text : List Char) :
    ∃ before after, text = before ++ trim text ++ after ∧ Blank before ∧ Blank after := by
  refine ⟨text.takeWhile isBlank, (trimStart text).rtakeWhile isBlank, ?_,
    fun _ => List.mem_takeWhile_imp, fun _ => List.mem_rtakeWhile_imp⟩
  rw [trim, trimEnd_eq, List.append_assoc, List.rdropWhile_append_rtakeWhile, trimStart,
    List.takeWhile_append_dropWhile]

/-- Trimming leaves no white space at either end. -/
theorem trimmed_trim (text : List Char) : Trimmed (trim text) := by
  constructor
  · intro c hc
    -- What the end loses leaves the first character where it is, unless it takes everything.
    have hprefix : trim text <+: trimStart text := List.rdropWhile_prefix isBlank _
    have hhead : c ∈ (trimStart text).head? := by
      obtain ⟨tail, htail⟩ := hprefix
      rw [← htail, List.head?_append, Option.mem_def.mp hc]
      rfl
    exact isBlank_of_mem_head_trimStart hhead
  · intro c hc
    have hne : (trimStart text).rdropWhile isBlank ≠ [] := by
      intro hnil
      rw [trim, trimEnd_eq, hnil] at hc
      cases hc
    have hlast := List.rdropWhile_last_not isBlank (trimStart text) hne
    rw [trim, trimEnd_eq, List.getLast?_eq_some_getLast hne] at hc
    obtain rfl := Option.some.inj hc
    simpa using hlast

/-- There is nothing to trim off a text without white space at its ends. -/
theorem Trimmed.trim_eq {text : List Char} (h : Trimmed text) : trim text = text := by
  have hstart : trimStart text = text := by
    cases text with
    | nil => rfl
    | cons c rest => exact List.dropWhile_cons_of_neg (by simp [h.1 c rfl])
  rw [trim, hstart, trimEnd_eq, List.rdropWhile_eq_self_iff]
  intro hne
  simp [h.2 _ (List.getLast?_eq_some_getLast hne)]

end EightBit.Text
