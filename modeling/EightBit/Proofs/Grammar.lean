/-
# EightBit.Proofs.Grammar -- what is accepted as source text

The grammar is put together here from both sides. `ofSource_grammar` is about every text: it says which
texts are read, what for, and what the error is if one is not. The other side is writing: a `WrittenLine`
is a line as someone may write it, and a text of such lines is read for the bytes that are written on
them, whichever way its lines end.
-/
import EightBit.Proofs.Source

namespace EightBit.Program

open Text (Blank Begins)

/-! ## Source text as it is written -/

/-- A line of source text as someone may write it: indented, with a byte or without, and with or without
a comment. -/
structure WrittenLine where
  indent : List Char
  /-- The byte on the line, if there is one. -/
  byte : Option UInt8
  /-- How many digits zeros in front bring the byte to, if it does not have as many. -/
  width : Nat
  gap : List Char
  /-- What stands after the `#`, if there is one. -/
  comment : Option (List Char)
  /-- Whether a carriage return stands before the line feed. -/
  crlf : Bool
  blank_indent : Blank indent
  blank_gap : Blank gap
  width_le : width ≤ 8
  oneLine : '\n' ∉ indent ++ gap ++ comment.getD []

namespace WrittenLine

/-- The byte as it is written on the line. -/
def numeral (l : WrittenLine) : List Char :=
  l.byte.elim [] fun b => Text.digits 2 l.width b.toNat

/-- The line without its ending. -/
def content (l : WrittenLine) : List Char :=
  l.indent ++ l.numeral ++ l.gap ++ l.comment.elim [] ('#' :: ·)

/-- The line before its line feed. -/
def body (l : WrittenLine) : List Char :=
  if l.crlf then l.content ++ ['\r'] else l.content

theorem mem_numeral {l : WrittenLine} {c : Char} (h : c ∈ l.numeral) : c = '0' ∨ c = '1' := by
  unfold numeral at h
  cases hbyte : l.byte with
  | none =>
    rw [hbyte] at h
    cases h
  | some b =>
    rw [hbyte] at h
    exact Text.mem_digits_two h

theorem notMem_content (l : WrittenLine) : '\n' ∉ l.content := by
  have hone := l.oneLine
  have hnumeral : '\n' ∉ l.numeral := fun h => by rcases mem_numeral h with h | h <;> cases h
  rw [List.mem_append, List.mem_append, not_or, not_or] at hone
  rw [content, List.mem_append, List.mem_append, List.mem_append, not_or, not_or, not_or]
  refine ⟨⟨⟨hone.1.1, hnumeral⟩, hone.1.2⟩, ?_⟩
  cases hcomment : l.comment with
  | none => exact List.not_mem_nil
  | some comment =>
    rw [hcomment] at hone
    rintro (_ | ⟨_, hmem⟩)
    exact hone.2 hmem

theorem notMem_body (l : WrittenLine) : '\n' ∉ l.body := by
  rw [body]
  split
  · rw [List.mem_append, not_or]
    exact ⟨l.notMem_content, by decide⟩
  · exact l.notMem_content

end WrittenLine

/-- A byte padded to no more than eight digits is a byte again. -/
theorem isByteWord_digits {width : Nat} (h : width ≤ 8) (b : UInt8) :
    IsByteWord (Text.digits 2 width b.toNat) := by
  have hpos : 0 < (Nat.toDigits 2 b.toNat).length := Nat.length_toDigits_pos
  have hlen : (Nat.toDigits 2 b.toNat).length ≤ 8 :=
    (Nat.length_toDigits_le_iff Nat.one_lt_two (by decide)).mpr b.toNat_lt
  refine ⟨?_, fun c => Text.mem_digits_two⟩
  rw [Text.digits, List.length_append, List.length_replicate]
  omega

theorem blank_return : Blank ['\r'] :=
  List.forall_mem_singleton.mpr rfl

/-- A line without its carriage return has the same word on it. -/
theorem codeWord_dropReturn (line : List Char) : codeWord (Text.dropReturn line) = codeWord line := by
  rcases Text.eq_dropReturn_append line with hline | hline
  · rw [← hline]
  · conv_rhs => rw [hline, codeWord_append_blank blank_return]

theorem WrittenLine.codePart_content (l : WrittenLine) :
    codePart l.content = l.indent ++ l.numeral ++ l.gap := by
  have hcode : '#' ∉ l.indent ++ l.numeral ++ l.gap := by
    have hnumeral : '#' ∉ l.numeral := fun h => by rcases mem_numeral h with h | h <;> cases h
    rw [List.mem_append, List.mem_append, not_or, not_or]
    exact ⟨⟨notMem_of_blank l.blank_indent, hnumeral⟩, notMem_of_blank l.blank_gap⟩
  rw [content]
  cases l.comment with
  | none =>
    rw [Option.elim_none, List.append_nil]
    exact codePart_of_notMem hcode
  | some comment => exact codePart_append hcode comment

/-- A line that is written with a byte on it, or none, holds it. -/
theorem WrittenLine.holds_content (l : WrittenLine) : Holds l.content l.byte := by
  have hcode := l.codePart_content
  unfold numeral at hcode
  cases hbyte : l.byte with
  | none =>
    rw [hbyte, Option.elim_none, List.append_nil] at hcode
    refine .nothing ?_
    rw [hcode]
    exact Text.blank_append.mpr ⟨l.blank_indent, l.blank_gap⟩
  | some b =>
    have hword := isByteWord_digits l.width_le b
    rw [hbyte, Option.elim_some] at hcode
    have hbegins : Begins (codePart l.content) (Text.digits 2 l.width b.toNat) := by
      rw [hcode]
      refine ⟨l.indent, l.gap, rfl, l.blank_indent, hword.ne_nil, fun c hc => ?_, fun c hc =>
        l.blank_gap c (List.mem_of_head? hc)⟩
      rcases hword.2 c hc with rfl | rfl <;> decide
    exact .byte hbegins hword (Text.ofDigitChars_digits_two _ _).symm

/-- The line as the reader sees it still holds its byte, with whatever ending it has. -/
theorem WrittenLine.holds_dropReturn_body (l : WrittenLine) : Holds (Text.dropReturn l.body) l.byte := by
  refine l.holds_content.of_codeWord_eq ?_
  rw [codeWord_dropReturn, body]
  split
  · exact codeWord_append_blank blank_return l.content
  · rfl

/-- The text of some lines, the last of which ends with the text. A text that ends in a line feed has an
empty last line. -/
def writtenText (written : List WrittenLine) (last : WrittenLine) : String :=
  String.ofList ((written.map WrittenLine.body).flatMap (· ++ ['\n']) ++ last.content)

/-- The last line is one only if there is anything on it, but nothing is lost if there is not. -/
theorem WrittenLine.exists_held (l : WrittenLine) :
    ∃ held, List.Forall₂ Holds (Text.lines l.content) held ∧
      held.reduceOption = [l].filterMap WrittenLine.byte := by
  have hholds := l.holds_content
  by_cases hempty : l.content = []
  · rw [hempty] at hholds ⊢
    refine ⟨[], .nil, ?_⟩
    cases hbyte : l.byte with
    | none => rw [List.filterMap_cons_none hbyte, List.filterMap_nil, List.reduceOption_nil]
    | some b =>
      rw [hbyte] at hholds
      exact absurd rfl (holds_some.mp hholds).1.ne_nil
  · refine ⟨[l.byte], ?_, rfl⟩
    rw [Text.lines_of_notMem l.notMem_content hempty]
    exact .cons hholds .nil

/-- What is written on the lines is what they hold. -/
theorem exists_held_writtenText (written : List WrittenLine) (last : WrittenLine) :
    ∃ held, List.Forall₂ Holds (Text.lines (writtenText written last).toList) held ∧
      held.reduceOption = (written ++ [last]).filterMap WrittenLine.byte := by
  have hlf : ∀ line ∈ written.map WrittenLine.body, '\n' ∉ line := by
    intro line hline
    obtain ⟨l, -, rfl⟩ := List.mem_map.mp hline
    exact l.notMem_body
  have hlines : Text.lines (writtenText written last).toList
      = written.map (fun l => Text.dropReturn l.body) ++ Text.lines last.content := by
    rw [writtenText, String.toList_ofList, Text.lines_flatMap hlf, List.map_map]
    rfl
  have hwritten : List.Forall₂ Holds (written.map fun l => Text.dropReturn l.body)
      (written.map WrittenLine.byte) := by
    rw [List.forall₂_map_left_iff, List.forall₂_map_right_iff, List.forall₂_same]
    exact fun l _ => l.holds_dropReturn_body
  obtain ⟨held, hlast, hbytes⟩ := last.exists_held
  refine ⟨written.map WrittenLine.byte ++ held, ?_, ?_⟩
  · rw [hlines]
    exact List.rel_append hwritten hlast
  · rw [List.reduceOption_append, hbytes, List.filterMap_append, List.reduceOption,
      List.filterMap_map]
    rfl

/-- **The reader accepts the grammar.** A text is read if all its lines are well-formed, and then for
the bytes that the lines hold, in their order; if they are not, the error is the first line that is not
and its word, and never one of reading the digits. Bytes written a line each, with zeros in front up to
eight digits and whatever white space and comments, are read back. -/
theorem ofSource_grammar :
    (∀ text, (∃ p, ofSource text = .ok p)
      ↔ ∀ line ∈ Text.splitLines text.toList, WellFormed line) ∧
    (∀ text bytes, (∃ p, ofSource text = .ok p ∧ p.bytes = bytes)
      ↔ ∃ held, List.Forall₂ Holds (Text.splitLines text.toList) held ∧ held.reduceOption = bytes) ∧
    (∀ text e, ofSource text = .error e
      ↔ ∃ k word, RefusedAt (Text.splitLines text.toList) k word ∧ e = ⟨k + 1, .notBinary word⟩) ∧
    (∀ text number cause, ofSource text ≠ .error ⟨number, .numeral cause⟩) ∧
    ∀ written last, ∃ p, ofSource (writtenText written last) = .ok p ∧
      p.bytes = (written ++ [last]).filterMap WrittenLine.byte := by
  have hheld : ∀ text bytes, (∃ p, ofSource text = .ok p ∧ p.bytes = bytes)
      ↔ ∃ held, List.Forall₂ Holds (Text.splitLines text.toList) held ∧ held.reduceOption = bytes := by
    intro text bytes
    constructor
    · rintro ⟨p, hp, rfl⟩
      obtain ⟨held, hlines, hbytes⟩ := (ofSource_eq_ok.mp hp).exists_held
      exact ⟨held, hlines, hbytes.symm⟩
    · rintro ⟨held, hlines, rfl⟩
      obtain ⟨p, hp, hbytes⟩ := exists_spells_of_held hlines
      exact ⟨p, ofSource_eq_ok.mpr hp, hbytes⟩
  refine ⟨fun text => ?_, hheld, fun text e => ofSource_eq_error, fun text number cause h => ?_,
    fun written last => ?_⟩
  · simp only [ofSource_eq_ok]
    exact ⟨fun ⟨_, hp⟩ => hp.wellFormed, exists_spells⟩
  · obtain ⟨_, _, -, he⟩ := ofSource_eq_error.mp h
    cases he
  · obtain ⟨held, hlines, hbytes⟩ := exists_held_writtenText written last
    rw [Text.lines_eq_splitLines] at hlines
    exact (hheld _ _).mpr ⟨held, hlines, hbytes⟩

example : ofSource "\t101 five\r\n\n# none\n12\n3" = .error ⟨4, .notBinary ['1', '2']⟩ := by decide

end EightBit.Program
