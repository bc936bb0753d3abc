/-
# EightBit.Proofs.Source -- the grammar of source text

What a source text may be is a matter of its lines one by one. Of each line only what stands before the
first `#` counts, and of that only the first word: either there is none, and the line holds no byte, or
it is one to eight binary digits, and the line holds the byte they are the numeral of. `Holds` says this
without the reader, and `Spells` puts the lines together; the reader accepts exactly what is spelled, and
an error is the first line that is not.

The check of a word stands before the reading of its digits, and after it nothing can go wrong: eight
binary digits do not make a number too large for a byte, so no error is ever the numeral's.
-/
import EightBit.Program
import EightBit.Proofs.Lines
import EightBit.Proofs.Numerals
import EightBit.Proofs.Words

namespace EightBit

open Text (Blank Begins)

namespace Program

/-! ## What a line holds -/

/-- The part of a line that is not comment. -/
def codePart (line : List Char) : List Char :=
  line.takeWhile (· != '#')

/-- A word that is a byte: one to eight binary digits. -/
def IsByteWord (word : List Char) : Prop :=
  (1 ≤ word.length ∧ word.length ≤ 8) ∧ ∀ c ∈ word, c = '0' ∨ c = '1'

/-- A line may hold no word before its comment, or one that is a byte and whatever may follow it. -/
def WellFormed (line : List Char) : Prop :=
  Blank (codePart line) ∨ ∃ word, Begins (codePart line) word ∧ IsByteWord word

/-- What a line holds: nothing, if there is no word before its comment, or the byte that the first
word there is the numeral of. -/
inductive Holds (line : List Char) : Option UInt8 → Prop
  | nothing : Blank (codePart line) → Holds line none
  | byte {word : List Char} {b : UInt8} : Begins (codePart line) word → IsByteWord word →
      b.toNat = Nat.ofDigitChars 2 word 0 → Holds line (some b)

theorem codeWord_eq (line : List Char) : codeWord line = Text.firstWord (codePart line) :=
  rfl

theorem blank_codePart {line : List Char} : Blank (codePart line) ↔ codeWord line = [] :=
  Text.firstWord_eq_nil.symm

theorem IsByteWord.ne_nil {word : List Char} (h : IsByteWord word) : word ≠ [] :=
  List.ne_nil_of_length_pos h.1.1

/-- On binary digits, counting bytes of text is counting characters. -/
theorem utf8ByteSize_of_digits {word : List Char} (h : ∀ c ∈ word, c = '0' ∨ c = '1') :
    (String.ofList word).utf8ByteSize = word.length := by
  rw [String.utf8ByteSize_ofList]
  induction word with
  | nil => rfl
  | cons c word ih =>
    rw [List.forall_mem_cons] at h
    have hc : c.utf8Size = 1 := by rcases h.1 with rfl | rfl <;> rfl
    rw [String.utf8Len_cons, ih h.2, hc, List.length_cons]

theorem byteOfWord_of_isByteWord {word : List Char} (h : IsByteWord word) :
    ∃ b, byteOfWord word = .ok b ∧ b.toNat = Nat.ofDigitChars 2 word 0 := by
  have hcheck : ((String.ofList word).utf8ByteSize ≤ 8 && word.all Text.isBinaryDigit) = true := by
    rw [Bool.and_eq_true, decide_eq_true_eq, List.all_eq_true, utf8ByteSize_of_digits h.2]
    exact ⟨h.1.2, fun c hc => Text.isBinaryDigit_iff.mpr (h.2 c hc)⟩
  have hroom : (0 + 1) * 2 ^ word.length ≤ 256 := by
    rw [zero_add, one_mul]
    exact Nat.pow_le_pow_right two_pos h.1.2
  obtain ⟨b, hread, hb⟩ := Text.readBits_eq h.2 hroom
  have hbinary : Text.readBinary word = Text.readBits 0 word := by
    obtain ⟨c, rest, rfl⟩ := List.exists_cons_of_ne_nil h.ne_nil
    -- A plus sign would be passed over here, but it is no digit.
    have hc : c ≠ '+' := by rcases h.2 c List.mem_cons_self with rfl | rfl <;> decide
    rw [Text.readBinary]
    · exact List.cons_ne_nil _ _
    · rintro d tail ⟨⟩
      exact hc rfl
  refine ⟨b, ?_, hb⟩
  rw [byteOfWord, if_pos hcheck, hbinary, hread]
  rfl

/-- A word that is no byte is refused by the check, before its digits are read. -/
theorem byteOfWord_of_not_isByteWord {word : List Char} (hne : word ≠ []) (h : ¬ IsByteWord word) :
    byteOfWord word = .error (.notBinary word) := by
  refine if_neg fun hcheck => h ?_
  rw [Bool.and_eq_true, decide_eq_true_eq, List.all_eq_true] at hcheck
  have hdigits : ∀ c ∈ word, c = '0' ∨ c = '1' := fun c hc =>
    Text.isBinaryDigit_iff.mp (hcheck.2 c hc)
  rw [utf8ByteSize_of_digits hdigits] at hcheck
  exact ⟨⟨List.length_pos_of_ne_nil hne, hcheck.1⟩, hdigits⟩

theorem holds_none {line : List Char} : Holds line none ↔ codeWord line = [] := by
  rw [← blank_codePart]
  exact ⟨fun h => by cases h with | nothing h => exact h, .nothing⟩

theorem holds_some {line : List Char} {b : UInt8} :
    Holds line (some b)
      ↔ IsByteWord (codeWord line) ∧ b.toNat = Nat.ofDigitChars 2 (codeWord line) 0 := by
  constructor
  · intro h
    cases h with
    | byte hbegins hword hb =>
      rw [codeWord_eq, hbegins.firstWord_eq]
      exact ⟨hword, hb⟩
  · rintro ⟨hword, hb⟩
    exact .byte (Text.begins_iff.mpr ⟨rfl, hword.ne_nil⟩) hword hb

/-- What a line holds depends on its first word before any comment and on nothing else. -/
theorem Holds.of_codeWord_eq {line line' : List Char} (h : codeWord line' = codeWord line) :
    ∀ {held : Option UInt8}, Holds line held → Holds line' held
  | none, hline => holds_none.mpr (h ▸ holds_none.mp hline)
  | some _, hline => holds_some.mpr (h ▸ holds_some.mp hline)

/-- The well-formed lines are those that hold something or nothing. -/
theorem wellFormed_iff {line : List Char} : WellFormed line ↔ ∃ held, Holds line held := by
  constructor
  · rintro (hblank | ⟨word, hbegins, hword⟩)
    · exact ⟨none, .nothing hblank⟩
    · obtain ⟨b, -, hb⟩ := byteOfWord_of_isByteWord hword
      exact ⟨some b, .byte hbegins hword hb⟩
  · rintro ⟨held, hheld⟩
    cases hheld with
    | nothing hblank => exact .inl hblank
    | byte hbegins hword _ => exact .inr ⟨_, hbegins, hword⟩

/-- A line that is not well-formed has a first word, and that is no byte. -/
theorem not_wellFormed_iff {line : List Char} :
    ¬ WellFormed line ↔ ∃ word, Begins (codePart line) word ∧ ¬ IsByteWord word := by
  constructor
  · intro h
    rw [WellFormed, not_or] at h
    have hbegins := Text.begins_firstWord h.1
    exact ⟨_, hbegins, fun hword => h.2 ⟨_, hbegins, hword⟩⟩
  · rintro ⟨word, hbegins, hword⟩ (hblank | ⟨word', hbegins', hword'⟩)
    · exact (Text.begins_iff.mp hbegins).2
        (hbegins.firstWord_eq.symm.trans (Text.firstWord_of_blank hblank))
    · exact hword (hbegins.firstWord_eq.symm.trans hbegins'.firstWord_eq ▸ hword')

/-! ## What a line's word does not depend on -/

theorem notMem_of_blank {text : List Char} (h : Blank text) : '#' ∉ text := fun hmem =>
  absurd (h _ hmem) (by decide)

theorem bne_of_notMem {code : List Char} (h : '#' ∉ code) : ∀ c ∈ code, (c != '#') = true :=
  fun _ hc => bne_iff_ne.mpr fun heq => h (heq ▸ hc)

/-- Where the comment begins does not depend on what is in it. -/
theorem codePart_append {code : List Char} (h : '#' ∉ code) (comment : List Char) :
    codePart (code ++ '#' :: comment) = code := by
  rw [codePart, List.takeWhile_append_of_pos (bne_of_notMem h), List.takeWhile_cons_of_neg (by decide),
    List.append_nil]

theorem codePart_of_notMem {code : List Char} (h : '#' ∉ code) : codePart code = code :=
  List.takeWhile_eq_self_iff.mpr (bne_of_notMem h)

/-- A line split at its first `#`. -/
theorem exists_eq_codePart_append (line : List Char) :
    '#' ∉ codePart line ∧ (line = codePart line ∨ ∃ comment, line = codePart line ++ '#' :: comment) := by
  by_cases hmem : '#' ∈ line
  · obtain ⟨code, comment, hline, hcode⟩ := List.eq_append_cons_of_mem hmem
    rw [hline, codePart_append hcode]
    exact ⟨hcode, .inr ⟨comment, rfl⟩⟩
  · rw [codePart_of_notMem hmem]
    exact ⟨hmem, .inl rfl⟩

/-- White space at the end of a line changes nothing, whether it is part of a comment or not. -/
theorem codeWord_append_blank {gap : List Char} (h : Blank gap) (line : List Char) :
    codeWord (line ++ gap) = codeWord line := by
  obtain ⟨hcode, hline | ⟨comment, hline⟩⟩ := exists_eq_codePart_append line
  · have hgap : codePart (line ++ gap) = line ++ gap := by
      refine codePart_of_notMem ?_
      rw [List.mem_append, not_or]
      exact ⟨hline ▸ hcode, notMem_of_blank h⟩
    rw [codeWord_eq, codeWord_eq, hgap, Text.firstWord_append_blank h, ← hline]
  · rw [codeWord_eq, codeWord_eq, hline, List.append_assoc, List.cons_append, codePart_append hcode,
      codePart_append hcode]

theorem codeWord_blank_append {indent : List Char} (h : Blank indent) (line : List Char) :
    codeWord (indent ++ line) = codeWord line := by
  rw [codeWord_eq, codePart, List.takeWhile_append_of_pos (bne_of_notMem (notMem_of_blank h)),
    Text.firstWord_blank_append h]
  rfl

/-- A line and what is left of it after trimming have the same word on them. -/
theorem codeWord_trim (line : List Char) : codeWord (Text.trim line) = codeWord line := by
  obtain ⟨before, after, hsplit, hbefore, hafter⟩ := Text.exists_eq_append_trim line
  conv_rhs => rw [hsplit, codeWord_append_blank hafter, codeWord_blank_append hbefore]

/-! ## What the lines spell -/

/-- The program that some lines spell: a line that holds nothing adds nothing, one that holds a byte
adds it, with the line as its source line. -/
inductive Spells : List (List Char) → Program → Prop
  | nil : Spells [] empty
  | skip {line : List Char} {rest : List (List Char)} {p : Program} :
      Holds line none → Spells rest p → Spells (line :: rest) p
  | byte {line : List Char} {rest : List (List Char)} {b : UInt8} {p : Program} :
      Holds line (some b) → Spells rest p → Spells (line :: rest) (cons b (Text.trim line) p)

theorem ofLines_skip {line : List Char} (h : Holds line none) (n : Nat) (rest : List (List Char)) :
    ofLines n (line :: rest) = ofLines (n + 1) rest := by
  rw [ofLines, holds_none.mp h]

theorem ofLines_byte {line : List Char} {b : UInt8} (h : Holds line (some b)) (n : Nat)
    (rest : List (List Char)) :
    ofLines n (line :: rest) = (ofLines (n + 1) rest).map (cons b (Text.trim line)) := by
  obtain ⟨hword, hb⟩ := holds_some.mp h
  obtain ⟨b', hread, hb'⟩ := byteOfWord_of_isByteWord hword
  obtain rfl : b' = b := UInt8.toNat_inj.mp (hb'.trans hb.symm)
  obtain ⟨c, word, hcons⟩ := List.exists_cons_of_ne_nil hword.ne_nil
  rw [hcons] at hread
  simp only [ofLines, hcons, hread]

theorem ofLines_refused {line word : List Char} (hbegins : Begins (codePart line) word)
    (hword : ¬ IsByteWord word) (n : Nat) (rest : List (List Char)) :
    ofLines n (line :: rest) = .error ⟨n, .notBinary word⟩ := by
  obtain ⟨hfirst, hne⟩ := Text.begins_iff.mp hbegins
  have hread := byteOfWord_of_not_isByteWord hne hword
  obtain ⟨c, word, rfl⟩ := List.exists_cons_of_ne_nil hne
  rw [← codeWord_eq] at hfirst
  simp only [ofLines, hfirst, hread]

/-- Reading lines gives the program they spell, if they spell one. -/
theorem Spells.ofLines_eq {ls : List (List Char)} {p : Program} (h : Spells ls p) (n : Nat) :
    ofLines n ls = .ok p := by
  induction h generalizing n with
  | nil => rfl
  | skip hline _ ih => rw [ofLines_skip hline, ih]
  | byte hline _ ih => rw [ofLines_byte hline, ih, Except.map]

/-- Well-formed lines spell a program. -/
theorem exists_spells {ls : List (List Char)} (h : ∀ line ∈ ls, WellFormed line) :
    ∃ p, Spells ls p := by
  induction ls with
  | nil => exact ⟨empty, .nil⟩
  | cons line rest ih =>
    rw [List.forall_mem_cons] at h
    obtain ⟨p, hp⟩ := ih h.2
    obtain ⟨held, hline⟩ := wellFormed_iff.mp h.1
    cases held with
    | none => exact ⟨p, .skip hline hp⟩
    | some b => exact ⟨cons b (Text.trim line) p, .byte hline hp⟩

/-- The line with the index `k` is the first that is not well-formed, and `word` is the word on it. -/
def RefusedAt (ls : List (List Char)) (k : Nat) (word : List Char) : Prop :=
  ∃ before line after, ls = before ++ line :: after ∧ before.length = k ∧
    (∀ earlier ∈ before, WellFormed earlier) ∧ Begins (codePart line) word ∧ ¬ IsByteWord word

/-- Lines are all well-formed, or there is a first that is not. -/
theorem wellFormed_or_refusedAt (ls : List (List Char)) :
    (∀ line ∈ ls, WellFormed line) ∨ ∃ k word, RefusedAt ls k word := by
  induction ls with
  | nil => exact .inl (List.forall_mem_nil _)
  | cons line rest ih =>
    by_cases hline : WellFormed line
    · rcases ih with hrest | ⟨_, word, before, bad, after, rfl, rfl, hbefore, hbad⟩
      · exact .inl (List.forall_mem_cons.mpr ⟨hline, hrest⟩)
      · exact .inr ⟨_, word, line :: before, bad, after, rfl, rfl,
          List.forall_mem_cons.mpr ⟨hline, hbefore⟩, hbad⟩
    · obtain ⟨word, hbad⟩ := not_wellFormed_iff.mp hline
      exact .inr ⟨0, word, [], line, rest, rfl, rfl, List.forall_mem_nil _, hbad⟩

/-- The first line that is not well-formed is the error, whatever follows it. -/
theorem RefusedAt.ofLines_eq {ls : List (List Char)} {k : Nat} {word : List Char}
    (h : RefusedAt ls k word) (n : Nat) : ofLines n ls = .error ⟨n + k, .notBinary word⟩ := by
  obtain ⟨before, line, after, rfl, rfl, hbefore, hbegins, hword⟩ := h
  induction before generalizing n with
  | nil => exact ofLines_refused hbegins hword n after
  | cons first before ih =>
    rw [List.forall_mem_cons] at hbefore
    obtain ⟨held, hfirst⟩ := wellFormed_iff.mp hbefore.1
    have hrest : ofLines (n + 1) (before ++ line :: after)
        = .error ⟨n + (first :: before).length, .notBinary word⟩ := by
      rw [ih (n + 1) hbefore.2, List.length_cons, Nat.add_right_comm, Nat.add_assoc]
    cases held with
    | none => rw [List.cons_append, ofLines_skip hfirst, hrest]
    | some b => rw [List.cons_append, ofLines_byte hfirst, hrest, Except.map]

/-- Reading lines succeeds on what they spell and on nothing else. -/
theorem ofLines_eq_ok {n : Nat} {ls : List (List Char)} {p : Program} :
    ofLines n ls = .ok p ↔ Spells ls p := by
  refine ⟨fun h => ?_, fun h => h.ofLines_eq n⟩
  rcases wellFormed_or_refusedAt ls with hls | ⟨k, word, hrefused⟩
  · obtain ⟨q, hq⟩ := exists_spells hls
    obtain rfl : q = p := Except.ok.inj ((hq.ofLines_eq n).symm.trans h)
    exact hq
  · cases (hrefused.ofLines_eq n).symm.trans h

theorem Spells.wellFormed {ls : List (List Char)} {p : Program} (h : Spells ls p) :
    ∀ line ∈ ls, WellFormed line := by
  induction h with
  | nil => exact List.forall_mem_nil _
  | skip hline _ ih => exact List.forall_mem_cons.mpr ⟨wellFormed_iff.mpr ⟨_, hline⟩, ih⟩
  | byte hline _ ih => exact List.forall_mem_cons.mpr ⟨wellFormed_iff.mpr ⟨_, hline⟩, ih⟩

/-- The bytes of the program are what the lines hold, in their order. -/
theorem Spells.exists_held {ls : List (List Char)} {p : Program} (h : Spells ls p) :
    ∃ held, List.Forall₂ Holds ls held ∧ p.bytes = held.reduceOption := by
  induction h with
  | nil => exact ⟨[], .nil, rfl⟩
  | skip hline _ ih =>
    obtain ⟨held, hheld, hbytes⟩ := ih
    exact ⟨none :: held, .cons hline hheld, hbytes⟩
  | @byte _ _ b _ hline _ ih =>
    obtain ⟨held, hheld, hbytes⟩ := ih
    refine ⟨some b :: held, .cons hline hheld, ?_⟩
    rw [List.reduceOption_cons_of_some, ← hbytes]
    rfl

theorem exists_spells_of_held {ls : List (List Char)} {held : List (Option UInt8)}
    (h : List.Forall₂ Holds ls held) : ∃ p, Spells ls p ∧ p.bytes = held.reduceOption := by
  induction h with
  | nil => exact ⟨empty, .nil, rfl⟩
  | @cons line x ls held hline _ ih =>
    obtain ⟨p, hp, hbytes⟩ := ih
    cases x with
    | none => exact ⟨p, .skip hline hp, hbytes⟩
    | some b =>
      refine ⟨cons b (Text.trim line) p, .byte hline hp, ?_⟩
      rw [List.reduceOption_cons_of_some, ← hbytes]
      rfl

theorem ofSource_eq_ok {text : String} {p : Program} :
    ofSource text = .ok p ↔ Spells (Text.splitLines text.toList) p := by
  rw [ofSource, Text.lines_eq_splitLines, ofLines_eq_ok]

theorem ofSource_eq_error {text : String} {e : SourceError} :
    ofSource text = .error e
      ↔ ∃ k word, RefusedAt (Text.splitLines text.toList) k word ∧ e = ⟨k + 1, .notBinary word⟩ := by
  rw [ofSource, Text.lines_eq_splitLines]
  constructor
  · intro h
    rcases wellFormed_or_refusedAt (Text.splitLines text.toList) with hls | ⟨k, word, hrefused⟩
    · obtain ⟨p, hp⟩ := exists_spells hls
      cases (hp.ofLines_eq 1).symm.trans h
    · rw [hrefused.ofLines_eq 1, Nat.add_comm] at h
      exact ⟨k, word, hrefused, (Except.error.inj h).symm⟩
  · rintro ⟨k, word, hrefused, rfl⟩
    rw [hrefused.ofLines_eq 1, Nat.add_comm]

end Program

end EightBit
