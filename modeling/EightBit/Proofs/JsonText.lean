/-
# EightBit.Proofs.JsonText -- the grammar of JSON, and the tokens of what it derives

The grammar of JSON is written down here without the reader: spaces, strings with every way to spell a
character, numbers, and values of any depth. It is about characters alone. Beside each of its parts stands
what the reader makes of it: the first token of a text, and then the tokens of what follows. A text is
always followed by another here, since what is read next is decided by what has been read so far and the
first character that comes after it.

The reader has no token for a number with a sign, a fraction or an exponent. A text with such a number in it
has no token list, whatever stands around it.
-/
import EightBit.Configuration.Document
import Mathlib

namespace EightBit

namespace JsonText

/-! ## Spaces -/

/-- What may stand between tokens. -/
structure Spaces where
  text : List Char
  space : ∀ c ∈ text, c ∈ [' ', '\t', '\n', '\r']

/-! ## Strings -/

/-- The hexadecimal digits, in both cases, with what they stand for. -/
def hexDigits : List (Char × Nat) :=
  [('0', 0), ('1', 1), ('2', 2), ('3', 3), ('4', 4), ('5', 5), ('6', 6), ('7', 7), ('8', 8), ('9', 9),
   ('a', 10), ('b', 11), ('c', 12), ('d', 13), ('e', 14), ('f', 15),
   ('A', 10), ('B', 11), ('C', 12), ('D', 13), ('E', 14), ('F', 15)]

/-- The letters that may stand after a backslash, each with the character that it then stands for. -/
def letterEscapes : List (Char × Char) :=
  [('"', '"'), ('\\', '\\'), ('/', '/'), ('b', '\x08'), ('f', '\x0C'), ('n', '\n'), ('r', '\r'),
   ('t', '\t')]

/-- Four hexadecimal digits and the 16-bit unit that they spell. -/
inductive SpellsUnit : List Char → Nat → Prop
  | mk {a b c d : Char} {w x y z : Nat} (ha : (a, w) ∈ hexDigits) (hb : (b, x) ∈ hexDigits)
      (hc : (c, y) ∈ hexDigits) (hd : (d, z) ∈ hexDigits) :
      SpellsUnit [a, b, c, d] (((w * 16 + x) * 16 + y) * 16 + z)

/-- The ways to spell a character between quotes. -/
inductive SpellsChar : List Char → Char → Prop
  /-- Itself, if it is no quote, no backslash and no control character. -/
  | plain {c : Char} (hquote : c ≠ '"') (hback : c ≠ '\\') (hcontrol : 0x20 ≤ c.toNat) :
      SpellsChar [c] c
  | letter {l c : Char} (h : (l, c) ∈ letterEscapes) : SpellsChar ['\\', l] c
  /-- By its number, if that is a single unit. -/
  | unit {digits : List Char} {n : Nat} (h : SpellsUnit digits n) (hn : n < 0xD800 ∨ 0xDFFF < n) :
      SpellsChar ('\\' :: 'u' :: digits) (Char.ofNat n)
  /-- By the two halves of a surrogate pair. -/
  | pair {highDigits lowDigits : List Char} {high low : Nat} (hhigh : SpellsUnit highDigits high)
      (hlow : SpellsUnit lowDigits low) (hhigh' : 0xD800 ≤ high ∧ high ≤ 0xDBFF)
      (hlow' : 0xDC00 ≤ low ∧ low ≤ 0xDFFF) :
      SpellsChar ('\\' :: 'u' :: highDigits ++ '\\' :: 'u' :: lowDigits)
        (Char.ofNat (0x10000 + (high - 0xD800) * 0x400 + (low - 0xDC00)))

/-- The ways to spell a string between quotes. -/
inductive Spells : List Char → List Char → Prop
  | nil : Spells [] []
  | cons {word rest : List Char} {c : Char} {cs : List Char} (h : SpellsChar word c)
      (hrest : Spells rest cs) : Spells (word ++ rest) (c :: cs)

/-- A string without quotes, backslashes and control characters spells itself. -/
theorem Spells.plain {name : List Char}
    (h : ∀ c ∈ name, c ≠ '"' ∧ c ≠ '\\' ∧ 0x20 ≤ c.toNat) : Spells name name := by
  induction name with
  | nil => exact .nil
  | cons c cs ih =>
    rw [List.forall_mem_cons] at h
    obtain ⟨⟨hquote, hback, hcontrol⟩, hcs⟩ := h
    exact .cons (.plain hquote hback hcontrol) (ih hcs)

/-! ## Numbers -/

/-- Decimal digits, and at least one. -/
def IsDigits (text : List Char) : Prop := text ≠ [] ∧ ∀ c ∈ text, c.isDigit = true

/-- A number without sign, fraction and exponent: a zero, or digits that do not begin with a zero. -/
structure IsInteger (text : List Char) : Prop where
  digits : IsDigits text
  leading : text.head? = some '0' → text = ['0']

/-- Only zero is written with a zero in front. -/
theorem eq_zero_of_head?_toDigits {n : Nat} (h : (Nat.toDigits 10 n).head? = some '0') : n = 0 := by
  induction n using Nat.strong_induction_on with
  | _ n ih =>
    rcases Nat.lt_or_ge n 10 with hn | hn
    · rw [Nat.toDigits_of_lt_base hn, List.head?_cons] at h
      have hzero : ∀ d < 10, Nat.digitChar d = '0' → d = 0 := by decide
      exact hzero n hn (Option.some.inj h)
    · rw [Nat.toDigits_of_base_le (by decide) hn,
        List.head?_append_of_ne_nil _ Nat.toDigits_ne_nil] at h
      have := ih (n / 10) (by omega) h
      omega

theorem isInteger_toDigits (n : Nat) : IsInteger (Nat.toDigits 10 n) where
  digits := ⟨Nat.toDigits_ne_nil, fun _ h => Nat.isDigit_of_mem_toDigits (by decide) le_rfl h⟩
  leading h := by rw [eq_zero_of_head?_toDigits h]; rfl

/-- The fraction of a number, or none. -/
inductive IsFraction : List Char → Prop
  | absent : IsFraction []
  | digits {ds : List Char} (h : IsDigits ds) : IsFraction ('.' :: ds)

/-- The exponent of a number, or none. -/
inductive IsExponent : List Char → Prop
  | absent : IsExponent []
  | digits {e : Char} {sign ds : List Char} (he : e ∈ ['e', 'E']) (hsign : sign ∈ [[], ['+'], ['-']])
      (h : IsDigits ds) : IsExponent (e :: (sign ++ ds))

/-- The texts of numbers. -/
inductive IsNumber : List Char → Prop
  | mk {sign integer fraction exponent : List Char} (hsign : sign ∈ [[], ['-']])
      (hinteger : IsInteger integer) (hfraction : IsFraction fraction)
      (hexponent : IsExponent exponent) : IsNumber (sign ++ integer ++ fraction ++ exponent)

/-! ## Values -/

/-- The four places in a member at which spaces may stand. -/
structure Gaps where
  beforeKey : Spaces
  afterKey : Spaces
  beforeValue : Spaces
  afterValue : Spaces

/-- A member of an object, from what stands between the quotes of its key and its value. -/
def memberText (gaps : Gaps) (key value : List Char) : List Char :=
  gaps.beforeKey.text ++ '"' :: (key ++ '"' :: (gaps.afterKey.text ++ ':' ::
    (gaps.beforeValue.text ++ (value ++ gaps.afterValue.text))))

mutual

/-- The texts of values. -/
inductive IsValue : List Char → Prop
  | null : IsValue "null".toList
  | bool (b : Bool) : IsValue (toString b).toList
  | number {text : List Char} (h : IsNumber text) : IsValue text
  | string {key name : List Char} (h : Spells key name) : IsValue ('"' :: (key ++ ['"']))
  | emptyList (inside : Spaces) : IsValue ('[' :: (inside.text ++ [']']))
  | list {items : List Char} (h : IsItems items) : IsValue ('[' :: (items ++ [']']))
  | emptyObject (inside : Spaces) : IsValue ('\x7b' :: (inside.text ++ ['\x7d']))
  | object {members : List Char} (h : IsMembers members) : IsValue ('\x7b' :: (members ++ ['\x7d']))

/-- The texts of one value or more, with commas between them. -/
inductive IsItems : List Char → Prop
  | last {value : List Char} (before after : Spaces) (h : IsValue value) :
      IsItems (before.text ++ value ++ after.text)
  | more {value items : List Char} (before after : Spaces) (h : IsValue value) (hitems : IsItems items) :
      IsItems (before.text ++ value ++ after.text ++ ',' :: items)

/-- The texts of one member or more, with commas between them. -/
inductive IsMembers : List Char → Prop
  | last {key name value : List Char} (gaps : Gaps) (hkey : Spells key name) (h : IsValue value) :
      IsMembers (memberText gaps key value)
  | more {key name value members : List Char} (gaps : Gaps) (hkey : Spells key name) (h : IsValue value)
      (hmembers : IsMembers members) : IsMembers (memberText gaps key value ++ ',' :: members)

end

end JsonText

open JsonText

namespace Token

/-! ## One token after the other -/

/-- The tokens of a text are its first token, after the spaces, and the tokens of what follows it. -/
theorem list?_eq (text : List Char) :
    list? text = match text.dropWhile isSpace with
      | [] => some []
      | c :: rest =>
        (next? (c :: rest)).bind fun (token, after) => (list? after).map (token :: ·) := by
  rw [list?]
  cases htext : text.dropWhile isSpace with
  | nil => rfl
  | cons c rest =>
    cases hnext : next? (c :: rest) with
    | none => simp only [hnext, Option.bind_none]
    | some p =>
      obtain ⟨token, after⟩ := p
      have hlt : after.length < text.length := next?_dropWhile_length (htext ▸ hnext)
      simp only [hnext, dif_pos hlt, Option.bind_some]

theorem isSpace_iff {c : Char} : isSpace c = true ↔ c ∈ [' ', '\t', '\n', '\r'] := by
  simp [isSpace, or_assoc]

theorem list?_spaces (w : Spaces) (text : List Char) : list? (w.text ++ text) = list? text := by
  have hspace : ∀ c ∈ w.text, isSpace c = true := fun c hc => isSpace_iff.mpr (w.space c hc)
  rw [list?_eq, list?_eq text, List.dropWhile_append_of_pos hspace]

/-- There are no tokens in spaces. -/
theorem list?_of_spaces (w : Spaces) : list? w.text = some [] := by
  rw [← List.append_nil w.text, list?_spaces, list?_eq]
  rfl

/-- A text that does not begin with a space begins with its first token. -/
theorem list?_cons {c : Char} (hc : isSpace c = false) (rest : List Char) :
    list? (c :: rest)
      = (next? (c :: rest)).bind fun (token, after) => (list? after).map (token :: ·) := by
  rw [list?_eq, List.dropWhile_cons_of_neg (ne_true_of_eq_false hc)]

theorem list?_of_next {c : Char} {rest after : List Char} {t : Token} (hc : isSpace c = false)
    (h : next? (c :: rest) = some (t, after)) :
    list? (c :: rest) = (list? after).map (t :: ·) := by
  rw [list?_cons hc, h, Option.bind_some]

/-! ## Punctuation and words -/

theorem list?_punctuation {c : Char} {t : Token} (h : ofPunctuation? c = some t) (rest : List Char) :
    list? (c :: rest) = (list? rest).map (t :: ·) := by
  have hc : isSpace c = false := by
    cases hspace : isSpace c with
    | false => rfl
    | true =>
      have hnone : ∀ c ∈ [' ', '\t', '\n', '\r'], ofPunctuation? c = none := by
        simp [ofPunctuation?]
      rw [hnone c (isSpace_iff.mp hspace)] at h
      cases h
  apply list?_of_next hc
  simp only [next?, h]

/-- What begins with a punctuation mark has its token in front, if it has tokens. -/
theorem exists_of_punctuation {c : Char} {t : Token} {rest : List Char} {ts : List Token}
    (h : ofPunctuation? c = some t) (hts : list? (c :: rest) = some ts) :
    ∃ after, list? rest = some after ∧ t :: after = ts := by
  rw [list?_punctuation h] at hts
  exact Option.map_eq_some_iff.mp hts

/-- A brace that only spaces follow is the last token. -/
theorem list?_lastBrace (after : Spaces) : list? ('\x7d' :: after.text) = some [.closeBrace] := by
  rw [list?_punctuation (t := .closeBrace) rfl, list?_of_spaces]
  rfl

theorem list?_null (rest : List Char) :
    list? ("null".toList ++ rest) = (list? rest).map (.null :: ·) :=
  list?_of_next rfl rfl

theorem list?_bool (b : Bool) (rest : List Char) :
    list? ((toString b).toList ++ rest) = (list? rest).map (.bool b :: ·) := by
  cases b <;> exact list?_of_next rfl rfl

/-- A word begins with a letter that no other token begins with. -/
theorem ofWord?_eq_none {c : Char} (h : c ∉ ['t', 'f', 'n']) (rest : List Char) :
    ofWord? (c :: rest) = none := by
  simp only [List.mem_cons, List.not_mem_nil, or_false, not_or] at h
  simp [ofWord?, words, Ne.symm h.1, Ne.symm h.2.1, Ne.symm h.2.2]

/-! ## Strings -/

theorem hexDigit?_of_mem {c : Char} {n : Nat} (h : (c, n) ∈ hexDigits) : hexDigit? c = some n := by
  have hall : ∀ p ∈ hexDigits, hexDigit? p.1 = some p.2 := by decide
  exact hall _ h

theorem unit?_of_spells {digits : List Char} {n : Nat} (h : SpellsUnit digits n) (rest : List Char) :
    unit? (digits ++ rest) = some (n, rest) := by
  obtain ⟨ha, hb, hc, hd⟩ := h
  simp only [List.cons_append, List.nil_append, unit?, hexDigit?_of_mem ha, hexDigit?_of_mem hb,
    hexDigit?_of_mem hc, hexDigit?_of_mem hd]
  rfl

theorem numberedEscape?_of_unit {digits : List Char} {n : Nat} (h : SpellsUnit digits n)
    (hn : n < 0xD800 ∨ 0xDFFF < n) (rest : List Char) :
    numberedEscape? (digits ++ rest) = some (Char.ofNat n, rest) := by
  rw [numberedEscape?, unit?_of_spells h]
  exact if_pos hn

theorem numberedEscape?_of_pair {highDigits lowDigits : List Char} {high low : Nat}
    (hhigh : SpellsUnit highDigits high) (hlow : SpellsUnit lowDigits low)
    (hhigh' : 0xD800 ≤ high ∧ high ≤ 0xDBFF) (hlow' : 0xDC00 ≤ low ∧ low ≤ 0xDFFF)
    (rest : List Char) :
    numberedEscape? (highDigits ++ '\\' :: 'u' :: (lowDigits ++ rest))
      = some (Char.ofNat (0x10000 + (high - 0xD800) * 0x400 + (low - 0xDC00)), rest) := by
  have hsurrogate : ¬ (high < 0xD800 ∨ 0xDFFF < high) := by omega
  have hfirst : ¬ 0xDC00 ≤ high := by omega
  rw [numberedEscape?, unit?_of_spells hhigh]
  simp only [bind, Option.bind_some, if_neg hsurrogate, if_neg hfirst, unit?_of_spells hlow,
    if_pos hlow']
  rfl

/-- Reading goes on after an escape. -/
theorem stringBody?_escape {rest after : List Char} {c : Char} (h : escape? rest = some (c, after)) :
    stringBody? ('\\' :: rest) = (stringBody? after).map fun (cs, last) => (c :: cs, last) := by
  have hback : ('\\' : Char) ≠ '"' := by decide
  rw [stringBody?]
  simp only [if_neg hback, if_true, h, dif_pos (escape?_length h)]

/-- However a character is spelled, it is the first of the string. -/
theorem stringBody?_spellsChar {word : List Char} {c : Char} (h : SpellsChar word c)
    (rest : List Char) :
    stringBody? (word ++ rest) = (stringBody? rest).map fun (cs, last) => (c :: cs, last) := by
  cases h with
  | plain hquote hback hcontrol =>
    rw [List.singleton_append, stringBody?, if_neg hquote, if_neg hback,
      if_neg (Nat.not_lt.mpr hcontrol)]
  | @letter l _ h =>
    have hletter : ∀ p ∈ letterEscapes, p.1 ≠ 'u' ∧ letterEscape? p.1 = some p.2 := by decide
    obtain ⟨hu, hl⟩ := hletter _ h
    refine stringBody?_escape ?_
    show escape? (l :: rest) = _
    rw [escape?, if_neg hu, hl]
    rfl
  | @unit digits _ h hn =>
    refine stringBody?_escape ?_
    show escape? ('u' :: (digits ++ rest)) = _
    rw [escape?, if_pos rfl]
    exact numberedEscape?_of_unit h hn rest
  | @pair highDigits lowDigits _ _ hhigh hlow hhigh' hlow' =>
    rw [List.append_assoc]
    refine stringBody?_escape ?_
    show escape? ('u' :: (highDigits ++ '\\' :: 'u' :: (lowDigits ++ rest))) = _
    rw [escape?, if_pos rfl]
    exact numberedEscape?_of_pair hhigh hlow hhigh' hlow' rest

/-- A string is read for what it spells, and up to its closing quote. -/
theorem stringBody?_spells {key name : List Char} (h : Spells key name) (rest : List Char) :
    stringBody? (key ++ '"' :: rest) = some (name, rest) := by
  induction h with
  | nil =>
    rw [List.nil_append, stringBody?, if_pos rfl]
  | cons h _ ih =>
    rw [List.append_assoc, stringBody?_spellsChar h, ih]
    rfl

theorem list?_string {key name : List Char} (h : Spells key name) (rest : List Char) :
    list? ('"' :: (key ++ '"' :: rest))
      = (list? rest).map (.string (String.ofList name) :: ·) := by
  have hpunctuation : ofPunctuation? '"' = none := rfl
  apply list?_of_next rfl
  simp only [next?, hpunctuation, if_true, stringBody?_spells h]
  rfl

/-! ## Numbers -/

/-- What follows a number ends it. -/
def EndsNumber (rest : List Char) : Prop := ∀ c ∈ rest.head?, c.isDigit = false

theorem decimalValue_eq (digits : List Char) : decimalValue digits = Nat.ofDigitChars 10 digits 0 := by
  rw [Nat.ofDigitChars_eq_foldl, decimalValue]
  congr 1
  funext value c
  rw [Nat.mul_comm]

theorem ofDigits?_of_isInteger {digits : List Char} (h : IsInteger digits) :
    ofDigits? digits = some (.number (Nat.ofDigitChars 10 digits 0)) := by
  have hzero : ¬ (digits.head? = some '0' ∧ 1 < digits.length) := by
    rintro ⟨hhead, hlen⟩
    rw [h.leading hhead] at hlen
    exact absurd hlen (by decide)
  rw [ofDigits?, if_neg hzero, decimalValue_eq]

theorem span_digits {digits rest : List Char} (h : ∀ c ∈ digits, c.isDigit = true)
    (hrest : EndsNumber rest) :
    (digits ++ rest).takeWhile Char.isDigit = digits
      ∧ (digits ++ rest).dropWhile Char.isDigit = rest := by
  rw [List.takeWhile_append_of_pos h, List.dropWhile_append_of_pos h]
  cases rest with
  | nil => exact ⟨List.append_nil _, rfl⟩
  | cons c rest =>
    have hc : ¬ c.isDigit = true := ne_true_of_eq_false (hrest c rfl)
    rw [List.takeWhile_cons_of_neg hc, List.dropWhile_cons_of_neg hc]
    exact ⟨List.append_nil _, rfl⟩

theorem isDigit_ne {c d : Char} (hc : c.isDigit = true) (hd : d.isDigit = false) : c ≠ d := by
  rintro rfl
  rw [hc] at hd
  cases hd

theorem ofPunctuation?_of_isDigit {c : Char} (h : c.isDigit = true) : ofPunctuation? c = none := by
  unfold ofPunctuation?
  split
  case h_7 => rfl
  all_goals cases h

/-- A number without sign, fraction and exponent is read for what it stands for in decimal. -/
theorem list?_integer {digits rest : List Char} (h : IsInteger digits) (hrest : EndsNumber rest) :
    list? (digits ++ rest) = (list? rest).map (.number (Nat.ofDigitChars 10 digits 0) :: ·) := by
  obtain ⟨hne, hdigits⟩ := h.digits
  obtain ⟨c, more, rfl⟩ := List.exists_cons_of_ne_nil hne
  rw [List.forall_mem_cons] at hdigits
  obtain ⟨htake, hdrop⟩ := span_digits hdigits.2 hrest
  have hspace : isSpace c = false := by
    simp only [isSpace, Bool.or_eq_false_iff, beq_eq_false_iff_ne]
    exact ⟨⟨⟨isDigit_ne hdigits.1 rfl, isDigit_ne hdigits.1 rfl⟩, isDigit_ne hdigits.1 rfl⟩,
      isDigit_ne hdigits.1 rfl⟩
  have hquote : c ≠ '"' := isDigit_ne hdigits.1 rfl
  rw [List.cons_append]
  apply list?_of_next hspace
  simp only [next?, ofPunctuation?_of_isDigit hdigits.1, if_neg hquote, if_pos hdigits.1, htake,
    hdrop, ofDigits?_of_isInteger h]
  rfl

/-- A sign, a point or an exponent is no token, nor does one begin with it. -/
theorem list?_eq_none {c : Char} (h : c ∈ ['-', '.', 'e', 'E']) (rest : List Char) :
    list? (c :: rest) = none := by
  have hall : ∀ c ∈ ['-', '.', 'e', 'E'], isSpace c = false ∧ ofPunctuation? c = none ∧ c ≠ '"'
      ∧ c.isDigit = false ∧ c ∉ ['t', 'f', 'n'] := by simp [isSpace, ofPunctuation?]
  obtain ⟨hspace, hpunctuation, hquote, hdigit, hword⟩ := hall c h
  rw [list?_cons hspace]
  simp only [next?, hpunctuation, if_neg hquote, hdigit, Bool.false_eq_true, if_false,
    ofWord?_eq_none hword, Option.bind_none]

/-- A number with tokens is one without sign, fraction and exponent. -/
theorem isInteger_of_isNumber {text rest : List Char} {ts : List Token} (h : IsNumber text)
    (hts : list? (text ++ rest) = some ts) : IsInteger text := by
  obtain @⟨sign, integer, fraction, exponent, hsign, hinteger, hfraction, hexponent⟩ := h
  have hnosign : sign = [] := by
    rw [List.mem_cons, List.mem_singleton] at hsign
    rcases hsign with rfl | rfl
    · rfl
    · rw [List.append_assoc, List.append_assoc, List.append_assoc, List.singleton_append,
        list?_eq_none (by decide)] at hts
      cases hts
  subst hnosign
  rw [List.nil_append, List.append_assoc, List.append_assoc] at hts
  -- the digits are a token on their own, and what stands after them is none
  cases hfraction with
  | digits hd =>
    rw [list?_integer hinteger (by rintro c ⟨⟩; rfl), List.cons_append, list?_eq_none (by decide)] at hts
    cases hts
  | absent =>
    cases hexponent with
    | absent => rwa [List.nil_append, List.append_nil, List.append_nil]
    | @digits e expSign ds he =>
      have hdigit : ∀ c ∈ ['e', 'E'], c.isDigit = false := by simp
      have hmem : e ∈ ['-', '.', 'e', 'E'] := List.mem_cons_of_mem _ (List.mem_cons_of_mem _ he)
      have hends : EndsNumber (e :: (expSign ++ ds) ++ rest) := by
        rintro c ⟨⟩
        exact hdigit e he
      rw [List.nil_append, list?_integer hinteger hends, List.cons_append, list?_eq_none hmem] at hts
      cases hts

/-! ## Members -/

/-- A member begins with two tokens, its name and a colon; then comes its value. -/
theorem list?_memberText {key name : List Char} (h : Spells key name) (gaps : Gaps)
    (value rest : List Char) :
    list? (memberText gaps key value ++ rest)
      = (list? (value ++ (gaps.afterValue.text ++ rest))).map fun ts =>
          .string (String.ofList name) :: .colon :: ts := by
  simp only [memberText, List.append_assoc, List.cons_append]
  rw [list?_spaces, list?_string h, list?_spaces, list?_punctuation (t := .colon) rfl, list?_spaces,
    Option.map_map]
  rfl

/-- After a value come spaces and then no digit, so that a number ends with it. -/
theorem EndsNumber.spaces {rest : List Char} (h : EndsNumber rest) (w : Spaces) :
    EndsNumber (w.text ++ rest) := by
  obtain ⟨text, hspace⟩ := w
  cases text with
  | nil => exact h
  | cons c text =>
    have hdigit : ∀ c ∈ [' ', '\t', '\n', '\r'], c.isDigit = false := by simp
    rintro d ⟨⟩
    exact hdigit c (hspace c (.head _))

end Token

end EightBit
