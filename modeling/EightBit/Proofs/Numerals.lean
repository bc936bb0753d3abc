/-
# EightBit.Proofs.Numerals -- numerals and what they stand for

A numeral is digits and, in front of them, zeros up to its least width. Here the digits are shown to be
digits of their base, and the numeral to stand for the number it was made from: in binary by the reader of
source text and in hexadecimal by `hexValue`, which is what a reader of a listing does.
-/
import EightBit.Text.Numeral
import Mathlib

namespace EightBit.Text

/-! ## The digits of a number -/

theorem exists_digitChar_of_mem_toDigits {base n : Nat} (hbase : 1 < base) {c : Char}
    (h : c ∈ Nat.toDigits base n) : ∃ d < base, c = Nat.digitChar d := by
  induction n using Nat.strong_induction_on with
  | _ n ih =>
    by_cases hn : n < base
    · rw [Nat.toDigits_of_lt_base hn, List.mem_singleton] at h
      exact ⟨n, hn, h⟩
    · rw [Nat.toDigits_of_base_le hbase (not_lt.mp hn), List.mem_append, List.mem_singleton] at h
      rcases h with h | h
      · exact ih (n / base) (Nat.div_lt_self (by omega) hbase) h
      · exact ⟨n % base, Nat.mod_lt n (by omega), h⟩

theorem exists_digitChar_of_mem_digits {base width n : Nat} (hbase : 1 < base) {c : Char}
    (h : c ∈ digits base width n) : ∃ d < base, c = Nat.digitChar d := by
  rw [digits, List.mem_append, List.mem_replicate] at h
  rcases h with ⟨_, rfl⟩ | h
  · exact ⟨0, by omega, rfl⟩
  · exact exists_digitChar_of_mem_toDigits hbase h

/-! ## Binary numerals -/

theorem mem_digits_two {width n : Nat} {c : Char} (h : c ∈ digits 2 width n) : c = '0' ∨ c = '1' := by
  have hdigit : ∀ d < 2, Nat.digitChar d = '0' ∨ Nat.digitChar d = '1' := by decide
  obtain ⟨d, hd, rfl⟩ := exists_digitChar_of_mem_digits Nat.one_lt_two h
  exact hdigit d hd

/-- Zeros in front of a numeral do not change what it stands for. -/
theorem ofDigitChars_digits_two (width n : Nat) : Nat.ofDigitChars 2 (digits 2 width n) 0 = n := by
  rw [digits, Nat.ofDigitChars_append, Nat.ofDigitChars_replicate_zero, Nat.mul_zero,
    Nat.ofDigitChars_toDigits Nat.one_lt_two (by decide)]

theorem isBinaryDigit_iff {c : Char} : isBinaryDigit c = true ↔ c = '0' ∨ c = '1' := by
  rw [isBinaryDigit, Bool.or_eq_true, beq_iff_eq, beq_iff_eq]

theorem toNat_sub_le_one {c : Char} (h : c = '0' ∨ c = '1') : c.toNat - '0'.toNat ≤ 1 := by
  rcases h with rfl | rfl <;> decide

/-- Binary digits are read for their value, so long as there are no more of them than a byte has room
for after what came before. -/
theorem readBits_eq {numeral : List Char} (hdigits : ∀ c ∈ numeral, c = '0' ∨ c = '1') :
    ∀ {value : Nat}, (value + 1) * 2 ^ numeral.length ≤ 256 →
      ∃ byte, readBits value numeral = .ok byte ∧ byte.toNat = Nat.ofDigitChars 2 numeral value := by
  induction numeral with
  | nil =>
    intro value hroom
    refine ⟨UInt8.ofNat value, rfl, ?_⟩
    rw [List.length_nil] at hroom
    rw [UInt8.toNat_ofNat', Nat.ofDigitChars_nil]
    exact Nat.mod_eq_of_lt (by omega)
  | cons c rest ih =>
    intro value hroom
    rw [List.forall_mem_cons] at hdigits
    have hc : c.toNat - '0'.toNat ≤ 1 := toNat_sub_le_one hdigits.1
    -- The digit takes up the place that doubling has made for it.
    have hnext : (2 * value + (c.toNat - '0'.toNat) + 1) * 2 ^ rest.length ≤ 256 := by
      calc (2 * value + (c.toNat - '0'.toNat) + 1) * 2 ^ rest.length
          ≤ (2 * value + 1 + 1) * 2 ^ rest.length := by gcongr
        _ = (value + 1) * 2 ^ (c :: rest).length := by rw [List.length_cons]; ring
        _ ≤ 256 := hroom
    have hfits : 2 * value + (c.toNat - '0'.toNat) < 256 :=
      lt_of_lt_of_le (Nat.lt_succ_self _) (le_trans (Nat.le_mul_of_pos_right _ (by positivity)) hnext)
    obtain ⟨byte, hread, hbyte⟩ := ih hdigits.2 hnext
    refine ⟨byte, ?_, ?_⟩
    · rw [readBits, if_pos (isBinaryDigit_iff.mpr hdigits.1), if_pos hfits, hread]
    · rw [hbyte, Nat.ofDigitChars_cons]

/-! ## Hexadecimal numerals -/

/-- What an upper case hexadecimal digit stands for. -/
def hexDigitValue (c : Char) : Nat :=
  if c ≤ '9' then c.toNat - '0'.toNat else c.toNat - 'A'.toNat + 10

/-- What an upper case hexadecimal numeral stands for, the digits before it having stood for `value`. -/
def hexValue (value : Nat) (numeral : List Char) : Nat :=
  numeral.foldl (fun sofar c => 16 * sofar + hexDigitValue c) value

theorem hexValue_append (value : Nat) (front back : List Char) :
    hexValue value (front ++ back) = hexValue (hexValue value front) back :=
  List.foldl_append

theorem hexDigitValue_digitChar : ∀ d < 16, hexDigitValue (Nat.digitChar d).toUpper = d := by
  decide

theorem hexValue_zeros (width : Nat) : hexValue 0 (List.replicate width '0') = 0 := by
  induction width with
  | zero => rfl
  | succ width ih =>
    rw [List.replicate_succ]
    exact ih

theorem hexValue_toDigits (n : Nat) : hexValue 0 ((Nat.toDigits 16 n).map Char.toUpper) = n := by
  induction n using Nat.strong_induction_on with
  | _ n ih =>
    by_cases hn : n < 16
    · rw [Nat.toDigits_of_lt_base hn]
      show 16 * 0 + hexDigitValue (Nat.digitChar n).toUpper = n
      rw [hexDigitValue_digitChar n hn, Nat.mul_zero, Nat.zero_add]
    · have hfront := ih (n / 16) (by omega)
      rw [Nat.toDigits_of_base_le (by decide) (not_lt.mp hn), List.map_append,
        hexValue_append]
      show 16 * hexValue 0 _ + hexDigitValue (Nat.digitChar (n % 16)).toUpper = n
      rw [hfront, hexDigitValue_digitChar _ (Nat.mod_lt n (by decide)), Nat.div_add_mod]

/-- A hexadecimal numeral stands for the number it shows. -/
theorem hexValue_hex (n : Nat) : hexValue 0 (hex n).toList = n := by
  have hzeros : ∀ width, (List.replicate width '0').map Char.toUpper = List.replicate width '0' :=
    fun width => List.map_replicate
  rw [hex, String.toList_ofList, digits, List.map_append, hzeros, hexValue_append, hexValue_zeros]
  exact hexValue_toDigits n

theorem exists_digitChar_of_mem_hex {n : Nat} {c : Char} (h : c ∈ (hex n).toList) :
    ∃ d < 16, c = (Nat.digitChar d).toUpper := by
  rw [hex, String.toList_ofList, List.mem_map] at h
  obtain ⟨c, hc, rfl⟩ := h
  obtain ⟨d, hd, rfl⟩ := exists_digitChar_of_mem_digits (by decide) hc
  exact ⟨d, hd, rfl⟩

/-- There is no blank in a hexadecimal numeral. -/
theorem blank_notMem_hex (n : Nat) : ' ' ∉ (hex n).toList := by
  have hdigit : ∀ d < 16, (Nat.digitChar d).toUpper ≠ ' ' := by decide
  intro h
  obtain ⟨d, hd, hblank⟩ := exists_digitChar_of_mem_hex h
  exact hdigit d hd hblank.symm

end EightBit.Text
