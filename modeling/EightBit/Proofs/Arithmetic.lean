/-
# EightBit.Proofs.Arithmetic -- the arithmetic unit computes modulo 256

The unit works on bytes. Its values are those of the natural numbers, wrapped once at the end: this is
what `Opcode.arith` spells out, without a case for a shift that is too long and without a borrow. The
only fault of the unit is a division by zero, and a comparison gives exactly one of the three flags.
-/
import EightBit.Proofs.InstructionTable

namespace EightBit

namespace AluOp

/-- A left shift is a product, also by eight or more, where it has moved every bit out of the
byte. -/
theorem shl_eq (x y : UInt8) :
    (if y < 8 then x <<< y else 0) = UInt8.ofNat (x.toNat * 2 ^ y.toNat) := by
  rw [← UInt8.toNat_inj, UInt8.toNat_ofNat']
  by_cases hy : y < 8
  · have hy' : y.toNat < 8 := UInt8.lt_iff_toNat_lt.mp hy
    rw [if_pos hy, UInt8.toNat_shiftLeft, Nat.mod_eq_of_lt hy', Nat.shiftLeft_eq]
  · -- the product is a multiple of 256, so wrapping it gives the zero of the long shift
    have hy' : 8 ≤ y.toNat := Nat.not_lt.mp fun h => hy (UInt8.lt_iff_toNat_lt.mpr h)
    have hdvd : 2 ^ 8 ∣ x.toNat * 2 ^ y.toNat := Dvd.dvd.mul_left (pow_dvd_pow 2 hy') _
    rw [if_neg hy, Nat.mod_eq_zero_of_dvd hdvd]
    rfl

theorem shr_eq (x y : UInt8) :
    (if y < 8 then x >>> y else 0) = UInt8.ofNat (x.toNat / 2 ^ y.toNat) := by
  have hx := x.toNat_lt
  have hlt : x.toNat / 2 ^ y.toNat < 2 ^ 8 := Nat.lt_of_le_of_lt (Nat.div_le_self _ _) hx
  rw [← UInt8.toNat_inj, UInt8.toNat_ofNat', Nat.mod_eq_of_lt hlt]
  by_cases hy : y < 8
  · have hy' : y.toNat < 8 := UInt8.lt_iff_toNat_lt.mp hy
    rw [if_pos hy, UInt8.toNat_shiftRight, Nat.mod_eq_of_lt hy', Nat.shiftRight_eq_div_pow]
  · have hy' : 8 ≤ y.toNat := Nat.not_lt.mp fun h => hy (UInt8.lt_iff_toNat_lt.mpr h)
    have hpow : 2 ^ 8 ≤ 2 ^ y.toNat := Nat.pow_le_pow_right (by decide) hy'
    rw [if_neg hy, Nat.div_eq_of_lt (Nat.lt_of_lt_of_le hx hpow)]
    rfl

theorem sub_eq (x y : UInt8) : x - y = UInt8.ofNat (256 + x.toNat - y.toNat) := by
  have hy := y.toNat_lt
  rw [← UInt8.toNat_inj, UInt8.toNat_ofNat', UInt8.toNat_sub]
  omega

theorem dec_eq (x : UInt8) : x - 1 = UInt8.ofNat (x.toNat + 255) := by
  rw [← UInt8.toNat_inj, UInt8.toNat_ofNat', UInt8.toNat_sub, UInt8.toNat_one]
  omega

theorem not_eq (x : UInt8) : ~~~x = UInt8.ofNat (255 - x.toNat) := by
  have hx := x.toNat_lt
  rw [← UInt8.toNat_inj, UInt8.toNat_ofNat', UInt8.toNat_not, UInt8.size]
  omega

/-- **The values of the unit.** Every operation but the comparison gives the value in the table,
wrapped; the quotients do so for a divisor that is not zero. -/
theorem apply_eq_arith {op : Opcode} {o : AluOp} (hop : op.action = .alu o) (hcmp : op ≠ .cmp)
    (x y : UInt8) (hy : op = .div ∨ op = .mod → y ≠ 0) :
    o.apply x (if o.isBinary then y else 0)
      = .ok (.value (UInt8.ofNat (op.arith x.toNat y.toNat))) := by
  have hx := x.toNat_lt
  have hy' := y.toNat_lt
  cases op
  case cmp => exact absurd rfl hcmp
  all_goals cases hop
  all_goals simp only [apply, isBinary, Opcode.arith, if_true]
  -- what is left is that wrapping commutes with each operation
  case add => rw [UInt8.ofNat_add, UInt8.ofNat_toNat, UInt8.ofNat_toNat]
  case sub => rw [sub_eq]
  case mul => rw [UInt8.ofNat_mul, UInt8.ofNat_toNat, UInt8.ofNat_toNat]
  case div =>
    rw [if_neg (hy (.inl rfl)), UInt8.ofNat_div hx hy', UInt8.ofNat_toNat, UInt8.ofNat_toNat]
  case mod =>
    rw [if_neg (hy (.inr rfl)), UInt8.ofNat_mod hx hy', UInt8.ofNat_toNat, UInt8.ofNat_toNat]
  case inc => rw [UInt8.ofNat_add, UInt8.ofNat_toNat]; rfl
  case dec => rw [dec_eq]
  case and => rw [UInt8.ofNat_and, UInt8.ofNat_toNat, UInt8.ofNat_toNat]
  case not => rw [not_eq]
  case or => rw [UInt8.ofNat_or, UInt8.ofNat_toNat, UInt8.ofNat_toNat]
  case xor => rw [UInt8.ofNat_xor, UInt8.ofNat_toNat, UInt8.ofNat_toNat]
  case shl => rw [shl_eq]
  case shr => rw [shr_eq]

/-- A comparison raises exactly the flag of the order in which its operands stand. -/
theorem apply_cmp (x y : UInt8) :
    cmp.apply x y
      = .ok (.flags ⟨x.toNat = y.toNat, y.toNat < x.toNat, x.toNat < y.toNat⟩) := by
  simp only [apply, Flags.ofCompare, UInt8.toNat_inj, ← UInt8.lt_iff_toNat_lt]
  rfl

theorem apply_zero {o : AluOp} (ho : o = .div ∨ o = .mod) (x : UInt8) :
    o.apply x 0 = .error .divisionByZero := by
  rcases ho with rfl | rfl <;> rfl

end AluOp

end EightBit
