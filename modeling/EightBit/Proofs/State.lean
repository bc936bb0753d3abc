/-
# EightBit.Proofs.State -- a machine is what can be read off it

Two register files with the same eight values and the same internal registers are the same, and so
are two memories with the same cells and the same latch. Every fact about a machine after some
operation is therefore a fact about what can be read off it.

The second half is about the stack. Pushing a list of bytes leaves the `k`-th of them at `k + 1`
below the old stack pointer and nothing else changed, **for every stack pointer**: the distance below
it is taken modulo 256, so a stack that goes below address zero needs no case of its own.
-/
import EightBit.Machine.Cycle
import Mathlib

namespace EightBit

/-! ## Readings determine the state -/

theorem Registers.ext_get {r s : Registers} (hget : ∀ i, r.get i = s.get i) (hpc : r.pc = s.pc)
    (hir : r.ir = s.ir) (hfl : r.fl = s.fl)
    (hie : r.interruptsEnabled = s.interruptsEnabled) : r = s := by
  obtain ⟨gp, pc, ir, fl, ie⟩ := r
  obtain ⟨gp', pc', ir', fl', ie'⟩ := s
  obtain rfl : gp = gp' := Vector.ext fun i hi => hget ⟨i, hi⟩
  obtain rfl : pc = pc' := hpc
  obtain rfl : ir = ir' := hir
  obtain rfl : fl = fl' := hfl
  obtain rfl : ie = ie' := hie
  rfl

theorem Memory.ext_cell {m n : Memory} (hcell : ∀ a, m.cell a = n.cell a) (hmdr : m.mdr = n.mdr) :
    m = n := by
  obtain ⟨cells, mdr⟩ := m
  obtain ⟨cells', mdr'⟩ := n
  obtain rfl : mdr = mdr' := hmdr
  have hcells : cells = cells' := Vector.ext fun i hi => by
    have h := hcell (UInt8.ofNat i)
    simpa only [Memory.cell, UInt8.toNat_ofNat_of_lt' hi] using h
  rw [hcells]

theorem Machine.ext_view {m n : Machine} (hget : ∀ i, m.regs.get i = n.regs.get i)
    (hpc : m.regs.pc = n.regs.pc) (hir : m.regs.ir = n.regs.ir) (hfl : m.regs.fl = n.regs.fl)
    (hie : m.regs.interruptsEnabled = n.regs.interruptsEnabled)
    (hcell : ∀ a, m.mem.cell a = n.mem.cell a) (hmdr : m.mem.mdr = n.mem.mdr)
    (hphase : m.phase = n.phase) (hcycles : m.cycles = n.cycles) (hconfig : m.config = n.config) :
    m = n := by
  obtain ⟨regs, mem, phase, cycles, config⟩ := m
  obtain ⟨regs', mem', phase', cycles', config'⟩ := n
  obtain rfl : regs = regs' := Registers.ext_get hget hpc hir hfl hie
  obtain rfl : mem = mem' := Memory.ext_cell hcell hmdr
  obtain rfl : phase = phase' := hphase
  obtain rfl : cycles = cycles' := hcycles
  obtain rfl : config = config' := hconfig
  rfl

/-! ## Checked reads -/

theorem Memory.read_of_lt (m : Memory) {a : Nat} (ha : a < 256) :
    m.read a = .ok (m.cell (UInt8.ofNat a), m.latch (UInt8.ofNat a)) := by
  simp only [Memory.read, dif_pos ha, Memory.latch, Memory.cell, UInt8.toNat_ofNat_of_lt' ha]

theorem Memory.read_of_ge (m : Memory) {a : Nat} (ha : 256 ≤ a) : m.read a = .error ⟨a⟩ :=
  dif_neg (Nat.not_lt.mpr ha)

theorem Memory.peek_of_lt (m : Memory) {a : Nat} (ha : a < 256) :
    m.peek a = .ok (m.cell (UInt8.ofNat a)) := by
  simp only [Memory.peek, dif_pos ha, Memory.cell, UInt8.toNat_ofNat_of_lt' ha]

theorem Memory.peek_of_ge (m : Memory) {a : Nat} (ha : 256 ≤ a) : m.peek a = .error ⟨a⟩ :=
  dif_neg (Nat.not_lt.mpr ha)

/-! ## The stack -/

namespace Machine

@[simp] theorem push_cell (m : Machine) (v a : UInt8) :
    (m.push v).mem.cell a = if m.regs.sp - 1 = a then v else m.mem.cell a :=
  Memory.cell_setCell ..

@[simp] theorem push_sp (m : Machine) (v : UInt8) : (m.push v).regs.sp = m.regs.sp - 1 :=
  (Registers.get_set ..).trans (if_pos rfl)

theorem push_get (m : Machine) (v : UInt8) {i : RegisterIndex} (hi : i ≠ stackPointer) :
    (m.push v).regs.get i = m.regs.get i :=
  (Registers.get_set ..).trans (if_neg hi.symm)

@[simp] theorem pop_sp (m : Machine) : m.pop.2.regs.sp = m.regs.sp + 1 :=
  (Registers.get_set ..).trans (if_pos rfl)

theorem pop_get (m : Machine) {i : RegisterIndex} (hi : i ≠ stackPointer) :
    m.pop.2.regs.get i = m.regs.get i :=
  (Registers.get_set ..).trans (if_neg hi.symm)

/-- The machine after pushing the bytes of a list in turn. -/
def pushAll (m : Machine) (bytes : List UInt8) : Machine := bytes.foldl push m

/-- How far an address lies below the stack pointer `sp`, the cell just below it counting zero. -/
def depth (sp a : UInt8) : Nat := (sp - 1 - a).toNat

/-- The `k`-th cell below the stack pointer `sp`, from zero on. -/
def below (sp : UInt8) (k : Nat) : UInt8 := sp - 1 - UInt8.ofNat k

theorem depth_below (sp : UInt8) {k : Nat} (hk : k < 256) : depth sp (below sp k) = k := by
  rw [depth, below, sub_sub_cancel, UInt8.toNat_ofNat_of_lt' hk]

theorem below_depth (sp a : UInt8) : below sp (depth sp a) = a := by
  rw [depth, below, UInt8.ofNat_toNat, sub_sub_cancel]

theorem depth_eq_zero_iff (sp a : UInt8) : depth sp a = 0 ↔ sp - 1 = a := by
  rw [depth, ← UInt8.toNat_zero, UInt8.toNat_inj, sub_eq_zero]

/-- Below a byte that has just been pushed, every depth is one less. -/
theorem depth_sub_one {sp a : UInt8} (h : sp - 1 ≠ a) : depth sp a = depth (sp - 1) a + 1 := by
  rw [ne_eq, ← UInt8.toNat_inj] at h
  simp only [depth, UInt8.toNat_sub, UInt8.toNat_one] at h ⊢
  have hsp := sp.toNat_lt
  have ha := a.toNat_lt
  omega

theorem pushAll_sp (m : Machine) (bytes : List UInt8) :
    (m.pushAll bytes).regs.sp = m.regs.sp - UInt8.ofNat bytes.length := by
  induction bytes generalizing m with
  | nil => exact (sub_zero _).symm
  | cons v vs ih =>
    show ((m.push v).pushAll vs).regs.sp = _
    rw [ih, push_sp, List.length_cons, UInt8.ofNat_add, sub_sub, add_comm]
    rfl

theorem pushAll_get (m : Machine) (bytes : List UInt8) {i : RegisterIndex} (hi : i ≠ stackPointer) :
    (m.pushAll bytes).regs.get i = m.regs.get i := by
  induction bytes generalizing m with
  | nil => rfl
  | cons v vs ih => exact (ih (m.push v)).trans (push_get m v hi)

/-- **What the stack holds.** A cell holds the pushed byte of its depth, or what it held before if
it lies deeper than all of them. -/
theorem pushAll_cell (m : Machine) (bytes : List UInt8) (hlen : bytes.length ≤ 256) (a : UInt8) :
    (m.pushAll bytes).mem.cell a = bytes[depth m.regs.sp a]?.getD (m.mem.cell a) := by
  induction bytes generalizing m with
  | nil => rfl
  | cons v vs ih =>
    rw [List.length_cons] at hlen
    show ((m.push v).pushAll vs).mem.cell a = _
    rw [ih (m.push v) (by omega), push_cell, push_sp]
    by_cases ha : m.regs.sp - 1 = a
    · -- one full turn below the new stack pointer: none of the later bytes reaches it
      have hdeep : depth (m.regs.sp - 1) a = 255 := by
        rw [depth, ← ha, sub_right_comm, sub_self]
        rfl
      rw [if_pos ha, hdeep, (depth_eq_zero_iff ..).mpr ha, List.getElem?_eq_none (by omega)]
      rfl
    · rw [if_neg ha, depth_sub_one ha, List.getElem?_cons_succ]

end Machine

end EightBit
