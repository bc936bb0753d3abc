/-
# EightBit.Proofs.Delivery -- the delivery of an interrupt, read in full

Other modules say of a delivery what they need of it. Here it is read to the last field. Three orders
decide what it leaves: the vector is read before the first push, so a frame that covers the vector table
does not change where control goes; the bit of the interrupt is cleared before the status register is
pushed, so the frame holds it cleared; and each push goes below the one before it, modulo 256, so the
nine cells are distinct for every stack pointer.

Delivery can fail for one reason only, a program counter that does not fit in the byte that is pushed
for it, and this is found out before anything is changed.
-/
import EightBit.Proofs.Draining

namespace EightBit

open RegisterIndex (named)

namespace Machine

/-! ## The cells of a frame -/

/-- The nine cells below the stack pointer `sp`, the one just below it first. -/
def frameCells (sp : UInt8) : List UInt8 :=
  [sp - 1, sp - 2, sp - 3, sp - 4, sp - 5, sp - 6, sp - 7, sp - 8, sp - 9]

theorem frameCells_eq (sp : UInt8) : frameCells sp = (List.range 9).map (below sp) := by
  have hbelow : ∀ k, below sp k = sp - UInt8.ofNat (k + 1) := by
    intro k
    rw [below, UInt8.ofNat_add, sub_sub, add_comm]
    rfl
  simp only [List.range_succ_eq_map, List.range_zero, List.map_cons, List.map_nil, hbelow]
  rfl

theorem mem_frameCells {sp a : UInt8} : a ∈ frameCells sp ↔ ∃ k < 9, a = below sp k := by
  simp [frameCells_eq, eq_comm]

/-- Nine cells in a row are nine cells: the way round memory is longer than that. -/
theorem nodup_frameCells (sp : UInt8) : (frameCells sp).Nodup := by
  rw [frameCells_eq]
  apply List.Nodup.map_on _ List.nodup_range
  intro j hj k hk h
  rw [List.mem_range] at hj hk
  -- a cell is at one depth only
  rw [← depth_below sp (show j < 256 by omega), h, depth_below sp (by omega)]

/-- From the old stack pointer down, the cells hold what the delivery has pushed, in its order. -/
theorem map_frameCells_dispatched (m : Machine) (n : Fin 8) :
    (frameCells m.regs.sp).map (m.dispatched n).mem.cell = m.frame n := by
  rw [frameCells_eq, List.map_map]
  apply List.ext_getElem?
  intro k
  by_cases hk : k < 9
  · rw [dispatched_below hk]
    simp [hk]
  · rw [List.getElem?_eq_none, List.getElem?_eq_none] <;> simp [length_frame] <;> omega

/-! ## The delivery -/

/-- The machine `m'` is `m` after the delivery of interrupt `n`, down to the last field. -/
structure Delivered (n : Fin 8) (m m' : Machine) : Prop where
  /-- Control goes to what the vector held before the delivery. -/
  counter : m'.regs.pc = (m.mem.cell (vectorBase + UInt8.ofNat n)).toNat
  interrupts : m'.regs.interruptsEnabled = false
  /-- Of the interrupts that had been raised, this one is no longer. -/
  status (k : Fin 8) : Raised m' k ↔ Raised m k ∧ k ≠ n
  sp : m'.regs.sp = m.regs.sp - 9
  distinct : (frameCells m.regs.sp).Nodup
  /-- The frame, from the old stack pointer down. -/
  frame : (frameCells m.regs.sp).map m'.mem.cell =
    [UInt8.ofNat m.regs.pc, m.regs.fl.toByte,
      m.regs.get 0, m.regs.get 1, m.regs.get 2, m.regs.get 3, m.regs.get 4, m.regs.get 5,
      m'.regs.get interruptStatus]
  cell {a : UInt8} (ha : a ∉ frameCells m.regs.sp) : m'.mem.cell a = m.mem.cell a
  register {i : RegisterIndex} (his : i ≠ interruptStatus) (hsp : i ≠ stackPointer) :
    m'.regs.get i = m.regs.get i
  flags : m'.regs.fl = m.regs.fl
  instruction : m'.regs.ir = m.regs.ir
  cycles : m'.cycles = m.cycles
  phase : m'.phase = m.phase
  config : m'.config = m.config
  /-- The vector is what has been read last. -/
  latch : m'.mem.mdr = m.mem.cell (vectorBase + UInt8.ofNat n)

theorem delivered_dispatched (m : Machine) (n : Fin 8) : Delivered n m (m.dispatched n) where
  counter := m.dispatched_pc n
  interrupts := rfl
  status k := by
    rw [Raised, dispatched_get m n (by decide), if_pos rfl, testBit_clear, Bool.and_eq_true,
      decide_eq_true_iff, Raised]
  sp := m.dispatched_sp n
  distinct := nodup_frameCells _
  frame := by
    rw [map_frameCells_dispatched, dispatched_get m n (by decide), if_pos rfl]
    rfl
  cell {a} ha := by
    apply dispatched_cell_of_ne
    intro k hk hka
    exact ha (mem_frameCells.mpr ⟨k, hk, hka⟩)
  register his hsp := by rw [dispatched_get m n hsp, if_neg his.symm]
  flags := rfl
  instruction := rfl
  cycles := rfl
  phase := rfl
  config := rfl
  latch := rfl

/-- **Delivery.** With interrupts on and some interrupt raised and not masked, it is the lowest of them
that is delivered. If the program counter has the address of a cell, the machine is left as `Delivered`
says, and control is where the vector pointed before anything was pushed. If not, the delivery fails for
that address, and the cycle that has tried it ends at once with the machine it began with. -/
theorem delivery (m : Machine) (hon : m.regs.interruptsEnabled = true)
    (hdue : m.regs.get interruptMask &&& m.regs.get interruptStatus ≠ 0) :
    ∃ n, IsLowestBit n (m.regs.get interruptMask &&& m.regs.get interruptStatus)
      ∧ (m.regs.pc ≤ 255 → ∃ m',
          m.takeInterrupt = .ok (some ⟨n, m.regs.pc, m.vector n⟩, m') ∧ Delivered n m m')
      ∧ (255 < m.regs.pc →
          m.takeInterrupt = .error (.memory ⟨m.regs.pc⟩)
          ∧ m.cycle = (⟨none, none, .error (.memory ⟨m.regs.pc⟩)⟩, m)) := by
  have hsome : m.pendingInterrupt? ≠ none := by
    rw [ne_eq, pendingInterrupt?_eq_none_iff, hon]
    simp [hdue]
  obtain ⟨n, hn⟩ := Option.ne_none_iff_exists'.mp hsome
  refine ⟨n, (pendingInterrupt?_eq_some_iff.mp hn).2, ?_, ?_⟩
  · intro hpc
    refine ⟨m.dispatched n, ?_, m.delivered_dispatched n⟩
    simp only [takeInterrupt, hn, dispatch_of_le hpc]
    rfl
  · intro hpc
    -- the counter comes first: not even the vector has been read
    have hfail := takeInterrupt_of_lt hn hpc
    refine ⟨hfail, ?_⟩
    simp only [cycle, hfail]

/-- A machine with an empty stack at address zero, so that the frame covers the whole vector table.
Interrupts 3 and 5 are due; the vector of 3 points to the last cell, which the frame covers as well. -/
def overVectors : Machine :=
  { powerOn {} with
    regs :=
      { (((Registers.powerOn.set interruptMask 0x28).set interruptStatus 0x2A).setSp 0).set
        (named 2) 7 with
        pc := 0x20
        fl := Flags.ofCompare 1 2 }
    mem := (Memory.blank.setCell 0xFB 0xFF).setCell 0xFF Opcode.iret.byte }

/-- The frame has put the program counter in the last cell and register 2 in the vector, and control
is at the last cell all the same. -/
theorem delivery_overVectors :
    ∃ m', overVectors.takeInterrupt = .ok (some ⟨3, 0x20, 0xFF⟩, m') ∧ Delivered 3 overVectors m'
      ∧ m'.regs.pc = 0xFF ∧ m'.mem.cell 0xFF = 0x20 ∧ m'.mem.cell 0xFB = 7
      ∧ ¬ Raised m' 3 ∧ Raised m' 5 := by
  obtain ⟨n, hlow, hin, -⟩ := delivery overVectors rfl (by decide)
  obtain ⟨m', htake, hdelivered⟩ := hin (by decide)
  have hthree : lowestBit? (0x28 &&& 0x2A) = some 3 := by decide
  obtain rfl : 3 = n := Option.some.inj (hthree.symm.trans (lowestBit?_eq_some_iff.mpr hlow))
  have hfirst : m'.mem.cell 0xFF = 0x20 :=
    Option.some.inj (congrArg (·[0]?) hdelivered.frame)
  have hfifth : m'.mem.cell 0xFB = 7 :=
    Option.some.inj (congrArg (·[4]?) hdelivered.frame)
  refine ⟨m', htake, hdelivered, hdelivered.counter, hfirst, hfifth, ?_, ?_⟩
  · simp [hdelivered.status]
  · rw [hdelivered.status]
    decide

end Machine

end EightBit
