/-
# EightBit.Proofs.LastRead -- what a cycle leaves in the latches

A cycle reads memory several times, and each read replaces the last: the vector of a delivered interrupt,
the opcode, the bytes after it as far as they exist, and what the instruction loads itself. Which of them is
in the latch at the end depends on how far the cycle has come. All that comes before the fetch is
overwritten by it. Nothing is read while an instruction is decoded and checked, so whatever a cycle refuses
after the fetch it refuses with the last fetched byte in the latch. Only four instructions load from memory,
and the byte that each of them loads last can be found again in what it has written.

A program counter past memory stops the cycle before any of these reads, that of the vector included.
-/
import EightBit.Proofs.Faults
import EightBit.Proofs.Steps

namespace EightBit

open RegisterIndex (named)

/-- The instructions that load from memory. -/
def Opcode.loading : List Opcode := [.ld, .pop, .ret, .iret]

/-- The row of any other instruction reads no cell. -/
theorem Opcode.effect_latch_eq_none {op : Opcode} (h : op ∉ loading) (a b : UInt8) (m : Machine) :
    (op.effect a b m).latch = none := by
  cases op
  case ld | pop | ret | iret => exact absurd (by decide) h
  all_goals rfl

namespace Machine

variable {m : Machine}

/-- The byte that a fetch from `q` reads last: two places further on, or the last there is. -/
def lastFetched (m : Machine) (q : Nat) : UInt8 := m.mem.cell (UInt8.ofNat (min (q + 2) 255))

/-- The latches of `m'` are those of a cycle that has fetched from `q`, in the memory of the machine `x`
at which its instruction starts. The instruction that it has executed is `op`, if it has executed one. -/
structure Latched (q : Nat) (x : Machine) (op : Option Opcode) (m' : Machine) : Prop where
  /-- The instruction register holds the byte that was fetched. -/
  instruction : m'.regs.ir = x.mem.cell (UInt8.ofNat q)
  /-- If nothing has been loaded since the fetch, the last byte that it has read is still there. -/
  fetched (hop : ∀ o ∈ Opcode.loading, op ≠ some o) : m'.mem.mdr = x.lastFetched q
  /-- `LD` leaves the byte that it has loaded, which is now in its first register. -/
  loaded (hop : op = some .ld) :
    m'.mem.mdr = x.mem.cell (x.regs.get (named (x.operand 2)))
      ∧ m'.regs.get (named (x.operand 1)) = m'.mem.mdr
  /-- `POP` leaves the byte that it has popped, which is now in its register. -/
  popped (hop : op = some .pop) :
    m'.mem.mdr = x.mem.cell x.regs.sp ∧ m'.regs.get (named (x.operand 1)) = m'.mem.mdr
  /-- `RET` leaves the byte that it has popped, which is where control has gone. -/
  returned (hop : op = some .ret) :
    m'.mem.mdr = x.mem.cell x.regs.sp ∧ m'.regs.pc = m'.mem.mdr.toNat
  /-- `IRET` leaves the last of the nine bytes that it has popped, which is where control has gone. -/
  resumed (hop : op = some .iret) :
    m'.mem.mdr = x.mem.cell (x.regs.sp + 8) ∧ m'.regs.pc = m'.mem.mdr.toNat

/-- A cycle starts its instruction where it fetches. -/
theorem start_pc (hm : m.isHalted = false) (hpc : m.regs.pc ≤ 255) :
    m.start.regs.pc = m.fetchAddress := by
  rw [← entry_eq_start hm, entry_pc hpc]

/-- A cycle that comes as far as the fetch and executes nothing leaves what the fetch has left, whether it
passes over a byte or fails. -/
theorem latches_of_not_executed (hm : m.isHalted = false) (hpc : m.regs.pc ≤ 255)
    (hop : m.executed? = none) :
    m.step.2.regs.ir = m.start.fetched.regs.ir ∧ m.step.2.mem.mdr = m.start.fetched.mem.mdr := by
  have hcycle := step_cycle hm
  rw [executed?] at hop
  rw [← entry_eq_start hm]
  generalize m.step.2 = m' at hcycle
  generalize m.step.1 = r at hop hcycle
  cases hcycle with
  | outside hout => exact absurd hpc (Nat.not_le.mpr hout)
  | refused | passed => exact ⟨rfl, rfl⟩
  | executed => cases hop

/-- A cycle that executes an instruction leaves what the fetch has left, unless the row of the instruction
says what it loads. -/
theorem latches_of_executed {op : Opcode} (hop : m.executed? = some op) :
    m.step.2.regs.ir = m.start.fetched.regs.ir
      ∧ m.step.2.mem.mdr = (m.start.effectOf op).latch.getD m.start.fetched.mem.mdr := by
  obtain ⟨-, -, -, hstep⟩ := step_of_executed hop
  rw [hstep]
  exact ⟨rfl, rfl⟩

/-- What the step of an instruction leaves in a register is what its row says. -/
theorem step_get_of_executed {op : Opcode} (hop : m.executed? = some op) {i : RegisterIndex}
    {v : UInt8} (hrow : (m.start.effectOf op).registers i = some v) : m.step.2.regs.get i = v := by
  obtain ⟨-, -, -, hstep⟩ := step_of_executed hop
  rw [hstep, Effect.apply_get, hrow, Option.getD_some]

/-- An instruction whose row says where control goes has gone there. -/
theorem step_pc_of_executed {op : Opcode} (hop : m.executed? = some op) {v : UInt8}
    (hrow : (m.start.effectOf op).target = some v) : m.step.2.regs.pc = v.toNat := by
  obtain ⟨-, -, -, hstep⟩ := step_of_executed hop
  rw [hstep]
  show (m.start.effectOf op).target.elim _ UInt8.toNat = v.toNat
  rw [hrow, Option.elim_some]

/-- A cycle that comes as far as the fetch leaves the latches of that fetch and of what its instruction has
loaded. -/
theorem latched_step (hm : m.isHalted = false) (hpc : m.regs.pc ≤ 255) :
    Latched m.fetchAddress m.start m.executed? m.step.2 := by
  have hq : m.start.regs.pc = m.fetchAddress := start_pc hm hpc
  -- what the latch holds after one of the four that load, as its row says
  have hload {op : Opcode} {v : UInt8} (hop : m.executed? = some op)
      (hrow : (m.start.effectOf op).latch = some v) : m.step.2.mem.mdr = v := by
    rw [(latches_of_executed hop).2, hrow, Option.getD_some]
  refine ⟨?_, ?_, ?_, ?_, ?_, ?_⟩
  · rw [← hq]
    cases hop : m.executed? with
    | none => exact (latches_of_not_executed hm hpc hop).1
    | some op => exact (latches_of_executed hop).1
  · intro hop
    rw [← hq]
    cases hexecuted : m.executed? with
    | none => exact (latches_of_not_executed hm hpc hexecuted).2
    | some op =>
      have hnone : op ∉ Opcode.loading := fun hmem => hop op hmem hexecuted
      rw [(latches_of_executed hexecuted).2, effectOf, Opcode.effect_latch_eq_none hnone]
      rfl
  · intro hop
    have hmdr := hload hop rfl
    exact ⟨hmdr, (step_get_of_executed hop (if_pos rfl)).trans hmdr.symm⟩
  · intro hop
    have hmdr := hload hop rfl
    exact ⟨hmdr, (step_get_of_executed hop (if_pos rfl)).trans hmdr.symm⟩
  · intro hop
    have hmdr := hload hop rfl
    exact ⟨hmdr, (step_pc_of_executed hop rfl).trans (congrArg UInt8.toNat hmdr.symm)⟩
  · intro hop
    have hmdr := hload hop rfl
    exact ⟨hmdr, (step_pc_of_executed hop rfl).trans (congrArg UInt8.toNat hmdr.symm)⟩

/-- **The latches after a cycle.** With the program counter past memory, a step of a machine that has not
halted leaves both latches alone. Else the instruction register holds the byte at the address that is
fetched from, in memory as a delivery leaves it, and the latch of the last read holds the last byte of that
fetch, unless an instruction that loads has been executed. So a step that fails after the fetch leaves the
last byte of the fetch, whatever it fails for. -/
theorem latches_after_step (hm : m.isHalted = false) :
    (255 < m.regs.pc → m.step.2.mem.mdr = m.mem.mdr ∧ m.step.2.regs.ir = m.regs.ir)
    ∧ (m.regs.pc ≤ 255 →
        Latched m.fetchAddress m.start m.executed? m.step.2
        ∧ ∀ f, m.step.1 = .error f → m.step.2.mem.mdr = m.start.lastFetched m.fetchAddress) := by
  constructor
  · intro hpc
    rw [step_of_lt hm hpc]
    exact ⟨rfl, rfl⟩
  · intro hpc
    have hlatched := latched_step hm hpc
    refine ⟨hlatched, ?_⟩
    intro f hf
    have hnone : m.executed? = none := by rw [executed?, hf]
    apply hlatched.fetched
    intro op _
    rw [hnone]
    exact (Option.some_ne_none op).symm

/-- A machine at the address that reads as an `LD`, with interrupt 0 due and the stack at address zero. The
delivery pushes the program counter into the last cell, which is where the vector points. -/
def returnAddressAsCode : Machine :=
  { powerOn {} with
    regs :=
      { ((Registers.powerOn.set interruptMask 1).set interruptStatus 1).setSp 0 with
        pc := Opcode.ld.byte.toNat }
    mem := Memory.blank.setCell vectorBase 0xFF }

/-- A machine that returns from an interrupt, with a frame that wraps around the end of memory. -/
def resuming : Machine :=
  { powerOn {} with
    regs := { Registers.powerOn.setSp 0xFA with pc := 0xFF }
    mem := (Memory.blank.setCell 0xFF Opcode.iret.byte).setCell 0x02 0x40 }

/-- The pushed program counter is fetched as an `LD` without operands, and there is nothing after it. The
return reads the nine bytes of its frame after the fetch. -/
theorem latches_after_step_atTop :
    returnAddressAsCode.step.1 = .error (.memory ⟨256⟩)
      ∧ returnAddressAsCode.step.2.regs.ir = Opcode.ld.byte
      ∧ returnAddressAsCode.step.2.mem.mdr = Opcode.ld.byte
      ∧ resuming.step.2.regs.ir = Opcode.iret.byte
      ∧ resuming.step.2.mem.mdr = 0x40 ∧ resuming.step.2.regs.pc = 0x40 := by
  have hfault : returnAddressAsCode.step.1 = .error (.memory ⟨256⟩) := by decide +kernel
  have hiret : resuming.executed? = some .iret := by decide +kernel
  obtain ⟨hlatched, hfailed⟩ :=
    (latches_after_step (m := returnAddressAsCode) rfl).2 (by decide)
  obtain ⟨hresumed, -⟩ := (latches_after_step (m := resuming) rfl).2 (by decide)
  obtain ⟨hmdr, hpc⟩ := hresumed.resumed hiret
  have hback : resuming.step.2.mem.mdr = 0x40 := hmdr.trans (by decide +kernel)
  refine ⟨hfault, ?_, ?_, ?_, hback, ?_⟩
  · exact hlatched.instruction.trans (by decide +kernel)
  · exact (hfailed _ hfault).trans (by decide +kernel)
  · exact hresumed.instruction.trans (by decide +kernel)
  · rw [hpc, hback]
    rfl

end Machine

end EightBit
