/-
# EightBit.Proofs.Faults -- when a step fails, and what a failed step leaves

Two questions about the error path, answered for every machine that has not halted. **When**: `fault?`
computes the fault of a step from the machine before it, in the order in which the step checks, and a
step fails with this fault or succeeds. **What is left**: a step fails as if its instruction had not
started. Of the machine after the delivery of an interrupt, if one was delivered, or else of the
machine before the step, nothing has changed but that it is halted and what the fetch has read.

Both rest on the four ways of a cycle: two of them fail, and neither has written anything.
-/
import EightBit.Proofs.Cycle

namespace EightBit

namespace Machine

/-! ## When a step fails -/

/-- The address a cycle fetches from: where the vector of the interrupt that is due points, or else
the program counter. -/
def fetchAddress (m : Machine) : Nat :=
  match m.pendingInterrupt? with
  | some n => (m.mem.cell (vectorBase + UInt8.ofNat n)).toNat
  | none => m.regs.pc

/-- The fault of a step. A program counter past memory comes before everything else; all that follows
is checked at the address fetched from, with the memory and the registers that a dispatch leaves. -/
def fault? (m : Machine) : Option Fault :=
  if 255 < m.regs.pc then some (.memory ⟨m.regs.pc⟩)
  else
    let q := m.fetchAddress
    let byte (k : Nat) := m.entry.mem.cell (UInt8.ofNat (q + k))
    match Opcode.ofByte? (byte 0) with
    | none => if m.config.strict then some (.invalidInstruction (byte 0) q) else none
    | some op =>
      if m.config.profile.implements op = false then some (.unimplemented op q)
      else if 255 < q + op.declaredArity then some (.memory ⟨256⟩)
      else op.refusal (byte 1) (byte 2) m.entry

variable {m : Machine}

theorem entry_pc (hpc : m.regs.pc ≤ 255) : m.entry.regs.pc = m.fetchAddress := by
  cases h : m.pendingInterrupt? with
  | none => rw [entry_of_none h, fetchAddress, h]
  | some n => rw [entry_of_pending h hpc, dispatched_pc, fetchAddress, h]

theorem fault?_of_lt (hpc : 255 < m.regs.pc) : m.fault? = some (.memory ⟨m.regs.pc⟩) :=
  if_pos hpc

/-- In memory, the fault of a step is what the instruction that it starts with refuses. -/
theorem fault?_of_le (hpc : m.regs.pc ≤ 255) : m.fault? = m.entry.refusal := by
  rw [fault?, if_neg (Nat.not_lt.mpr hpc), ← entry_pc hpc, ← entry_config]
  rfl

/-- **Exact fault conditions.** A step of a machine that has not halted fails with the fault that
`fault?` computes, and succeeds if there is none. -/
theorem step_error_iff_fault (h : m.isHalted = false) :
    (∀ f, m.step.1 = .error f ↔ m.fault? = some f)
      ∧ ((∃ s, m.step.1 = .ok s) ↔ m.fault? = none) := by
  have hcycle := step_cycle h
  generalize m.step.2 = m' at hcycle
  generalize m.step.1 = result at hcycle ⊢
  cases hcycle with
  | outside hpc => simp [fault?_of_lt hpc]
  | refused hpc hf => simp [fault?_of_le hpc, hf]
  | passed hpc hf _ => simp [fault?_of_le hpc, hf]
  | executed hpc hf _ => simp [fault?_of_le hpc, hf]

/-- A strict machine with interrupt 0 raised, whose handler starts with a byte that names nothing. -/
def strayInterrupt : Machine :=
  { powerOn { strict := true } with
    regs := (Registers.powerOn.set interruptMask 1).set interruptStatus 1
    mem := (Memory.blank.setCell vectorBase 0x10).setCell 0x10 0xFF }

theorem step_error_iff_fault_strayInterrupt :
    strayInterrupt.step.1 = .error (.invalidInstruction 0xFF 0x10) :=
  ((step_error_iff_fault (by decide)).1 _).mpr (by decide)

/-! ## What a failed step leaves -/

/-- The machine `m'` is `base` halted: the instruction register and the latch of the last read apart,
all that could be read off `base` can be read off `m'`. -/
structure StoppedAt (base m' : Machine) : Prop where
  halted : m'.phase = .halted
  register (i : RegisterIndex) : m'.regs.get i = base.regs.get i
  counter : m'.regs.pc = base.regs.pc
  flags : m'.regs.fl = base.regs.fl
  interrupts : m'.regs.interruptsEnabled = base.regs.interruptsEnabled
  cell (a : UInt8) : m'.mem.cell a = base.mem.cell a
  cycles : m'.cycles = base.cycles
  config : m'.config = base.config

theorem stoppedAt_halt (m : Machine) : StoppedAt m m.halt :=
  ⟨rfl, fun _ => rfl, rfl, rfl, rfl, fun _ => rfl, rfl, rfl⟩

/-- Fetching is no trace of an instruction. -/
theorem stoppedAt_fetched (m : Machine) : StoppedAt m m.fetched.halt :=
  ⟨rfl, fun _ => rfl, rfl, rfl, rfl, fun _ => rfl, rfl, rfl⟩

/-- A call of the arithmetic unit that fails leaves the machine it was made on. -/
theorem alu_error {m' : Machine} {op : AluOp} {a b : UInt8} {f : Fault}
    (h : m.alu op a b = (.error f, m')) : m' = m := by
  rw [Machine.alu, Exec.run_runAlu] at h
  by_cases ha : 7 < a.toNat
  · rw [if_pos ha] at h
    exact (congrArg Prod.snd h).symm
  rw [if_neg ha] at h
  by_cases hb : op.isBinary = true ∧ 7 < b.toNat
  · rw [if_pos hb] at h
    exact (congrArg Prod.snd h).symm
  rw [if_neg hb] at h
  generalize op.apply _ _ = result at h
  cases result with
  | error cause => exact (congrArg Prod.snd h).symm
  | ok out => cases out <;> cases h

/-- **Fault atomicity.** A failed step leaves the machine at the boundary at which the faulting
instruction started, halted: the machine before the step if no interrupt is due or its dispatch
fails, and the machine after the dispatch otherwise. A failed call of the arithmetic unit changes
nothing at all. -/
theorem step_error_atomic (m : Machine) :
    (m.isHalted = false → ∀ f m', m.step = (.error f, m') →
      (m.pendingInterrupt? = none → StoppedAt m m')
      ∧ (∀ n, m.pendingInterrupt? = some n →
          (∀ g, m.dispatch n = .error g → StoppedAt m m')
          ∧ (∀ d base, m.dispatch n = .ok (d, base) → StoppedAt base m')))
    ∧ ∀ op a b f m', m.alu op a b = (.error f, m') → m' = m := by
  constructor
  · intro h f m' hstep
    have hcycle := step_cycle h
    rw [hstep] at hcycle
    cases hcycle with
    | outside hpc =>
      -- the dispatch fails as well, for the same address
      refine ⟨fun _ => stoppedAt_halt m, ?_⟩
      intro n _
      refine ⟨fun _ _ => stoppedAt_halt m, ?_⟩
      intro d base hd
      rw [dispatch_of_lt hpc] at hd
      cases hd
    | refused hpc _ =>
      constructor
      · intro hnone
        rw [entry_of_none hnone]
        exact stoppedAt_fetched m
      · intro n hn
        constructor
        · intro g hg
          rw [dispatch_of_le hpc] at hg
          cases hg
        · intro d base hd
          rw [dispatch_of_le hpc] at hd
          cases hd
          rw [entry_of_pending hn hpc]
          exact stoppedAt_fetched (m.dispatched n)
  · intro op a b f m' h
    exact alu_error h

theorem step_error_atomic_strayInterrupt :
    StoppedAt (strayInterrupt.dispatched 0) strayInterrupt.step.2
      ∧ (strayInterrupt.alu .div 0 1).2 = strayInterrupt := by
  have hfail : strayInterrupt.step.1 = .error (.invalidInstruction 0xFF 0x10) := by decide
  have hdue : strayInterrupt.pendingInterrupt? = some 0 := by decide
  obtain ⟨hstep, halu⟩ := step_error_atomic strayInterrupt
  obtain ⟨-, hdispatch⟩ := hstep (by decide) _ _ (Prod.ext hfail rfl)
  refine ⟨(hdispatch 0 hdue).2 _ _ (dispatch_of_le (by decide) 0), ?_⟩
  exact halu .div 0 1 (.alu .divisionByZero) _ (Prod.ext rfl rfl)

end Machine

end EightBit
