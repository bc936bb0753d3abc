/-
# EightBit.Proofs.CounterBound -- the program counter never wraps

The program counter is wider than an address, and nothing ever reduces it to one. It stays small all the
same. An instruction is executed only if it lies in memory with all its operands, so it moves the counter
to a byte or at most just past memory; a byte that names nothing is only known to lie in memory itself,
and moves the counter by four at most. Past memory no cycle moves it any more: the next one fails before
it has fetched anything, and so do all the others, until the machine is reset.

The bound holds after any calls, and needs to be told for one step only; runs are steps.
-/
import EightBit.Proofs.Calls

namespace EightBit

/-! ## One cycle -/

namespace Cycle

variable {m m' : Machine} {pc : Nat}

/-- An instruction moves the counter to a byte or past itself, and it lies in memory. -/
theorem counter_of_executed {op : Opcode} {out : Option Output}
    (h : Cycle m (.ok (.executed pc op out)) m') : m'.regs.pc ≤ 256 := by
  cases h with
  | executed hpc hf hop =>
    rw [Machine.refusal_named_eq_none_iff hop] at hf
    obtain ⟨-, hwhole, -⟩ := hf
    show (m.entry.effectOf op).target.elim (m.entry.regs.pc + 1 + op.declaredArity) UInt8.toNat
      ≤ 256
    cases (m.entry.effectOf op).target with
    | none =>
      rw [Option.elim_none]
      omega
    | some target => exact target.toNat_lt.le

theorem counter_of_skipped {byte : UInt8} (h : Cycle m (.ok (.skipped pc byte)) m') :
    m'.regs.pc ≤ 259 ∧ Opcode.ofByte? byte = none := by
  cases h with
  | passed hpc hf hop =>
    have hentry := Machine.entry_pc_le hpc
    have hcount := operandCount_le_three m.entry.code
    refine ⟨?_, hop⟩
    show m.entry.regs.pc + 1 + operandCount m.entry.code ≤ 259
    omega

end Cycle

namespace Machine

/-- A step that fails leaves the counter where it was, or in memory. -/
theorem counter_of_step_error {m : Machine} {f : Fault} (h : m.step.1 = .error f) :
    m.step.2.regs.pc = m.regs.pc ∨ m.step.2.regs.pc ≤ 255 := by
  rcases cycle_of_error h with hsame | hcycle
  · rw [hsame]
    exact .inl rfl
  generalize m.step.2 = m' at hcycle ⊢
  cases hcycle with
  | outside => exact .inl rfl
  | refused hpc => exact .inr (entry_pc_le hpc)

/-! ## The bound -/

/-- At the machine `m`, and wherever a cycle has been tried before, the counter is below 260; and it can
be above 256 only if the last cycle that has succeeded has passed over a byte. -/
structure Bounded (m : Machine) (tried : List Machine) : Prop where
  within : m.regs.pc ≤ 259
  skipped : 256 < m.regs.pc → ∃ pc byte,
    (completed tried).getLast? = some (.skipped pc byte) ∧ Opcode.ofByte? byte = none
  before : ∀ x ∈ tried, x.regs.pc ≤ 259

namespace Bounded

variable {m m' : Machine} {xs : List Machine}

theorem of_le (h : m.regs.pc ≤ 256) (hbefore : ∀ x ∈ xs, x.regs.pc ≤ 259) : Bounded m xs :=
  ⟨h.trans (by decide), fun hlt => absurd h (Nat.not_le.mpr hlt), hbefore⟩

/-- The bound is about the counter alone. -/
theorem of_counter (h : Bounded m xs) (hpc : m'.regs.pc = m.regs.pc) : Bounded m' xs := by
  refine ⟨?_, ?_, h.before⟩
  · rw [hpc]
    exact h.within
  · rw [hpc]
    exact h.skipped

/-- **A step keeps the bound.** -/
theorem step (h : Bounded m xs) : Bounded m.step.2 (xs ++ [m]) := by
  have hbefore : ∀ x ∈ xs ++ [m], x.regs.pc ≤ 259 :=
    List.forall_mem_append.mpr ⟨h.before, List.forall_mem_singleton.mpr h.within⟩
  cases hstep : m.step.1 with
  | error f =>
    rcases counter_of_step_error hstep with hpc | hpc
    · refine ⟨hpc.trans_le h.within, ?_, hbefore⟩
      rw [hpc, completed_concat_of_error hstep]
      exact h.skipped
    · exact .of_le (hpc.trans (by decide)) hbefore
  | ok s =>
    obtain ⟨-, hcycle⟩ := cycle_of_ok hstep
    cases s with
    | executed pc op out => exact .of_le hcycle.counter_of_executed hbefore
    | skipped pc byte =>
      obtain ⟨hpc, hop⟩ := hcycle.counter_of_skipped
      refine ⟨hpc, fun _ => ⟨pc, byte, ?_, hop⟩, hbefore⟩
      rw [completed_concat_of_ok hstep, List.getLast?_concat]

/-- After any calls on a new machine, the bound holds. -/
theorem of_calls (config : Configuration) (calls : List Call) :
    Bounded ((powerOn config).called calls) ((powerOn config).tried calls) := by
  have hnew : Bounded (powerOn config) [] := .of_le (Nat.zero_le _) (List.forall_mem_nil _)
  refine called_induction (P := Bounded) ?_ ?_ ?_ hnew
  · intro m xs h
    exact h.step
  · intro m m' xs haside h
    exact h.of_counter haside.counter
  · intro _ m xs h
    exact .of_le (Nat.zero_le _) h.before

end Bounded

/-! ## Past memory -/

/-- The machine `x` stands past memory at `pc`, with `ir` as the opcode it has fetched last. -/
structure Stranded (pc : Nat) (ir : UInt8) (x : Machine) : Prop where
  past : 255 < x.regs.pc
  counter : x.regs.pc = pc
  instruction : x.regs.ir = ir

namespace Stranded

variable {m m' : Machine} {pc : Nat} {ir : UInt8}

theorem of_aside (h : Stranded pc ir m) (haside : Aside m m') : Stranded pc ir m' where
  past := haside.counter.symm ▸ h.past
  counter := haside.counter.trans h.counter
  instruction := haside.instruction.trans h.instruction

/-- Past memory, a step fails before it has fetched anything. -/
theorem step (h : Stranded pc ir m) : m.step.2 = m.halt
    ∧ (m.step.1 = .error .notRunning ∨ m.step.1 = .error (.memory ⟨pc⟩)) := by
  cases hm : m.isHalted with
  | true =>
    rw [step_of_halted hm]
    refine ⟨?_, .inl rfl⟩
    rw [halt, ← isHalted_iff.mp hm]
  | false =>
    rw [step_of_lt hm h.past, h.counter]
    exact ⟨rfl, .inr rfl⟩

/-- Nothing but a reset brings a machine back from past memory. -/
theorem called (h : Stranded pc ir m) {calls : List Call} (hreset : Call.reset ∉ calls) :
    Stranded pc ir (m.called calls) ∧ ∀ x ∈ m.tried calls, Stranded pc ir x := by
  refine called_induction (P := fun m xs => Stranded pc ir m ∧ ∀ x ∈ xs, Stranded pc ir x) ?_ ?_ ?_
    ⟨h, List.forall_mem_nil _⟩
  · rintro m xs ⟨hm, hxs⟩
    refine ⟨?_, List.forall_mem_append.mpr ⟨hxs, List.forall_mem_singleton.mpr hm⟩⟩
    rw [hm.step.1]
    exact hm.of_aside ⟨rfl, rfl, rfl⟩
  · rintro m m' xs haside ⟨hm, hxs⟩
    exact ⟨hm.of_aside haside, hxs⟩
  · intro hmem
    exact absurd hmem hreset

end Stranded

/-- **The program counter never wraps.** After any calls on a new machine, and at every cycle that they
try, it is below 260, so neither of the addresses after it overflows; it can be above 256 only if the
last cycle that has succeeded has passed over a byte. Past memory the next step is a fault, with an
interrupt pending or without; and until the machine is reset, the counter stays where it is and no cycle
fetches anything. -/
theorem counter_never_wraps (config : Configuration) (calls : List Call) :
    let base := powerOn config
    let m := base.called calls
    (∀ x ∈ m :: base.tried calls, x.regs.pc ≤ 259 ∧ x.regs.pc + 2 < USize.size)
    ∧ (256 < m.regs.pc → ∃ pc byte,
        (completed (base.tried calls)).getLast? = some (.skipped pc byte)
        ∧ Opcode.ofByte? byte = none)
    ∧ (255 < m.regs.pc →
        (m.isHalted = false → m.step = (.error (.memory ⟨m.regs.pc⟩), m.halt))
        ∧ ∀ later, Call.reset ∉ later →
          (m.called later).regs.pc = m.regs.pc ∧ (m.called later).regs.ir = m.regs.ir
          ∧ ∀ x ∈ m.tried later, x.step.2 = x.halt
            ∧ (x.step.1 = .error .notRunning ∨ x.step.1 = .error (.memory ⟨m.regs.pc⟩))) := by
  intro base m
  have hbounded : Bounded m (base.tried calls) := .of_calls config calls
  refine ⟨?_, hbounded.skipped, ?_⟩
  · intro x hx
    have hle : x.regs.pc ≤ 259 := by
      rcases List.mem_cons.mp hx with rfl | hx
      · exact hbounded.within
      · exact hbounded.before x hx
    have hsize : 2 ^ 32 ≤ USize.size := USize.le_size
    exact ⟨hle, by omega⟩
  · intro hpast
    refine ⟨fun hm => step_of_lt hm hpast, ?_⟩
    intro later hreset
    have hstranded : Stranded m.regs.pc m.regs.ir m := ⟨hpast, rfl, rfl⟩
    obtain ⟨hlater, hattempts⟩ := hstranded.called hreset
    exact ⟨hlater.counter, hlater.instruction, fun x hx => (hattempts x hx).step⟩

/-- A jump to the last cell, which holds a byte that names nothing and announces three operands; and then
an interrupt that is raised and not masked. -/
def runningOff : List Call :=
  [.load [Opcode.jmp.byte, 255], .write 255 0xFF, .drive .step, .drive .step,
    .writeRegister 5 1, .writeRegister 6 1]

theorem counter_never_wraps_runningOff :
    let m := (powerOn {}).called runningOff
    m.regs.pc = 259 ∧ (∃ pc byte,
        (completed ((powerOn {}).tried runningOff)).getLast? = some (.skipped pc byte)
        ∧ Opcode.ofByte? byte = none)
      ∧ m.pendingInterrupt? = some 0 ∧ m.step = (.error (.memory ⟨259⟩), m.halt)
      ∧ (m.called [.drive .step, .read 0, .drive .step]).regs.pc = 259 := by
  intro m
  obtain ⟨hpc, hdue, hm⟩ : m.regs.pc = 259 ∧ m.pendingInterrupt? = some 0 ∧ m.isHalted = false := by
    decide +kernel
  obtain ⟨-, hskipped, hpast⟩ := counter_never_wraps {} runningOff
  obtain ⟨hfault, hlater⟩ := hpast (hpc.symm ▸ by decide)
  have hreset : Call.reset ∉ [.drive .step, .read 0, .drive .step] := by simp
  refine ⟨hpc, hskipped (hpc.symm ▸ by decide), hdue, ?_, ?_⟩
  · rw [hfault hm, hpc]
  · rw [(hlater _ hreset).1, hpc]

end Machine

end EightBit
