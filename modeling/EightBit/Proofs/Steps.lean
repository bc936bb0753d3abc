/-
# EightBit.Proofs.Steps -- steps one after the other, and what each of them did

A trace is made of cycles that succeed. The steps of a machine need not: any of them may fail, and a
machine that has halted may be asked for another. `Machine.after` is the machine after a number of
steps, whatever they returned.

Of each step two things can be told from outside: the interrupt that it has delivered and the
instruction that it has executed. They are enough to say where what the step leaves comes from, the
program counter and the latches apart. An instruction that was executed is its row of the table, at
the machine after the delivery; without one, all is as the delivery has left it.
-/
import EightBit.Proofs.Run

namespace EightBit

namespace Machine

/-! ## Steps, one after the other -/

/-- The machine after `k` steps, whatever they return. -/
def after (m : Machine) (k : Nat) : Machine := (fun m => m.step.2)^[k] m

theorem after_succ (m : Machine) (k : Nat) : m.after (k + 1) = m.step.2.after k := rfl

theorem after_succ' (m : Machine) (k : Nat) : m.after (k + 1) = (m.after k).step.2 :=
  Function.iterate_succ_apply' ..

theorem isHalted_iff {m : Machine} : m.isHalted = true ↔ m.phase = .halted := by
  rw [isHalted, beq_iff_eq]

/-- A step that succeeds is a cycle. -/
theorem cycle_of_ok {m : Machine} {s : Step} (h : m.step.1 = .ok s) :
    m.isHalted = false ∧ Cycle m (.ok s) m.step.2 :=
  cycle_of_step (Prod.ext h rfl)

/-- A step that fails has found the machine halted and left it so, or is a cycle. -/
theorem cycle_of_error {m : Machine} {f : Fault} (h : m.step.1 = .error f) :
    m.step = (.error .notRunning, m) ∨ Cycle m (.error f) m.step.2 := by
  cases hm : m.isHalted with
  | true => exact .inl (step_of_halted hm)
  | false => exact .inr (h ▸ step_cycle hm)

/-- A step that fails leaves a halted machine, also if it fails because the machine had halted. -/
theorem isHalted_of_step_error {m : Machine} {f : Fault} (h : m.step.1 = .error f) :
    m.step.2.isHalted = true := by
  cases hm : m.isHalted with
  | true => rw [step_of_halted hm, hm]
  | false =>
    have hcycle := step_cycle hm
    rw [h] at hcycle
    exact hcycle.of_error.1

theorem step_config (m : Machine) : m.step.2.config = m.config := by
  cases hm : m.isHalted with
  | true => rw [step_of_halted hm]
  | false => exact (step_cycle hm).config

theorem after_config (m : Machine) (k : Nat) : (m.after k).config = m.config := by
  induction k with
  | zero => rfl
  | succ k ih => rw [after_succ', step_config, ih]

/-- What a run of at most `k` cycles prints. -/
def output (m : Machine) (k : Nat) : List UInt8 :=
  (m.runFor Observer.blind k Sink.unbounded ()).sink.written.toList

theorem output_of_error {m m' : Machine} {f : Fault} (h : m.step = (.error f, m')) (k : Nat) :
    m.output k = [] := by
  cases k with
  | zero => rfl
  | succ k =>
    cases hm : m.isHalted with
    | true =>
      rw [output, runFor_of_halted hm]
      rfl
    | false =>
      rw [output, runFor_of_error hm h]
      rfl

theorem output_of_ok {m m' : Machine} {s : Step} (h : m.step = (.ok s, m')) (k : Nat) :
    m.output (k + 1) = s.bytes ++ m'.output k := by
  have ht : Trace m [(m, s)] m' := .cons h (.nil m')
  obtain ⟨-, -, -, hwritten⟩ := runFor_resume Observer.blind ht k ()
  rwa [List.length_singleton, Nat.add_comm, printed_singleton] at hwritten

/-- The output of a run is that of its first cycle and then that of the others. -/
theorem output_succ (m : Machine) (k : Nat) :
    m.output (k + 1) = m.output 1 ++ m.step.2.output k := by
  rcases hstep : m.step with ⟨r, m'⟩
  cases r with
  | ok s =>
    rw [output_of_ok hstep, output_of_ok hstep, show m'.output 0 = [] from rfl, List.append_nil]
  | error f =>
    -- the machine is halted then, so neither side prints anything
    have hhalted : m'.isHalted = true := by
      have h := isHalted_of_step_error (congrArg Prod.fst hstep)
      rwa [hstep] at h
    rw [output_of_error hstep, output_of_error hstep, output_of_error (step_of_halted hhalted)]
    rfl

/-- The output of a run is that of its first cycles and then that of the others. -/
theorem output_add (m : Machine) (k i : Nat) :
    m.output (k + i) = m.output k ++ (m.after k).output i := by
  induction k generalizing m with
  | zero =>
    rw [Nat.zero_add]
    rfl
  | succ k ih =>
    rw [Nat.succ_add, output_succ, ih, output_succ m k, List.append_assoc]
    rfl

/-- What a single cycle prints can be told from its result. -/
theorem output_one (m : Machine) :
    m.output 1 = match m.step.1 with
      | .ok s => s.bytes
      | .error _ => [] := by
  rcases hstep : m.step with ⟨r, m'⟩
  cases r with
  | ok s =>
    rw [output_of_ok hstep]
    exact List.append_nil _
  | error f => exact output_of_error hstep 1

/-! ## What a step did -/

/-- The interrupt that the step at `m` delivers, if it delivers one. -/
def delivered? (m : Machine) : Option (Fin 8) := m.attempt.1.dispatch.map Dispatch.number

/-- The instruction that the step at `m` executes, if it executes one. -/
def executed? (m : Machine) : Option Opcode :=
  match m.step.1 with
  | .ok s => s.opcode?
  | .error _ => none

/-- The machine at which the instruction of a step starts: after the delivery, if there is one. -/
def start (m : Machine) : Machine := m.delivered?.elim m m.dispatched

/-- The register that the step at `m` writes because the first operand of its instruction numbers
it. -/
def destination? (m : Machine) : Option RegisterIndex :=
  m.executed?.bind fun op => op.destination? (m.start.operand 1)

/-- The address and the value of the byte that the instruction of the step at `m` stores, if it
stores one. -/
def stored? (m : Machine) : Option (UInt8 × UInt8) :=
  m.executed?.bind fun op => (m.start.effectOf op).store

/-- The interrupt of a cycle is reported, whatever becomes of the rest of the cycle. -/
theorem cycle_dispatch {m m' : Machine} {d : Option Dispatch} (h : m.takeInterrupt = .ok (d, m')) :
    m.cycle.1.dispatch = d := by
  simp only [cycle, h]
  cases m'.fetch with
  | error f => rfl
  | ok fetched =>
    obtain ⟨bytes, m₁⟩ := fetched
    cases hdecode : bytes.decode m₁.config with
    | error f => simp only [hdecode]
    | ok decoded => cases decoded <;> simp only [hdecode]

theorem attempt_report {m : Machine} (h : m.isHalted = false) :
    m.attempt.1 = ({ m with phase := .running } : Machine).cycle.1 := by
  simp only [attempt, h, Bool.false_eq_true, if_false]
  split <;> rfl

variable {m : Machine}

theorem attempt_of_halted (h : m.isHalted = true) : m.attempt.1.dispatch = none := by
  simp only [attempt, h, if_true]

theorem attempt_dispatch_of_lt (hpc : 255 < m.regs.pc) : m.attempt.1.dispatch = none := by
  cases hm : m.isHalted with
  | true => exact attempt_of_halted hm
  | false =>
    rw [attempt_report hm]
    cases hp : m.pendingInterrupt? with
    | none => exact cycle_dispatch (takeInterrupt_of_none (m := { m with phase := .running }) hp)
    | some n =>
      have hfail := takeInterrupt_of_lt (m := { m with phase := .running }) hp hpc
      simp only [cycle, hfail]

/-- **What is delivered**: the interrupt that is due, at the program counter, to where its vector
points. -/
theorem attempt_dispatch_of_le (hm : m.isHalted = false) (hpc : m.regs.pc ≤ 255) :
    m.attempt.1.dispatch = m.pendingInterrupt?.map fun n =>
      ⟨n, m.regs.pc, m.mem.cell (vectorBase + UInt8.ofNat n)⟩ := by
  rw [attempt_report hm]
  cases hp : m.pendingInterrupt? with
  | none => exact cycle_dispatch (takeInterrupt_of_none (m := { m with phase := .running }) hp)
  | some n =>
    have hp' : ({ m with phase := .running } : Machine).pendingInterrupt? = some n := hp
    have htake : ({ m with phase := .running } : Machine).takeInterrupt
        = .ok (some ⟨n, m.regs.pc, m.mem.cell (vectorBase + UInt8.ofNat n)⟩,
          ({ m with phase := .running } : Machine).dispatched n) := by
      simp only [takeInterrupt, hp', dispatch_of_le (m := { m with phase := .running }) hpc]
      rfl
    exact cycle_dispatch htake

theorem delivered?_of_halted (h : m.isHalted = true) : m.delivered? = none := by
  rw [delivered?, attempt_of_halted h, Option.map_none]

theorem delivered?_of_lt (hpc : 255 < m.regs.pc) : m.delivered? = none := by
  rw [delivered?, attempt_dispatch_of_lt hpc, Option.map_none]

theorem delivered?_of_le (hm : m.isHalted = false) (hpc : m.regs.pc ≤ 255) :
    m.delivered? = m.pendingInterrupt? := by
  rw [delivered?, attempt_dispatch_of_le hm hpc, Option.map_map]
  exact Option.map_id' ..

/-- An interrupt that is delivered is due. -/
theorem pending_of_delivered {n : Fin 8} (h : m.delivered? = some n) :
    m.isHalted = false ∧ m.regs.pc ≤ 255 ∧ m.pendingInterrupt? = some n := by
  cases hm : m.isHalted with
  | true =>
    rw [delivered?_of_halted hm] at h
    cases h
  | false =>
    rcases Nat.lt_or_ge 255 m.regs.pc with hpc | hpc
    · rw [delivered?_of_lt hpc] at h
      cases h
    · rw [delivered?_of_le hm hpc] at h
      exact ⟨rfl, hpc, h⟩

theorem start_of_none (h : m.delivered? = none) : m.start = m := by
  rw [start, h, Option.elim_none]

theorem start_of_delivered {n : Fin 8} (h : m.delivered? = some n) : m.start = m.dispatched n := by
  rw [start, h, Option.elim_some]

/-- The cycle of a machine that has not halted starts its instruction there. -/
theorem entry_eq_start (hm : m.isHalted = false) : m.entry = m.start := by
  rcases Nat.lt_or_ge 255 m.regs.pc with hpc | hpc
  · rw [entry_of_lt hpc, start_of_none (delivered?_of_lt hpc)]
  have hd := delivered?_of_le hm hpc
  cases hp : m.pendingInterrupt? with
  | none => rw [entry_of_none hp, start_of_none (hd.trans hp)]
  | some n => rw [entry_of_pending hp hpc, start_of_delivered (hd.trans hp)]

/-! ## What a step leaves -/

/-- An instruction that a step has executed was not refused, and is its row of the table. -/
theorem step_of_executed {op : Opcode} (h : m.executed? = some op) :
    m.isHalted = false ∧ m.start.refusal = none ∧ Opcode.ofByte? m.start.code = some op
      ∧ m.step.2 = (m.start.effectOf op).apply op.declaredArity m.start.fetched := by
  rw [executed?] at h
  rcases hstep : m.step with ⟨r, m'⟩
  rw [hstep] at h
  cases r with
  | error f => cases h
  | ok s =>
    obtain ⟨hm, hcycle⟩ := cycle_of_step hstep
    rw [← entry_eq_start hm]
    cases hcycle with
    | passed => cases h
    | executed _ hf hop =>
      obtain rfl := Option.some.inj h
      exact ⟨hm, hf, hop, rfl⟩

/-- The machine `m'` has the registers, the flags, the latch of interrupts and the cells of `x`. -/
structure Kept (x m' : Machine) : Prop where
  register (i : RegisterIndex) : m'.regs.get i = x.regs.get i
  flags : m'.regs.fl = x.regs.fl
  interrupts : m'.regs.interruptsEnabled = x.regs.interruptsEnabled
  cell (a : UInt8) : m'.mem.cell a = x.mem.cell a

/-- A step that executes no instruction, because it fails, passes over a byte or finds the machine
halted, leaves what the delivery has left. -/
theorem kept_of_not_executed (h : m.executed? = none) : Kept m.start m.step.2 := by
  cases hm : m.isHalted with
  | true =>
    rw [step_of_halted hm, start_of_none (delivered?_of_halted hm)]
    exact ⟨fun _ => rfl, rfl, rfl, fun _ => rfl⟩
  | false =>
    have hcycle := step_cycle hm
    rw [executed?] at h
    generalize m.step.2 = m' at hcycle
    generalize m.step.1 = r at h hcycle
    rw [← entry_eq_start hm]
    cases hcycle with
    | outside hpc =>
      rw [entry_of_lt hpc]
      exact ⟨fun _ => rfl, rfl, rfl, fun _ => rfl⟩
    | refused | passed => exact ⟨fun _ => rfl, rfl, rfl, fun _ => rfl⟩
    | executed => cases h

/-- A register that the instruction of a step does not write is as the instruction has found it. -/
theorem step_get {i : RegisterIndex} (hdest : m.destination? ≠ some i)
    (himp : ∀ op, m.executed? = some op → i ∉ op.implied) :
    m.step.2.regs.get i = m.start.regs.get i := by
  cases hop : m.executed? with
  | none => exact (kept_of_not_executed hop).register i
  | some op =>
    obtain ⟨-, -, -, hstep⟩ := step_of_executed hop
    rw [destination?, hop, Option.bind_some] at hdest
    rw [hstep, Effect.apply_get, effectOf,
      Opcode.effect_registers_eq_none hdest (himp op hop)]
    rfl

/-- A cell is as the instruction of the step has found it, if it is not the one that is stored
to. -/
theorem step_cell (m : Machine) (a : UInt8) :
    m.step.2.mem.cell a
      = m.stored?.elim (m.start.mem.cell a) fun w => if w.1 = a then w.2 else m.start.mem.cell a := by
  cases hop : m.executed? with
  | none =>
    rw [stored?, hop]
    exact (kept_of_not_executed hop).cell a
  | some op =>
    obtain ⟨-, -, -, hstep⟩ := step_of_executed hop
    rw [stored?, hop, hstep, Effect.apply_cell]
    rfl

end Machine

end EightBit
