/-
# EightBit.Proofs.Latches -- what is kept for an onlooker has no effect

A machine keeps four things for whoever looks at it: the byte that was read last, the opcode that was
fetched last, the number of cycles that it has completed, and whether a first cycle has been tried. Two
machines are **alike** if they differ in nothing else. That they behave alike is shown part by part: what
is due, what is refused and what an instruction changes are computed from registers, flags and cells, and
every read of the engine is a read of a cell, never of the latch that it leaves behind.

The count of cycles has a say at one place only. A run ends before a 64-bit counter overflows, so it stops
short of its limit if the counter stands too high; hence the bound on the limit in the statement on runs,
and none in the statement on steps.
-/
import EightBit.Proofs.Steps

namespace EightBit

namespace Machine

/-! ## Machines that are alike -/

/-- The machines `x` and `y` agree on everything but the byte read last, the opcode fetched last, the
number of completed cycles, and whether one that has not halted has been started. -/
structure Alike (x y : Machine) : Prop where
  registers : y.regs.gp = x.regs.gp
  counter : y.regs.pc = x.regs.pc
  flags : y.regs.fl = x.regs.fl
  interrupts : y.regs.interruptsEnabled = x.regs.interruptsEnabled
  cells : y.mem.cells = x.mem.cells
  halted : y.isHalted = x.isHalted
  config : y.config = x.config

namespace Alike

variable {x y : Machine}

/-- A machine that is like another one is that one with other latches. -/
theorem exists_eq (h : Alike x y) :
    ∃ ir mdr phase cycles, y = { x with
      regs := { x.regs with ir }, mem := { x.mem with mdr }, phase, cycles } := by
  obtain ⟨regs, mem, phase, cycles, config⟩ := y
  obtain ⟨gp, pc, ir, fl, ie⟩ := regs
  obtain ⟨cells, mdr⟩ := mem
  obtain ⟨rfl, rfl, rfl, rfl, rfl, -, rfl⟩ := h
  exact ⟨ir, mdr, phase, cycles, rfl⟩

/-! ## What is computed without the latches -/

theorem pendingInterrupt? (h : Alike x y) : y.pendingInterrupt? = x.pendingInterrupt? := by
  obtain ⟨ir, mdr, phase, cycles, rfl⟩ := h.exists_eq
  rfl

theorem code (h : Alike x y) : y.code = x.code := by
  obtain ⟨ir, mdr, phase, cycles, rfl⟩ := h.exists_eq
  rfl

theorem effectOf (h : Alike x y) (op : Opcode) : y.effectOf op = x.effectOf op := by
  obtain ⟨ir, mdr, phase, cycles, rfl⟩ := h.exists_eq
  cases op <;> rfl

theorem refusal (h : Alike x y) : y.refusal = x.refusal := by
  have hcode : y.code = x.code := h.code
  cases hop : Opcode.ofByte? x.code with
  | none =>
    rw [refusal_unnamed hop, refusal_unnamed (hcode.symm ▸ hop), hcode, h.counter, h.config]
  | some op =>
    have hop' : Opcode.ofByte? y.code = some op := hcode.symm ▸ hop
    obtain ⟨ir, mdr, phase, cycles, rfl⟩ := h.exists_eq
    rw [refusal_named hop, refusal_named hop']
    cases op <;> rfl

/-! ## What keeps machines alike -/

theorem halt (h : Alike x y) : Alike x.halt y.halt :=
  ⟨h.registers, h.counter, h.flags, h.interrupts, h.cells, rfl, h.config⟩

theorem fetched (h : Alike x y) : Alike x.fetched y.fetched :=
  ⟨h.registers, h.counter, h.flags, h.interrupts, h.cells, rfl, h.config⟩

theorem advance (h : Alike x y) (operands : Nat) : Alike (x.advance operands) (y.advance operands) :=
  ⟨h.registers, congrArg (· + 1 + operands) h.counter, h.flags, h.interrupts, h.cells, h.halted,
    h.config⟩

theorem tally (h : Alike x y) : Alike x.tally y.tally :=
  ⟨h.registers, h.counter, h.flags, h.interrupts, h.cells, h.halted, h.config⟩

theorem apply (h : Alike x y) (e : Effect) (operands : Nat) :
    Alike (e.apply operands x) (e.apply operands y) := by
  have hhalted : (e.apply operands y).isHalted = (e.apply operands x).isHalted := by
    show ((if e.halts then Phase.halted else y.phase) == .halted)
      = ((if e.halts then Phase.halted else x.phase) == .halted)
    cases e.halts with
    | true => rfl
    | false => exact h.halted
  obtain ⟨ir, mdr, phase, cycles, rfl⟩ := h.exists_eq
  refine ⟨rfl, rfl, rfl, rfl, ?_, hhalted, rfl⟩
  show (e.store.elim _ _ : Memory).cells = (e.store.elim _ _ : Memory).cells
  cases e.store with
  | none => rfl
  | some w => rfl

theorem dispatched (h : Alike x y) (n : Fin 8) : Alike (x.dispatched n) (y.dispatched n) := by
  have hhalted : (y.dispatched n).isHalted = (x.dispatched n).isHalted := h.halted
  obtain ⟨ir, mdr, phase, cycles, rfl⟩ := h.exists_eq
  exact ⟨rfl, rfl, rfl, rfl, rfl, hhalted, rfl⟩

theorem entry (h : Alike x y) : Alike x.entry y.entry := by
  rcases Nat.lt_or_ge 255 x.regs.pc with hpc | hpc
  · rw [entry_of_lt hpc, entry_of_lt (h.counter.symm ▸ hpc)]
    exact h
  have hpc' : y.regs.pc ≤ 255 := h.counter.symm ▸ hpc
  cases hp : x.pendingInterrupt? with
  | none =>
    rw [entry_of_none hp, entry_of_none (h.pendingInterrupt?.trans hp)]
    exact h
  | some n =>
    rw [entry_of_pending hp hpc, entry_of_pending (h.pendingInterrupt?.trans hp) hpc']
    exact h.dispatched n

/-! ## Steps -/

/-- What is a cycle of a machine is, with the same result, a cycle of every machine like it. -/
theorem cycle (h : Alike x y) {r : Except Fault Step} {x' : Machine} (hc : Cycle x r x') :
    ∃ y', Cycle y r y' ∧ Alike x' y' := by
  have hpc : y.regs.pc = x.regs.pc := h.counter
  have hentry : Alike x.entry y.entry := h.entry
  cases hc with
  | outside hout =>
    rw [← hpc] at hout ⊢
    exact ⟨y.halt, .outside hout, h.halt⟩
  | refused hin hf =>
    exact ⟨_, .refused (hpc ▸ hin) (hentry.refusal.trans hf), hentry.fetched.halt⟩
  | passed hin hf hop =>
    rw [← hentry.code] at hop ⊢
    rw [← hentry.counter]
    exact ⟨_, .passed (hpc ▸ hin) (hentry.refusal.trans hf) hop, (hentry.fetched.advance _).tally⟩
  | executed hin hf hop =>
    rw [← hentry.code] at hop
    rw [← hentry.counter, ← hentry.effectOf]
    exact ⟨_, .executed (hpc ▸ hin) (hentry.refusal.trans hf) hop, hentry.fetched.apply _ _⟩

theorem step (h : Alike x y) : y.step.1 = x.step.1 ∧ Alike x.step.2 y.step.2 := by
  cases hx : x.isHalted with
  | true =>
    rw [step_of_halted hx, step_of_halted (h.halted.trans hx)]
    exact ⟨rfl, h⟩
  | false =>
    obtain ⟨y', hcycle, halike⟩ := h.cycle (step_cycle hx)
    rw [step_of_cycle (h.halted.trans hx) hcycle]
    exact ⟨rfl, halike⟩

theorem after (h : Alike x y) (k : Nat) : Alike (x.after k) (y.after k) := by
  induction k with
  | zero => exact h
  | succ k ih =>
    rw [after_succ', after_succ']
    exact ih.step.2

end Alike

end Machine

/-! ## Runs -/

/-- A run counts the first of its cycles and those that come after it. -/
theorem Run.result_of_cycles {σ : Type} {m m₁ : Machine} (h : m₁.cycles = m.cycles + 1)
    (r : Run σ) : r.result m = (r.result m₁).map (· + 1) := by
  have hcount : r.count m = r.count m₁ + 1 := by
    rw [Run.count, Run.count, h, sub_add_eq_sub_sub, sub_add_cancel]
  rw [Run.result, Run.result, hcount]
  cases r.outcome <;> rfl

namespace Machine

/-- The run `r` from `x` and the run `s` from `y` cannot be told apart: they return the same count or the
same fault, they have written the same bytes, and they leave machines that are alike. -/
structure SameRun (x y : Machine) (r s : Run Unit) : Prop where
  result : s.result y = r.result x
  sink : s.sink = r.sink
  machine : Alike r.machine s.machine

variable {x y : Machine}

/-- A run that has completed nothing counts nothing. -/
theorem SameRun.of_alike (h : Alike x y) (sink : Sink) :
    SameRun x y ⟨.ok (), x, sink, ()⟩ ⟨.ok (), y, sink, ()⟩ where
  result := by
    show Except.ok (y.cycles - y.cycles) = Except.ok (x.cycles - x.cycles)
    rw [sub_self, sub_self]
  sink := rfl
  machine := h

/-- Runs of as many cycles from machines that are alike cannot be told apart, whatever the sink does. -/
theorem Alike.runFor (h : Alike x y) (n : Nat) (sink : Sink) :
    SameRun x y (x.runFor Observer.blind n sink ()) (y.runFor Observer.blind n sink ()) := by
  induction n generalizing x y sink with
  | zero => exact .of_alike h sink
  | succ n ih =>
    cases hx : x.isHalted with
    | true =>
      rw [runFor_of_halted hx, runFor_of_halted (h.halted.trans hx)]
      exact .of_alike h sink
    | false =>
      have hy : y.isHalted = false := h.halted.trans hx
      obtain ⟨hresult, hafter⟩ := h.step
      rcases hxstep : x.step with ⟨r, x₁⟩
      rcases hystep : y.step with ⟨r', y₁⟩
      rw [hxstep, hystep] at hresult hafter
      obtain rfl : r = r' := hresult.symm
      cases r with
      | error f =>
        rw [runFor_of_error hx hxstep, runFor_of_error hy hystep]
        exact ⟨rfl, rfl, hafter⟩
      | ok s =>
        have hxcycles : x₁.cycles = x.cycles + 1 := (cycle_of_step hxstep).2.cycles
        have hycycles : y₁.cycles = y.cycles + 1 := (cycle_of_step hystep).2.cycles
        rw [runFor_of_ok hxstep, runFor_of_ok hystep]
        rcases sink.write s.bytes with ⟨r, sink₁⟩
        cases r with
        | error cause => exact ⟨rfl, rfl, hafter⟩
        | ok =>
          obtain ⟨hrest, hsink, hmachine⟩ := ih hafter sink₁
          refine ⟨?_, hsink, hmachine⟩
          rw [Run.result_of_cycles hycycles, Run.result_of_cycles hxcycles]
          exact congrArg (Except.map (· + 1)) hrest

/-- A counter that can count as many cycles as the limit says leaves the limit as it is. -/
theorem allowance_of_lt {m : Machine} {limit : Nat} (h : m.cycles.toNat + limit < 2 ^ 64) :
    m.allowance limit = limit := by
  have hmax : maxCount = 2 ^ 64 - 1 := rfl
  rw [allowance]
  omega

/-- **The latches have no effect.** Of two machines that are alike, every step gives the same result and
the same output, and leaves machines that are alike. So do runs with a limit, given or configured, that
neither counter is too high to count up to: they return the same count or the same fault, and write the
same bytes. -/
theorem latches_have_no_effect (h : Alike x y) :
    (∀ k, (y.after k).step.1 = (x.after k).step.1 ∧ y.output k = x.output k
      ∧ Alike (x.after k) (y.after k))
    ∧ ∀ limit : UInt64, x.cycles.toNat + limit.toNat < 2 ^ 64 →
        y.cycles.toNat + limit.toNat < 2 ^ 64 → ∀ sink,
        SameRun x y (x.runLimited limit.toNat sink) (y.runLimited limit.toNat sink)
        ∧ (x.config.maxCycles = some limit → SameRun x y (x.run sink) (y.run sink)) := by
  constructor
  · intro k
    refine ⟨(h.after k).step.1, ?_, h.after k⟩
    exact congrArg (fun sink => sink.written.toList) (h.runFor k Sink.unbounded).sink
  · intro limit hx hy sink
    have hlimited : SameRun x y (x.runLimited limit.toNat sink) (y.runLimited limit.toNat sink) := by
      rw [runLimited, runLimited, allowance_of_lt hx, allowance_of_lt hy]
      exact h.runFor limit.toNat sink
    refine ⟨hlimited, ?_⟩
    intro hmax
    have hxlimit : x.configuredLimit = limit.toNat := by rw [configuredLimit, hmax]
    have hylimit : y.configuredLimit = limit.toNat := by rw [configuredLimit, h.config, hmax]
    have hxrun : x.run sink = x.runLimited limit.toNat sink := by
      rw [run, runObserved, hxlimit, runLimited]
    have hyrun : y.run sink = y.runLimited limit.toNat sink := by
      rw [run, runObserved, hylimit, runLimited]
    rw [hxrun, hyrun]
    exact hlimited

/-- A machine that may make three cycles, with interrupt 0 due, whose handler prints `R5` and halts. -/
def printingHandler : Machine :=
  { powerOn { maxCycles := some 3 } with
    regs := (Registers.powerOn.set interruptMask 1).set interruptStatus 1
    mem := (((Memory.blank.setCell vectorBase 0x10).setCell 0x10 Opcode.prn.byte).setCell 0x11
      5).setCell 0x12 Opcode.hlt.byte }

/-- The same machine with other latches, whose counter can count three more cycles. -/
def printingHandlerLate : Machine :=
  { printingHandler with
    regs := { printingHandler.regs with ir := 0xFF }
    mem := { printingHandler.mem with mdr := 0xFF }
    phase := .running
    cycles := 0xFFFFFFFFFFFFFFFC }

theorem latches_have_no_effect_printingHandler :
    Alike printingHandler printingHandlerLate
      ∧ (printingHandlerLate.after 1).step.1 = .ok (.executed 0x12 .hlt none)
      ∧ (printingHandlerLate.run Sink.unbounded).result printingHandlerLate = .ok 2
      ∧ (printingHandlerLate.run Sink.unbounded).sink.written = #[49, 10] := by
  have halike : Alike printingHandler printingHandlerLate := ⟨rfl, rfl, rfl, rfl, rfl, rfl, rfl⟩
  obtain ⟨hsteps, hruns⟩ := latches_have_no_effect halike
  obtain ⟨hresult, -, -⟩ := hsteps 1
  obtain ⟨-, hrun⟩ := hruns 3 (by decide) (by decide) Sink.unbounded
  have hsame := hrun rfl
  refine ⟨halike, hresult.trans (by decide), hsame.result.trans (by decide), ?_⟩
  exact (congrArg Sink.written hsame.sink).trans (by decide)

end Machine

end EightBit
