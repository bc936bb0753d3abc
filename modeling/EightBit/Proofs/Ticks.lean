/-
# EightBit.Proofs.Ticks -- ticks of a debugger are steps of its machine

A debugger drives its machine by ticks, and a run drives it by attempts; both call the same step. Here
the first is shown to do what the second does. After `run`, the machine is stepped tick by tick until it
rests: until it has halted, whether by an instruction or by a fault, or stands at a breakpoint. From
then on nothing moves but the debugger's own flag.

The breakpoint that a run is resumed from is passed over once, by the first tick. After that tick the
debugger has forgotten it, and every later tick is governed by one condition, `AtRest`.
-/
import EightBit.Debugger
import EightBit.Proofs.Steps

namespace EightBit

/-! ## One tick -/

namespace Debugger

/-- What the debugger's console holds, byte by byte. -/
def consoleBytes (d : Debugger) : List UInt8 := d.console.toByteArray.data.toList

/-- The debugger once it has forgotten where it was resumed. -/
def forget (d : Debugger) : Debugger := { d with resumeFrom := none }

/-- The four ways of a tick. -/
inductive Tick (d : Debugger) : Debugger → Prop
  /-- The debugger is not running. -/
  | idle (hrun : d.running = false) : Tick d d
  /-- The machine has halted. -/
  | finished (hrun : d.running = true) (hm : d.machine.isHalted = true) :
    Tick d { d with running := false, status := .finished d.machine.cycles }
  /-- The machine stands at a breakpoint that it has not just been resumed from. -/
  | paused (hrun : d.running = true) (hm : d.machine.isHalted = false)
      (hpc : d.machine.regs.pc ∈ d.breakpoints)
      (hresume : d.resumeFrom ≠ some d.machine.regs.pc) :
    Tick d
      { d with running := false, status := .breakpoint d.machine.regs.pc, resumeFrom := none }
  /-- The machine is stepped. -/
  | stepped (hrun : d.running = true) (hm : d.machine.isHalted = false)
      (hpc : d.machine.regs.pc ∈ d.breakpoints → d.resumeFrom = some d.machine.regs.pc) :
    Tick d d.forget.step

theorem tick_spec (d : Debugger) : Tick d d.tick := by
  rw [tick]
  by_cases hrun : d.running = true
  · rw [if_neg (by rw [hrun]; decide)]
    by_cases hm : d.machine.isHalted = true
    · rw [if_pos hm]
      exact .finished hrun hm
    · rw [if_neg hm]
      have hgoes := Bool.eq_false_iff.mpr hm
      by_cases hpause : d.machine.regs.pc ∈ d.breakpoints ∧ d.resumeFrom ≠ some d.machine.regs.pc
      · rw [if_pos (by simpa using hpause)]
        exact .paused hrun hgoes hpause.1 hpause.2
      · rw [if_neg (by simpa using hpause)]
        exact .stepped hrun hgoes (by simpa using hpause)
  · have hidle := Bool.eq_false_iff.mpr hrun
    rw [if_pos (by rw [hidle]; rfl)]
    exact .idle hidle

/-- The text that a step adds to the console. -/
def addedText (s : Step) : String := s.output.elim "" Output.text

theorem toByteArray_addedText (s : Step) : (addedText s).toByteArray.data.toList = s.bytes := by
  rw [addedText, Step.bytes]
  cases s.output <;> rfl

theorem step_of_error {d : Debugger} {f : Fault} {m' : Machine} (hm : d.machine.isHalted = false)
    (h : d.machine.step = (.error f, m')) :
    d.step = { d with machine := m', status := .failed f, running := false } := by
  rw [step, if_neg (ne_true_of_eq_false hm), h]

theorem step_of_ok {d : Debugger} {s : Step} {m' : Machine}
    (h : d.machine.step = (.ok s, m')) :
    ∃ status, d.step = { d with machine := m', status, console := d.console ++ addedText s } := by
  have hm := (Machine.cycle_of_step h).1
  rw [step, if_neg (ne_true_of_eq_false hm), h]
  cases s with
  | skipped pc byte =>
    have hnone : d.console ++ addedText (.skipped pc byte) = d.console := String.append_empty
    rw [hnone]
    exact ⟨_, rfl⟩
  | executed pc op out => cases out <;> exact ⟨_, rfl⟩

/-- The debugger `d'` is `d` after a step of its machine: of what matters to later ticks only the
machine has changed, and the flag is down only if the machine has halted. -/
structure Stepped (d d' : Debugger) : Prop where
  machine : d'.machine = d.machine.step.2
  console : d'.consoleBytes = d.consoleBytes ++ d.machine.output 1
  breakpoints : d'.breakpoints = d.breakpoints
  resumeFrom : d'.resumeFrom = d.resumeFrom
  running : d'.running = d.running ∨ d'.machine.isHalted = true

theorem step_stepped {d : Debugger} (hm : d.machine.isHalted = false) : Stepped d d.step := by
  rcases hstep : d.machine.step with ⟨r, m'⟩
  have hmachine : m' = d.machine.step.2 := congrArg Prod.snd hstep.symm
  cases r with
  | error f =>
    have hhalted : m'.isHalted = true :=
      hmachine ▸ Machine.isHalted_of_step_error (congrArg Prod.fst hstep)
    rw [step_of_error hm hstep]
    refine ⟨hmachine, ?_, rfl, rfl, .inr hhalted⟩
    rw [Machine.output_of_error hstep, List.append_nil]
    rfl
  | ok s =>
    obtain ⟨status, hd⟩ := step_of_ok hstep
    have houtput : d.machine.output 1 = s.bytes :=
      (Machine.output_of_ok hstep 0).trans (List.append_nil _)
    rw [hd]
    refine ⟨hmachine, ?_, rfl, rfl, .inl rfl⟩
    rw [houtput, ← toByteArray_addedText, consoleBytes, consoleBytes, String.toByteArray_append,
      ByteArray.data_append, Array.toList_append]

/-! ## Rest -/

/-- Where ticks move nothing any more: the machine has halted, or it stands at a breakpoint that is not
the one to pass over. -/
def AtRest (d : Debugger) : Prop :=
  d.machine.isHalted = true
    ∨ (d.machine.regs.pc ∈ d.breakpoints ∧ d.resumeFrom ≠ some d.machine.regs.pc)

instance (d : Debugger) : Decidable (AtRest d) :=
  inferInstanceAs (Decidable (_ ∨ _))

/-- A machine that continuous execution with breakpoints `bs` does not move. -/
def Rests (bs : Breakpoints) (m : Machine) : Prop := m.isHalted = true ∨ m.regs.pc ∈ bs

theorem atRest_iff {d : Debugger} (h : d.resumeFrom = none) :
    AtRest d ↔ Rests d.breakpoints d.machine := by
  rw [AtRest, Rests, h, and_iff_left (Option.some_ne_none _).symm]

namespace Tick

variable {d d' : Debugger}

theorem breakpoints (h : Tick d d') : d'.breakpoints = d.breakpoints := by
  cases h with
  | idle | finished | paused => rfl
  | stepped _ hm => exact (step_stepped (d := d.forget) hm).breakpoints

theorem resumeFrom (h : Tick d d') (hresume : d.resumeFrom = none) : d'.resumeFrom = none := by
  cases h with
  | idle | finished => exact hresume
  | paused => rfl
  | stepped _ hm => exact (step_stepped (d := d.forget) hm).resumeFrom

/-- A tick that leaves the debugger running has used up the address to pass over. -/
theorem running_or_resumeFrom (h : Tick d d') : d'.running = false ∨ d'.resumeFrom = none := by
  cases h with
  | idle hrun => exact .inl hrun
  | finished | paused => exact .inl rfl
  | stepped _ hm => exact .inr (step_stepped (d := d.forget) hm).resumeFrom

theorem of_atRest (h : Tick d d') (hrest : AtRest d) :
    d'.machine = d.machine ∧ d'.console = d.console ∧ d'.running = false := by
  cases h with
  | idle hrun => exact ⟨rfl, rfl, hrun⟩
  | finished | paused => exact ⟨rfl, rfl, rfl⟩
  | stepped _ hm hpc =>
    rcases hrest with hhalted | ⟨hmem, hresume⟩
    · cases hhalted.symm.trans hm
    · exact absurd (hpc hmem) hresume

/-- A debugger that does not rest steps its machine at every tick. -/
theorem of_not_atRest (h : Tick d d') (hresume : d.resumeFrom = none)
    (hgo : d.running = true ∨ d.machine.isHalted = true) (hrest : ¬ AtRest d) :
    d.machine.isHalted = false ∧ d' = d.step := by
  rw [AtRest, not_or] at hrest
  cases h with
  | idle hrun =>
    rw [hrun] at hgo
    exact absurd (hgo.resolve_left Bool.false_ne_true) hrest.1
  | finished _ hm => exact absurd hm hrest.1
  | paused _ _ hpc hpass => exact absurd ⟨hpc, hpass⟩ hrest.2
  | stepped _ hm => exact ⟨hm, by rw [forget, ← hresume]⟩

/-- The first tick after `run` steps the machine wherever it stands, unless it has halted. -/
theorem of_run (h : Tick d.run d') (hm : d.machine.isHalted = false) :
    d' = d.run.forget.step := by
  cases h with
  | idle hrun => cases hrun
  | finished _ hhalted => cases hm.symm.trans hhalted
  | paused _ _ _ hresume => exact absurd rfl hresume
  | stepped => rfl

end Tick

theorem tick_of_idle {d : Debugger} (h : d.running = false) : d.tick = d := by
  rw [tick, if_pos (by rw [h]; rfl)]

/-- From rest, one tick takes the flag down, and that is all that any number of ticks does. -/
theorem ticks_of_atRest {d : Debugger} (h : AtRest d) (i : Nat) :
    (tick^[i] d).machine = d.machine ∧ (tick^[i] d).console = d.console
      ∧ (1 ≤ i → (tick^[i] d).running = false) := by
  cases i with
  | zero => exact ⟨rfl, rfl, nofun⟩
  | succ i =>
    obtain ⟨hmachine, hconsole, hrun⟩ := d.tick_spec.of_atRest h
    have hsame : tick^[i + 1] d = d.tick := Function.iterate_fixed (tick_of_idle hrun) i
    rw [hsame]
    exact ⟨hmachine, hconsole, fun _ => hrun⟩

/-! ## Ticks until rest -/

/-- The debugger `d'` has come `k` steps of its machine further than `d`. -/
structure Advanced (k : Nat) (d d' : Debugger) : Prop where
  machine : d'.machine = d.machine.after k
  console : d'.consoleBytes = d.consoleBytes ++ d.machine.output k
  breakpoints : d'.breakpoints = d.breakpoints
  resumeFrom : d'.resumeFrom = none

theorem Advanced.of_stepped {k : Nat} {d d₁ d' : Debugger} (h : Advanced k d₁ d')
    (hstep : Stepped d d₁) : Advanced (k + 1) d d' where
  machine := by rw [h.machine, hstep.machine, Machine.after_succ]
  console := by
    rw [h.console, hstep.console, hstep.machine, List.append_assoc, ← Machine.output_succ]
  breakpoints := h.breakpoints.trans hstep.breakpoints
  resumeFrom := h.resumeFrom

theorem ticks_breakpoints (d : Debugger) (n : Nat) : (tick^[n] d).breakpoints = d.breakpoints := by
  induction n generalizing d with
  | zero => rfl
  | succ n ih => exact (ih d.tick).trans d.tick_spec.breakpoints

theorem ticks_resumeFrom {d : Debugger} (h : d.resumeFrom = none) (n : Nat) :
    (tick^[n] d).resumeFrom = none := by
  induction n generalizing d with
  | zero => exact h
  | succ n ih => exact ih (d.tick_spec.resumeFrom h)

/-- From rest, nothing is ever reached but where the debugger is. -/
theorem ticks_advanced_of_atRest {d : Debugger} (hresume : d.resumeFrom = none) (h : AtRest d)
    (n : Nat) : Advanced 0 d (tick^[n] d) := by
  obtain ⟨hmachine, hconsole, -⟩ := ticks_of_atRest h n
  refine ⟨hmachine, ?_, d.ticks_breakpoints n, ticks_resumeFrom hresume n⟩
  rw [consoleBytes, hconsole]
  exact (List.append_nil _).symm

/-- Once a debugger has forgotten where it was resumed, its ticks are steps until it rests. -/
theorem ticks_advanced {d : Debugger} (hresume : d.resumeFrom = none)
    (hgo : d.running = true ∨ d.machine.isHalted = true) (n : Nat) :
    ∃ k ≤ n, (∀ j < k, ¬ Rests d.breakpoints (d.machine.after j))
      ∧ (k < n → Rests d.breakpoints (d.machine.after k)) ∧ Advanced k d (tick^[n] d) := by
  induction n generalizing d with
  | zero =>
    exact ⟨0, le_rfl, nofun, nofun, rfl, (List.append_nil _).symm, rfl, hresume⟩
  | succ n ih =>
    by_cases hrest : AtRest d
    · have hadv := ticks_advanced_of_atRest hresume hrest (n + 1)
      exact ⟨0, Nat.zero_le _, nofun, fun _ => (atRest_iff hresume).mp hrest, hadv⟩
    obtain ⟨hm, htick⟩ := d.tick_spec.of_not_atRest hresume hgo hrest
    have hstep := step_stepped hm
    have hrun : d.running = true := hgo.resolve_right (ne_true_of_eq_false hm)
    have hgo' : d.step.running = true ∨ d.step.machine.isHalted = true :=
      hstep.running.imp_left fun h => h.trans hrun
    obtain ⟨k, hk, hmoves, hrests, hadv⟩ := ih (hstep.resumeFrom.trans hresume) hgo'
    rw [hstep.breakpoints, hstep.machine] at hmoves hrests
    refine ⟨k + 1, Nat.succ_le_succ hk, ?_, ?_, ?_⟩
    · intro j hj
      cases j with
      | zero => exact mt (atRest_iff hresume).mpr hrest
      | succ j => exact hmoves j (Nat.lt_of_succ_lt_succ hj)
    · intro hlt
      exact hrests (Nat.lt_of_succ_lt_succ hlt)
    · rw [Function.iterate_succ_apply, htick]
      exact hadv.of_stepped hstep

/-! ## Continuous execution -/

/-- Continuous execution from `m` with breakpoints `bs` is over after `k` steps. -/
inductive Stops (bs : Breakpoints) (m : Machine) : Nat → Prop
  /-- The machine is halted before another step. -/
  | halted {k : Nat} (h : (m.after k).isHalted = true) : Stops bs m k
  /-- The last of the steps has failed. -/
  | failed {k : Nat} {f : Fault} (h : (m.after k).step.1 = .error f) : Stops bs m (k + 1)
  /-- The machine has moved and stands at a breakpoint. -/
  | breakpoint {k : Nat} (hk : 1 ≤ k) (h : (m.after k).regs.pc ∈ bs) : Stops bs m k

theorem stops_zero_iff {bs : Breakpoints} {m : Machine} : Stops bs m 0 ↔ m.isHalted = true := by
  constructor
  · intro h
    cases h with
    | halted h => exact h
    | breakpoint hk => exact absurd hk (by decide)
  · intro h
    exact Stops.halted (show (m.after 0).isHalted = true from h)

theorem stops_succ_iff {bs : Breakpoints} {m : Machine} {k : Nat} :
    Stops bs m (k + 1) ↔ Rests bs (m.step.2.after k) := by
  constructor
  · intro h
    cases h with
    | halted h => exact .inl h
    | failed h => exact .inl (m.after_succ' k ▸ Machine.isHalted_of_step_error h)
    | breakpoint _ h => exact .inr h
  · rintro (h | h)
    · exact .halted h
    · exact .breakpoint (Nat.succ_pos k) h

instance (bs : Breakpoints) (m : Machine) : Decidable (Rests bs m) :=
  inferInstanceAs (Decidable (_ ∨ _))

instance (bs : Breakpoints) (m : Machine) : (k : Nat) → Decidable (Stops bs m k)
  | 0 => decidable_of_iff' _ stops_zero_iff
  | _ + 1 => decidable_of_iff' _ stops_succ_iff

/-- Of `n` steps that continuous execution may make, it makes `k`: all of them, or as many as there
are before it is over for the first time. -/
structure Makes (bs : Breakpoints) (m : Machine) (n k : Nat) : Prop where
  le : k ≤ n
  before {j : Nat} (hj : j < k) : ¬ Stops bs m j
  stops (hk : k < n) : Stops bs m k

theorem Makes.unique {bs : Breakpoints} {m : Machine} {n k k' : Nat} (h : Makes bs m n k)
    (h' : Makes bs m n k') : k = k' := by
  rcases Nat.lt_trichotomy k k' with hlt | heq | hgt
  · exact absurd (h.stops (hlt.trans_le h'.le)) (h'.before hlt)
  · exact heq
  · exact absurd (h'.stops (hgt.trans_le h.le)) (h.before hgt)

/-- After `run`, the ticks are steps of the machine, as many as continuous execution makes. -/
theorem run_ticks_advanced (d : Debugger) (n : Nat) :
    ∃ k, Makes d.breakpoints d.machine n k
      ∧ (tick^[n] d.run).machine = d.machine.after k
      ∧ (tick^[n] d.run).consoleBytes = d.consoleBytes ++ d.machine.output k
      ∧ (Stops d.breakpoints d.machine k → AtRest (tick^[n] d.run)) := by
  by_cases hm : d.machine.isHalted = true
  · have hrest : AtRest d.run := .inl hm
    obtain ⟨hmachine, hconsole, -⟩ := ticks_of_atRest hrest n
    refine ⟨0, ⟨Nat.zero_le _, nofun, fun _ => stops_zero_iff.mpr hm⟩, hmachine, ?_, ?_⟩
    · rw [consoleBytes, hconsole]
      exact (List.append_nil _).symm
    · intro _
      exact .inl ((congrArg Machine.isHalted hmachine).trans hm)
  have hgoes := Bool.eq_false_iff.mpr hm
  cases n with
  | zero =>
    refine ⟨0, ⟨le_rfl, nofun, nofun⟩, rfl, (List.append_nil _).symm, ?_⟩
    intro h
    exact absurd (stops_zero_iff.mp h) hm
  | succ n =>
    -- the first tick is a step, also at a breakpoint; the ticks after it no longer know of `run`
    have hstep : Stepped d.run.forget d.run.tick :=
      d.run.tick_spec.of_run hgoes ▸ step_stepped hgoes
    have hgo : d.run.tick.running = true ∨ d.run.tick.machine.isHalted = true := hstep.running
    obtain ⟨k, hk, hmoves, hrests, hadv⟩ := ticks_advanced hstep.resumeFrom hgo n
    rw [hstep.breakpoints, hstep.machine] at hmoves hrests
    have hwhole : Advanced (k + 1) d.run.forget (tick^[n + 1] d.run) := hadv.of_stepped hstep
    refine ⟨k + 1, ⟨Nat.succ_le_succ hk, ?_, ?_⟩, hwhole.machine, hwhole.console, ?_⟩
    · intro j hj
      cases j with
      | zero => exact mt stops_zero_iff.mp hm
      | succ j => exact mt stops_succ_iff.mp (hmoves j (Nat.lt_of_succ_lt_succ hj))
    · intro hlt
      exact stops_succ_iff.mpr (hrests (Nat.lt_of_succ_lt_succ hlt))
    · intro h
      rw [atRest_iff hwhole.resumeFrom, hwhole.breakpoints, hwhole.machine]
      exact stops_succ_iff.mp h

/-- **Ticks simulate a run.** After `run`, any number of ticks have stepped the machine as often as
continuous execution does, and have put on the console what a run with that limit writes. Where
continuous execution is over, no more ticks change machine or console, and one of them is enough to
take the flag down. -/
theorem run_ticks (d : Debugger) (n : Nat) (hn : d.machine.cycles.toNat + n < 2 ^ 64) :
    ∃ k, Makes d.breakpoints d.machine n k ∧
      let d' := tick^[n] d.run
      d'.machine = d.machine.after k
      ∧ d'.consoleBytes
          = d.consoleBytes ++ (d.machine.runLimited k Sink.unbounded).sink.written.toList
      ∧ (Stops d.breakpoints d.machine k → ∀ i,
          (tick^[i] d').machine = d'.machine ∧ (tick^[i] d').console = d'.console
          ∧ (1 ≤ i → (tick^[i] d').running = false)) := by
  obtain ⟨k, hk, hmachine, hconsole, hrest⟩ := run_ticks_advanced d n
  have hallowance : d.machine.allowance k = k := by
    have hle := hk.le
    have hmax : maxCount = 2 ^ 64 - 1 := rfl
    rw [Machine.allowance]
    omega
  refine ⟨k, hk, hmachine, ?_, fun h => ticks_of_atRest (hrest h)⟩
  rw [Machine.runLimited, hallowance]
  exact hconsole

/-- A debugger on two instructions, of which the first prints and the second jumps back to it. There
is a breakpoint at the first. -/
def looping : Debugger :=
  { start {} [Opcode.prn.byte, 0, Opcode.jmp.byte, 0] with breakpoints := [0] }

theorem run_ticks_looping :
    looping.machine.cycles.toNat + 5 < 2 ^ 64
      ∧ (tick^[5] looping.run).machine = looping.machine.after 2
      ∧ (tick^[5] looping.run).consoleBytes = [48, 10]
      ∧ (tick^[5] looping.run).tick.running = false := by
  have hlt : looping.machine.cycles.toNat + 5 < 2 ^ 64 := by decide +kernel
  have hbefore : ∀ j < 2, ¬ Stops looping.breakpoints looping.machine j := by decide +kernel
  have hstops : Stops looping.breakpoints looping.machine 2 := by decide +kernel
  have hmakes : Makes looping.breakpoints looping.machine 5 2 :=
    ⟨by decide, hbefore _, fun _ => hstops⟩
  obtain ⟨k, hk, hmachine, hconsole, hrest⟩ := run_ticks looping 5 hlt
  obtain rfl := hk.unique hmakes
  obtain ⟨-, -, hidle⟩ := hrest hstops 1
  rw [Function.iterate_one] at hidle
  exact ⟨hlt, hmachine, hconsole.trans (by decide +kernel), hidle le_rfl⟩

end Debugger

end EightBit
