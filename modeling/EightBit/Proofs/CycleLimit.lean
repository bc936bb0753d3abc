/-
# EightBit.Proofs.CycleLimit -- the configured cycle limit in a debugger

The limit of a configuration is looked at in one place, where a run works out how many cycles it may try. A
debugger makes no runs, it makes ticks, and no tick looks at the limit: a session under another limit is the
same session, and the machines of the two differ in the limit alone.

So a run keeps to the limit and continuous execution does not. Ticks that follow a call of `run` make as many
cycles as are asked for, until the machine halts, fails or comes to a breakpoint, and they stay within the
limit exactly if one of these happens by then.
-/
import EightBit.Proofs.Reconfiguration
import EightBit.Proofs.Reset

namespace EightBit

/-! ## Machines under another limit -/

namespace Configuration

/-- The configuration with another cycle limit. -/
def withLimit (c : Configuration) (limit : Option UInt64) : Configuration :=
  { c with maxCycles := limit }

end Configuration

namespace Machine

/-- The machine with another cycle limit. -/
def withLimit (m : Machine) (limit : Option UInt64) : Machine :=
  m.withConfig (m.config.withLimit limit)

/-- No cycle looks at the limit. -/
theorem step_withLimit (m : Machine) (limit : Option UInt64) :
    (m.withLimit limit).step = (m.step.1, m.step.2.withLimit limit) := by
  have hrefusal : (m.entry.withConfig (m.config.withLimit limit)).refusal = m.entry.refusal := by
    rw [← m.entry_config]
    exact refusal_withConfig (fun _ => rfl) (fun _ _ => rfl)
  rw [withLimit, withLimit, step_withConfig fun _ _ => hrefusal, m.step_config]

/-- A run completes no more cycles than its configuration allows. -/
theorem run_within {m : Machine} {limit : UInt64} (h : m.config.maxCycles = some limit) (sink : Sink) :
    ∃ k ≤ limit.toNat, (m.run sink).machine = m.after k := by
  obtain ⟨k, hk, hrun⟩ := m.runFor_steps (m.allowance m.configuredLimit) sink
  have hlimit : m.allowance m.configuredLimit ≤ limit.toNat := by
    rw [configuredLimit, h]
    exact Nat.min_le_left ..
  exact ⟨k, hk.trans hlimit, (hrun Unit Observer.blind ()).1⟩

end Machine

/-! ## Debuggers under another limit -/

namespace Debugger

/-- The debugger with another cycle limit. -/
def withLimit (d : Debugger) (limit : Option UInt64) : Debugger :=
  { d with machine := d.machine.withLimit limit }

section Limit

variable (d : Debugger) (limit : Option UInt64)

theorem boot_withLimit (c : Configuration) (program : List UInt8) :
    boot (c.withLimit limit) program
      = ((boot c program).1.withLimit limit, (boot c program).2) := by
  have hload : (Machine.powerOn (c.withLimit limit)).load program
      = ((Machine.powerOn c).load program).map (Machine.withLimit · limit) := by
    show (Memory.blank.load program).map _ = ((Memory.blank.load program).map _).map _
    cases Memory.blank.load program <;> rfl
  rw [boot, boot, hload]
  cases (Machine.powerOn c).load program <;> rfl

theorem start_withLimit (c : Configuration) (program : List UInt8) :
    start (c.withLimit limit) program = (start c program).withLimit limit := by
  rw [start, boot_withLimit]
  rfl

theorem reset_withLimit : (d.withLimit limit).reset = d.reset.withLimit limit := by
  have hboot : boot (d.withLimit limit).machine.config (d.withLimit limit).program = _ :=
    boot_withLimit limit d.machine.config d.program
  rw [reset, reset, hboot]
  rfl

theorem step_withLimit : (d.withLimit limit).step = d.step.withLimit limit := by
  have hstep : (d.withLimit limit).machine.step = _ := d.machine.step_withLimit limit
  refine ite_changed (withLimit · limit) rfl ?_
  rw [hstep]
  generalize d.machine.step = performed
  obtain ⟨r, m'⟩ := performed
  rcases r with f | ⟨pc, op, out⟩ | ⟨pc, byte⟩ <;> rfl

theorem tick_withLimit : (d.withLimit limit).tick = d.tick.withLimit limit := by
  have hstep : (d.forget.withLimit limit).step = d.forget.step.withLimit limit :=
    d.forget.step_withLimit limit
  let f := (withLimit · limit)
  exact ite_changed f rfl (ite_changed f rfl (ite_changed f rfl hstep))

theorem command_withLimit (c : Command) :
    (d.withLimit limit).command c = (d.command c).withLimit limit := by
  cases c with
  | step => exact d.step_withLimit limit
  | tick => exact d.tick_withLimit limit
  | toggle => exact ite_changed (withLimit · limit) rfl rfl
  | reset => exact d.reset_withLimit limit
  | run | setBreakpoint | removeBreakpoint | scroll | setRunning | setCounter => rfl

theorem commanded_withLimit (commands : List Command) :
    (d.withLimit limit).commanded commands = (d.commanded commands).withLimit limit := by
  induction commands generalizing d with
  | nil => rfl
  | cons c commands ih =>
    show ((d.withLimit limit).command c).commanded commands = _
    rw [command_withLimit]
    exact ih (d.command c)

end Limit

/-! ## Continuous execution and the limit -/

section Ticks

variable {d : Debugger} {limit : Nat}

theorem Makes.eq_of_not_stops {bs : Breakpoints} {m : Machine} {n k : Nat} (hk : Makes bs m n k)
    (h : ∀ j < n, ¬ Stops bs m j) : k = n := by
  by_contra hne
  have hlt : k < n := lt_of_le_of_ne hk.le hne
  exact h k hlt (hk.stops hlt)

/-- While continuous execution is not over, every tick makes a cycle. -/
theorem run_ticks_machine {n : Nat} (h : ∀ j < n, ¬ Stops d.breakpoints d.machine j) :
    (tick^[n] d.run).machine = d.machine.after n := by
  obtain ⟨k, hk, hmachine, -, -⟩ := d.run_ticks_advanced n
  rw [hmachine, hk.eq_of_not_stops h]

/-- Nothing but the end of continuous execution takes the flag down. -/
theorem run_ticks_running {n : Nat} (h : ∀ j ≤ n, ¬ Stops d.breakpoints d.machine j) :
    (tick^[n] d.run).running = true := by
  induction n with
  | zero => rfl
  | succ n ih =>
    have hrun : (tick^[n] d.run).running = true := ih fun j hj => h j (Nat.le_succ_of_le hj)
    have hmachine : (tick^[n] d.run).machine = d.machine.after n :=
      run_ticks_machine fun j hj => h j (Nat.le_succ_of_le hj.le)
    have hbreakpoints : (tick^[n] d.run).breakpoints = d.breakpoints := d.run.ticks_breakpoints n
    have htick := (tick^[n] d.run).tick_spec
    rw [Function.iterate_succ_apply']
    generalize hd' : tick^[n] d.run = d' at hrun hmachine hbreakpoints htick ⊢
    generalize d'.tick = d₁ at htick ⊢
    cases htick with
    | idle => exact hrun
    | finished _ hm =>
      rw [hmachine] at hm
      exact absurd (.halted hm) (h n (Nat.le_succ n))
    | paused _ _ hpc hresume =>
      rw [hmachine, hbreakpoints] at hpc
      cases n with
      | zero =>
        subst hd'
        exact absurd rfl hresume
      | succ n => exact absurd (.breakpoint (Nat.succ_pos n) hpc) (h (n + 1) (Nat.le_succ _))
    | stepped _ hm =>
      have hstep := step_stepped (d := d'.forget) hm
      refine (hstep.running.resolve_right ?_).trans hrun
      intro hhalted
      rw [hstep.machine] at hhalted
      refine h (n + 1) le_rfl (.halted ?_)
      rw [Machine.after_succ', ← hmachine]
      exact hhalted

/-- However many ticks follow a call of `run`, they make no more than `limit` cycles. -/
def KeepsTo (d : Debugger) (limit : Nat) : Prop :=
  ∀ n, ∃ k ≤ limit, Makes d.breakpoints d.machine n k
    ∧ (tick^[n] d.run).machine = d.machine.after k

/-- Continuous execution keeps to a limit if it is over by then, and only then. -/
theorem keepsTo_iff : KeepsTo d limit ↔ ∃ k ≤ limit, Stops d.breakpoints d.machine k := by
  constructor
  · intro hkeeps
    -- one tick more than the limit allows, and there must be a reason not to make that cycle
    obtain ⟨k, hle, hk, -⟩ := hkeeps (limit + 1)
    exact ⟨k, hle, hk.stops (Nat.lt_succ_of_le hle)⟩
  · rintro ⟨j, hj, hstops⟩ n
    obtain ⟨k, hk, hmachine, -, -⟩ := d.run_ticks_advanced n
    have hle : k ≤ j := by
      by_contra hlt
      exact hk.before (Nat.lt_of_not_le hlt) hstops
    exact ⟨k, hle.trans hj, hk, hmachine⟩

end Ticks

/-- **A debugger does not look at the cycle limit.** Under any limit a session is what it is under any other.
A run of the session's machine makes no more cycles than the limit allows. The ticks after a call of `run` make
as many as continuous execution does, which is no more than the limit allows exactly if it is over by then;
if it is not, the debugger is running when the limit is reached and makes another cycle. -/
theorem limit_decides_nothing (config : Configuration) (program : List UInt8)
    (commands : List Command) :
    let d := (start config program).commanded commands
    (∀ limit, (start { config with maxCycles := limit } program).commanded commands
      = { d with
          machine := { d.machine with config := { d.machine.config with maxCycles := limit } } })
    ∧ ∀ limit, config.maxCycles = some limit →
        (∀ sink, ∃ k ≤ limit.toNat, (d.machine.run sink).machine = d.machine.after k)
        ∧ (∀ n, ∃ k, Makes d.breakpoints d.machine n k
            ∧ (tick^[n] d.run).machine = d.machine.after k)
        ∧ (KeepsTo d limit.toNat ↔ ∃ k ≤ limit.toNat, Stops d.breakpoints d.machine k)
        ∧ (¬ KeepsTo d limit.toNat →
            (tick^[limit.toNat] d.run).running = true
            ∧ (tick^[limit.toNat + 1] d.run).machine = d.machine.after (limit.toNat + 1)) := by
  intro d
  have hserves : Serves config program d := (Serves.start config program).commanded commands
  refine ⟨?_, ?_⟩
  · intro limit
    exact (congrArg (commanded · commands) (start_withLimit limit config program)).trans
      ((start config program).commanded_withLimit limit commands)
  · intro limit hlimit
    refine ⟨?_, ?_, keepsTo_iff, ?_⟩
    · exact Machine.run_within ((congrArg Configuration.maxCycles hserves.config).trans hlimit)
    · intro n
      obtain ⟨k, hk, hmachine, -, -⟩ := d.run_ticks_advanced n
      exact ⟨k, hk, hmachine⟩
    · intro hkeeps
      have hgoes : ∀ k ≤ limit.toNat, ¬ Stops d.breakpoints d.machine k := by
        intro k hk hstops
        exact hkeeps (keepsTo_iff.mpr ⟨k, hk, hstops⟩)
      exact ⟨run_ticks_running hgoes, run_ticks_machine fun k hk => hgoes k (Nat.le_of_lt_succ hk)⟩

/-- A debugger on a program of one instruction, which jumps to itself, with a limit of one cycle. -/
def endless : Debugger := start { maxCycles := some 1 } [Opcode.jmp.byte, 0]

theorem limit_decides_nothing_endless :
    endless.machine.config.maxCycles = some 1 ∧ ¬ KeepsTo endless 1
      ∧ (tick^[1] endless.run).running = true
      ∧ (tick^[2] endless.run).machine = endless.machine.after 2 := by
  obtain ⟨-, hlimit⟩ := limit_decides_nothing { maxCycles := some 1 } [Opcode.jmp.byte, 0] []
  obtain ⟨-, -, hkeeps, hpast⟩ := hlimit 1 rfl
  have hgoes : ¬ ∃ k ≤ 1, Stops endless.breakpoints endless.machine k := by
    rintro ⟨k, hk, hstops⟩
    have hall : ∀ k < 2, ¬ Stops endless.breakpoints endless.machine k := by decide +kernel
    exact hall k (Nat.lt_succ_of_le hk) hstops
  have hnot : ¬ KeepsTo endless 1 := mt hkeeps.mp hgoes
  exact ⟨rfl, hnot, hpast hnot⟩

/-- The limit is not always honoured: nothing but the program stops continuous execution. -/
theorem limit_not_honoured :
    ¬ ∀ config program commands (limit : UInt64), config.maxCycles = some limit →
      let d := (start config program).commanded commands
      ∀ n, (tick^[n] d.run).machine.cycles.toNat ≤ d.machine.cycles.toNat + limit.toNat
        ∧ ((tick^[n] d.run).machine.cycles.toNat = d.machine.cycles.toNat + limit.toNat →
            (tick^[n + 1] d.run).running = false) := by
  intro honoured
  obtain ⟨hcycles, -⟩ := honoured { maxCycles := some 1 } [Opcode.jmp.byte, 0] [] 1 rfl 2
  exact absurd hcycles (by decide +kernel)

end Debugger

end EightBit
