/-
# EightBit.Proofs.Breakpoints -- where a running debugger does not stop

A tick compares the breakpoints with the program counter it finds. The instruction it then executes is
the one that the cycle fetches, and this is the same address unless the cycle delivers an interrupt
first. So of the instructions at breakpoints a debugger executes two kinds: the one that it has just
been resumed from, and the first of an interrupt handler, at which it does not stop although the
breakpoint is there.

Sessions are sequences of calls on a new debugger. What carries over from one call to the next is that
no tick leaves a running debugger with an address to pass over: where there is one, the last call was
`run`.
-/
import EightBit.Proofs.Faults
import EightBit.Proofs.Ticks

namespace EightBit

namespace Machine

variable {m m' : Machine}

/-- An instruction is executed at the address that the cycle fetches from. -/
theorem executed_pc {pc : Nat} {op : Opcode} {out : Option Output}
    (h : m.step = (.ok (.executed pc op out), m')) : pc = m.fetchAddress := by
  obtain ⟨-, hcycle⟩ := cycle_of_step h
  cases hcycle with
  | executed hpc => exact entry_pc hpc

/-- A step that succeeds is counted, so it does not leave the machine as it was. -/
theorem ne_of_step_ok {s : Step} (h : m.step = (.ok s, m')) : m' ≠ m := by
  rintro rfl
  have hcycles : m'.cycles = m'.cycles + 1 := (cycle_of_step h).2.cycles
  exact absurd (left_eq_add.mp hcycles) (by decide)

end Machine

namespace Debugger

/-! ## Sessions -/

/-- What is asked of a debugger in continuous execution. -/
inductive Call
  | run
  | tick
deriving DecidableEq, Repr

/-- The debugger after a call. -/
def perform (d : Debugger) : Call → Debugger
  | .run => d.run
  | .tick => d.tick

/-- A new debugger with some breakpoints, after some calls. -/
def session (config : Configuration) (program : List UInt8) (bs : Breakpoints)
    (calls : List Call) : Debugger :=
  calls.foldl perform { start config program with breakpoints := bs }

/-- The next tick executes the instruction at `pc`: it steps the machine, and the step reports this
instruction. -/
def Executes (d : Debugger) (pc : Nat) : Prop :=
  ∃ op out, d.machine.step = (.ok (.executed pc op out), d.tick.machine)

section Sessions

variable {config : Configuration} {program : List UInt8} {bs : Breakpoints} {calls : List Call}

theorem session_concat (calls : List Call) (c : Call) :
    session config program bs (calls ++ [c]) = (session config program bs calls).perform c :=
  List.foldl_concat ..

theorem session_breakpoints : (session config program bs calls).breakpoints = bs := by
  induction calls using List.reverseRecOn with
  | nil => rfl
  | append_singleton calls c ih =>
    rw [session_concat]
    cases c with
    | run => exact ih
    | tick => exact (tick_spec _).breakpoints.trans ih

/-- In a session that runs, there is an address to pass over only right after `run`. -/
theorem getLast?_of_resumeFrom {pc : Nat} (hrun : (session config program bs calls).running = true)
    (hresume : (session config program bs calls).resumeFrom = some pc) :
    calls.getLast? = some .run := by
  cases calls using List.reverseRecOn with
  | nil => cases hrun
  | append_singleton calls c =>
    rw [List.getLast?_concat]
    cases c with
    | run => rfl
    | tick =>
      rw [session_concat] at hrun hresume
      rcases (session config program bs calls).tick_spec.running_or_resumeFrom with h | h
      · cases hrun.symm.trans h
      · cases hresume.symm.trans h

/-- At a breakpoint, only the tick that follows `run` can step the machine. -/
theorem session_tick_of_breakpoint (hpc : (session config program bs calls).machine.regs.pc ∈ bs)
    (hlast : calls.getLast? ≠ some .run) :
    (session config program bs calls).tick.machine = (session config program bs calls).machine
      ∧ (session config program bs calls).tick.running = false := by
  cases hrun : (session config program bs calls).running with
  | false =>
    rw [tick_of_idle hrun]
    exact ⟨rfl, hrun⟩
  | true =>
    have hrest : AtRest (session config program bs calls) := by
      refine .inr ⟨session_breakpoints.symm ▸ hpc, ?_⟩
      intro hresume
      exact hlast (getLast?_of_resumeFrom hrun hresume)
    obtain ⟨hmachine, -, hidle⟩ := (tick_spec _).of_atRest hrest
    exact ⟨hmachine, hidle⟩

/-- **Where a session stops, and where it passes.** A tick stops where it finds the program counter at
a breakpoint, unless it is the first tick after `run`. If it does execute the instruction at a
breakpoint, then either it is this first tick and the instruction is where `run` was called, or the tick
delivers an interrupt first, whose handler begins there. -/
theorem session_stops_or_passes (config : Configuration) (program : List UInt8) (bs : Breakpoints)
    (calls : List Call) :
    let d := session config program bs calls
    (d.machine.regs.pc ∈ bs → calls.getLast? ≠ some .run →
      d.tick.machine = d.machine ∧ d.tick.running = false)
    ∧ ∀ pc, d.Executes pc → pc ∈ bs →
      (calls.getLast? = some .run ∧ pc = d.machine.regs.pc)
      ∨ ∃ n, d.machine.pendingInterrupt? = some n
          ∧ pc = (d.machine.mem.cell (vectorBase + UInt8.ofNat n)).toNat := by
  intro d
  refine ⟨session_tick_of_breakpoint, ?_⟩
  rintro pc ⟨op, out, hstep⟩ hpc
  have hfetch : pc = d.machine.fetchAddress := Machine.executed_pc hstep
  cases hdue : d.machine.pendingInterrupt? with
  | none =>
    have hsame : pc = d.machine.regs.pc := by rwa [Machine.fetchAddress, hdue] at hfetch
    refine .inl ⟨?_, hsame⟩
    by_contra hlast
    obtain ⟨hkept, -⟩ := session_tick_of_breakpoint (hsame ▸ hpc) hlast
    exact Machine.ne_of_step_ok hstep hkept
  | some n =>
    rw [Machine.fetchAddress, hdue] at hfetch
    exact .inr ⟨n, rfl, hfetch⟩

end Sessions

/-- A program that raises interrupt 0, whose vector points to address 0. -/
def raising : List UInt8 := [Opcode.ldi.byte, 5, 1, Opcode.ldi.byte, 6, 1]

theorem executes_raising : (session {} raising [0] [.run, .tick, .tick]).Executes 0 := by
  -- the machine after the tick is that of a step by `Stepped`, not by comparing the two cell by cell
  generalize hd : session {} raising [0] [.run, .tick, .tick] = d
  obtain ⟨hresume, hrun, hrest, hstep⟩ : d.resumeFrom = none ∧ d.running = true ∧ ¬ AtRest d
      ∧ d.machine.step.1 = .ok (.executed 0 .ldi none) := by
    subst hd
    decide +kernel
  obtain ⟨hm, htick⟩ := d.tick_spec.of_not_atRest hresume (.inl hrun) hrest
  exact ⟨.ldi, none, Prod.ext hstep (htick ▸ (step_stepped hm).machine.symm)⟩

theorem session_stops_or_passes_raising :
    let stops := session {} raising [3] [.run, .tick]
    let passes := session {} raising [0] [.run, .tick, .tick]
    stops.machine.regs.pc = 3 ∧ stops.tick.machine = stops.machine ∧ stops.tick.running = false
      ∧ passes.machine.regs.pc = 6 ∧ passes.Executes 0
      ∧ ∃ n, passes.machine.pendingInterrupt? = some n
          ∧ 0 = (passes.machine.mem.cell (vectorBase + UInt8.ofNat n)).toNat := by
  have hat : (session {} raising [3] [.run, .tick]).machine.regs.pc = 3 := by decide +kernel
  obtain ⟨hstops, -⟩ := session_stops_or_passes {} raising [3] [.run, .tick]
  obtain ⟨-, hpasses⟩ := session_stops_or_passes {} raising [0] [.run, .tick, .tick]
  obtain ⟨hkept, hidle⟩ := hstops (List.mem_singleton.mpr hat) (by decide)
  refine ⟨hat, hkept, hidle, by decide +kernel, executes_raising, ?_⟩
  rcases hpasses 0 executes_raising (by decide) with ⟨hlast, -⟩ | hdue
  · cases hlast
  · exact hdue

/-- Breakpoints are not always honoured: a handler is entered over the breakpoint at its start. -/
theorem breakpoint_not_honoured :
    ¬ ∀ config program bs calls pc, (session config program bs calls).Executes pc → pc ∈ bs →
      calls.getLast? = some .run ∧ pc = (session config program bs calls).machine.regs.pc := by
  intro honoured
  obtain ⟨hlast, -⟩ := honoured _ _ _ _ 0 executes_raising (by decide)
  cases hlast

end Debugger

end EightBit
