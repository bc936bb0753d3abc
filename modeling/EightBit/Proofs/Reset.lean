/-
# EightBit.Proofs.Reset -- a reset is a new start

Whatever has been asked of a machine, whether it was done or refused, all that a reset could let through
is the configuration, and nothing that can be asked changes that. So a machine that is reset is the
machine at power-on.

A debugger is reset to a machine of its own configuration with its own program, and neither is ever
replaced. It is the new debugger but for what it keeps on purpose: its breakpoints, which decide where it
will stop, and the scroll position of the memory view, which decides nothing. That is shown by letting
every command go through a change of the scroll position.
-/
import EightBit.Proofs.Calls
import EightBit.Proofs.Ticks

namespace EightBit

/-! ## Machines -/

/-- What can be asked of a machine. -/
inductive Request : Type 1
  | call (c : Call)
  /-- The program counter is assigned from outside. -/
  | setCounter (pc : Nat)

namespace Machine

/-- The machine with its program counter assigned from outside. -/
def setCounter (m : Machine) (pc : Nat) : Machine := { m with regs := { m.regs with pc } }

/-- The machine after a request, whatever comes of it. -/
def request (m : Machine) : Request → Machine
  | .call c => m.call c
  | .setCounter pc => m.setCounter pc

/-- The machine after some requests. -/
def requested (m : Machine) (requests : List Request) : Machine := requests.foldl request m

theorem request_config (m : Machine) (r : Request) : (m.request r).config = m.config := by
  cases r with
  | call c => exact m.call_config c
  | setCounter => rfl

theorem requested_config (m : Machine) (requests : List Request) :
    (m.requested requests).config = m.config := by
  induction requests generalizing m with
  | nil => rfl
  | cons r requests ih =>
    show ((m.request r).requested requests).config = m.config
    rw [ih, request_config]

/-- A reset keeps the configuration and nothing else. -/
theorem reset_eq_powerOn (m : Machine) : m.reset = powerOn m.config := rfl

end Machine

/-! ## Debuggers -/

namespace Debugger

/-- What can be asked of a debugger. -/
inductive Command
  | step
  | run
  | tick
  | toggle
  | setBreakpoint (address : Nat)
  | removeBreakpoint (address : Nat)
  | scroll (rows : Int)
  | reset
  /-- The flag is assigned from outside. -/
  | setRunning (running : Bool)
  /-- The program counter of the machine is assigned from outside. -/
  | setCounter (pc : Nat)

/-- The debugger after a command. -/
def command (d : Debugger) : Command → Debugger
  | .step => d.step
  | .run => d.run
  | .tick => d.tick
  | .toggle => d.toggleBreakpoint
  | .setBreakpoint address => { d with breakpoints := d.breakpoints.add address }
  | .removeBreakpoint address => { d with breakpoints := d.breakpoints.remove address }
  | .scroll rows => d.scrollBy rows
  | .reset => d.reset
  | .setRunning running => { d with running }
  | .setCounter pc => { d with machine := d.machine.setCounter pc }

/-- The debugger after some commands. -/
def commanded (d : Debugger) (commands : List Command) : Debugger := commands.foldl command d

/-! ## What a debugger never replaces -/

/-- A debugger of machines with the configuration `config`, on `program`. -/
structure Serves (config : Configuration) (program : List UInt8) (d : Debugger) : Prop where
  config : d.machine.config = config
  program : d.program = program

/-- Machine, console, flag and status apart, a step leaves a debugger as it was. -/
theorem step_eq (d : Debugger) : ∃ console running status,
    d.step = { d with machine := d.machine.step.2, console, running, status } := by
  cases hm : d.machine.isHalted with
  | true =>
    rw [step, if_pos hm, Machine.step_of_halted hm]
    exact ⟨_, _, _, rfl⟩
  | false =>
    rcases hstep : d.machine.step with ⟨r, m'⟩
    cases r with
    | error f =>
      rw [step_of_error hm hstep]
      exact ⟨_, _, _, rfl⟩
    | ok s =>
      obtain ⟨status, hd⟩ := step_of_ok hstep
      rw [hd]
      exact ⟨_, _, _, rfl⟩

theorem boot_config (config : Configuration) (program : List UInt8) :
    (boot config program).1.config = config := by
  have hcall : (Machine.orSame _ ((Machine.powerOn config).load program)).config = config :=
    (Machine.powerOn config).call_config (.load program)
  rw [boot]
  generalize (Machine.powerOn config).load program = loaded at hcall ⊢
  cases loaded with
  | error cause => rfl
  | ok m => exact hcall

namespace Serves

variable {config : Configuration} {program : List UInt8} {d : Debugger}

theorem start (config : Configuration) (program : List UInt8) :
    Serves config program (start config program) :=
  ⟨boot_config config program, rfl⟩

theorem step (h : Serves config program d) : Serves config program d.step := by
  obtain ⟨console, running, status, hd⟩ := d.step_eq
  rw [hd]
  exact ⟨d.machine.step_config.trans h.config, h.program⟩

theorem tick (h : Serves config program d) : Serves config program d.tick := by
  have htick := d.tick_spec
  generalize d.tick = d' at htick ⊢
  cases htick with
  | idle => exact h
  | finished | paused => exact ⟨h.config, h.program⟩
  | stepped => exact step (d := d.forget) ⟨h.config, h.program⟩

theorem toggle (h : Serves config program d) : Serves config program d.toggleBreakpoint := by
  rw [toggleBreakpoint]
  by_cases hpc : d.breakpoints.contains d.machine.regs.pc = true
  · rw [if_pos hpc]
    exact ⟨h.config, h.program⟩
  · rw [if_neg hpc]
    exact ⟨h.config, h.program⟩

theorem command (h : Serves config program d) (c : Command) :
    Serves config program (d.command c) := by
  cases c with
  | step => exact h.step
  | tick => exact h.tick
  | toggle => exact h.toggle
  | reset => exact ⟨(boot_config ..).trans h.config, h.program⟩
  | run | setBreakpoint | removeBreakpoint | scroll | setRunning | setCounter =>
    exact ⟨h.config, h.program⟩

theorem commanded (h : Serves config program d) (commands : List Command) :
    Serves config program (d.commanded commands) := by
  induction commands generalizing d with
  | nil => exact h
  | cons c commands ih => exact ih (h.command c)

end Serves

/-! ## What the scroll position decides -/

/-- A choice between debuggers that have both been changed by `f` is the choice between the two, changed
by `f`. -/
theorem ite_changed (f : Debugger → Debugger) {c : Prop} [Decidable c] {x y x' y' : Debugger}
    (hx : x' = f x) (hy : y' = f y) : (if c then x' else y') = f (if c then x else y) := by
  rw [hx, hy, apply_ite f]

/-- The debugger with the memory view at another row. -/
def withScroll (d : Debugger) (scroll : Nat) : Debugger := { d with scroll }

section Scroll

variable (d : Debugger) (scroll : Nat)

theorem step_withScroll : (d.withScroll scroll).step = d.step.withScroll scroll := by
  unfold step withScroll
  dsimp only
  split
  · rfl
  · generalize d.machine.step = performed
    obtain ⟨r, m'⟩ := performed
    rcases r with f | ⟨pc, op, out⟩ | ⟨pc, byte⟩ <;> rfl

theorem tick_withScroll : (d.withScroll scroll).tick = d.tick.withScroll scroll := by
  have hstep : (d.forget.withScroll scroll).step = d.forget.step.withScroll scroll :=
    d.forget.step_withScroll scroll
  let f := (withScroll · scroll)
  exact ite_changed f rfl (ite_changed f rfl (ite_changed f rfl hstep))

theorem toggle_withScroll :
    (d.withScroll scroll).toggleBreakpoint = d.toggleBreakpoint.withScroll scroll :=
  ite_changed (withScroll · scroll) rfl rfl

/-- Every command does the same wherever the memory view is. -/
theorem command_withScroll (c : Command) :
    ∃ scroll', (d.withScroll scroll).command c = (d.command c).withScroll scroll' := by
  cases c with
  | step => exact ⟨scroll, step_withScroll ..⟩
  | tick => exact ⟨scroll, tick_withScroll ..⟩
  | toggle => exact ⟨scroll, toggle_withScroll ..⟩
  | scroll => exact ⟨_, rfl⟩
  | run | setBreakpoint | removeBreakpoint | reset | setRunning | setCounter => exact ⟨scroll, rfl⟩

theorem commanded_withScroll (commands : List Command) : ∃ scroll',
    (d.withScroll scroll).commanded commands = (d.commanded commands).withScroll scroll' := by
  induction commands generalizing d scroll with
  | nil => exact ⟨scroll, rfl⟩
  | cons c commands ih =>
    obtain ⟨scroll₁, hone⟩ := d.command_withScroll scroll c
    obtain ⟨scroll', hrest⟩ := ih (d.command c) scroll₁
    refine ⟨scroll', ?_⟩
    show ((d.withScroll scroll).command c).commanded commands = _
    rw [hone]
    exact hrest

end Scroll

/-- A reset debugger is the new one with the breakpoints and the scroll position that it had. -/
theorem reset_eq_start {config : Configuration} {program : List UInt8} {d : Debugger}
    (h : Serves config program d) :
    d.reset = { start config program with breakpoints := d.breakpoints, scroll := d.scroll } := by
  obtain ⟨rfl, rfl⟩ := h
  rfl

/-- **A reset is a new start.** Whatever has been asked of a machine, resetting it gives the machine at
power-on. Whatever has been asked of a debugger, resetting it gives the new debugger with the breakpoints
and the scroll position that it had; and whatever is asked of the two afterwards, they differ in the
scroll position alone. -/
theorem reset_is_new_start (config : Configuration) :
    (∀ requests, ((Machine.powerOn config).requested requests).reset = Machine.powerOn config)
    ∧ ∀ program commands,
      let d := (start config program).commanded commands
      let new := { start config program with breakpoints := d.breakpoints }
      d.reset = { new with scroll := d.scroll }
      ∧ ∀ later, ∃ scroll, d.reset.commanded later = { new.commanded later with scroll } := by
  constructor
  · intro requests
    rw [Machine.reset_eq_powerOn, Machine.requested_config]
    rfl
  · intro program commands d new
    have hserves : Serves config program d := (Serves.start config program).commanded commands
    have hreset : d.reset = new.withScroll d.scroll := reset_eq_start hserves
    refine ⟨hreset, ?_⟩
    intro later
    rw [hreset]
    exact commanded_withScroll new d.scroll later

end Debugger

end EightBit
