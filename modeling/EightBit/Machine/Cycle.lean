import EightBit.Machine.Execute
import EightBit.Machine.Fetch
import EightBit.Machine.Interrupt

/-!
# EightBit.Machine.Cycle -- one cycle from interrupt to program counter

A cycle delivers a due interrupt, fetches, decodes and executes, and then moves the program counter
past the instruction unless the opcode places it itself. What happened is a **report**, a value,
and everything that is ever said about a cycle is said from its report.
-/

namespace EightBit

/-- What a successful cycle did. -/
inductive Step
  /-- The instruction at `pc` ran. -/
  | executed (pc : Nat) (opcode : Opcode) (output : Option Output)
  /-- The byte at `pc` names no instruction and was passed over. -/
  | skipped (pc : Nat) (byte : UInt8)
deriving DecidableEq, Repr

/-- What a step writes to the console. -/
def Step.output : Step → Option Output
  | .executed _ _ output => output
  | .skipped _ _ => none

/-- What happened in a cycle. -/
structure Report where
  /-- The interrupt that was delivered first. -/
  dispatch : Option Dispatch
  /-- The instruction that was decoded. -/
  instruction : Option Instruction
  outcome : Except Fault Step

namespace Machine

/-- Executes a decoded instruction and completes the cycle; after a fault the machine stays as the
fault left it. -/
def perform (m : Machine) (i : Instruction) : Except Fault Step × Machine :=
  match (i.action.execute i.a i.b).run m with
  | .error fault m => (.error fault, m)
  | .ok output m =>
    let m := if placesCounter i.opcode.byte then m else m.advance i.opcode.arity
    (.ok (.executed i.pc i.opcode output), m.tally)

/-- One cycle. -/
def cycle (m : Machine) : Report × Machine :=
  match m.takeInterrupt with
  | .error fault => (⟨none, none, .error fault⟩, m)
  | .ok (dispatch, m) =>
    match m.fetch with
    | .error fault => (⟨dispatch, none, .error fault⟩, m)
    | .ok (fetched, m) =>
      match fetched.decode m.config with
      | .error fault => (⟨dispatch, none, .error fault⟩, m)
      | .ok .unnamed =>
        (⟨dispatch, none, .ok (.skipped fetched.pc fetched.code)⟩,
          (m.advance (operandCount fetched.code)).tally)
      | .ok (.instruction i) =>
        let (outcome, m) := m.perform i
        (⟨dispatch, some i, outcome⟩, m)

/-- Tries one cycle. A halted machine stays as it is; any other is running from here on, and
halted if the cycle faults. -/
def attempt (m : Machine) : Report × Machine :=
  if m.isHalted then (⟨none, none, .error .notRunning⟩, m)
  else
    let (report, m) := { m with phase := .running : Machine }.cycle
    match report.outcome with
    | .ok _ => (report, m)
    | .error _ => (report, { m with phase := .halted })

/-- Tries one cycle, and says only whether and how it succeeded. -/
def step (m : Machine) : Except Fault Step × Machine :=
  let (report, m) := m.attempt
  (report.outcome, m)

end Machine

end EightBit
