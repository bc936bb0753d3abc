import EightBit.Machine.Cycle
import EightBit.Program.Disassembly

/-!
# EightBit.Debugger -- stepping and running a machine with breakpoints

A debugger drives a machine a cycle at a time and keeps what the machine has written. While it is
**running**, every tick does one cycle, unless the program counter is at a breakpoint; the tick
that follows a call of `run` passes over the breakpoint it resumes from.

What the debugger last had to say is a **status**, a value whose text is shown.
-/

namespace EightBit

/-! ## Breakpoints -/

/-- A set of addresses, in ascending order. -/
abbrev Breakpoints := List Nat

namespace Breakpoints

/-- The set with one more address. -/
def add (address : Nat) : Breakpoints → Breakpoints
  | [] => [address]
  | b :: rest =>
    if address < b then address :: b :: rest
    else if address = b then b :: rest
    else b :: add address rest

/-- The set without an address. -/
def remove (address : Nat) (bs : Breakpoints) : Breakpoints :=
  bs.filter (· != address)

theorem mem_add {address b : Nat} {bs : Breakpoints} :
    b ∈ add address bs ↔ b = address ∨ b ∈ bs := by
  induction bs with
  | nil => simp [add]
  | cons c rest ih =>
    unfold add
    split
    · simp
    · split
      · next h => simp [h]
      · simp only [List.mem_cons, ih]
        grind

theorem mem_remove {address b : Nat} {bs : Breakpoints} :
    b ∈ remove address bs ↔ b ∈ bs ∧ b ≠ address := by
  simp [remove]

end Breakpoints

/-! ## Status -/

/-- What a debugger last had to say. -/
inductive Status
  /-- The program is loaded. -/
  | ready
  | loadFailed (cause : OutOfBounds)
  /-- An instruction ran; one that places the program counter is shown with where it placed it. -/
  | executed (pc : Nat) (code : Disassembled) (placed : Option Nat)
  | skipped (pc : Nat) (byte : UInt8)
  | failed (fault : Fault)
  /-- A step was asked of a halted machine. -/
  | halted (cycles : UInt64)
  | running
  /-- A tick found the machine halted. -/
  | finished (cycles : UInt64)
  | breakpoint (pc : Nat)
  | breakpointSet (pc : Nat)
  | breakpointRemoved (pc : Nat)
deriving DecidableEq, Repr

/-- The text of a status. -/
def Status.text : Status → String
  | .ready => "Ready. Press 's' to step, 'r' to run, 'q' to quit."
  | .loadFailed cause => "Failed to load program: " ++ cause.message
  | .executed pc code placed =>
    let shown := "PC=" ++ Text.hex pc ++ ": " ++ code.text
    match placed with
    | some target => shown ++ "  -> " ++ Text.hex target
    | none => shown
  | .skipped pc byte =>
    "PC=" ++ Text.hex pc ++ ": invalid instruction " ++ Text.binaryByte byte ++ ", skipped"
  | .failed fault => "Error: " ++ fault.message
  | .halted cycles => "CPU halted after " ++ toString cycles.toNat ++ " cycles"
  | .running => "Running..."
  | .finished cycles => "Halted after " ++ toString cycles.toNat ++ " cycles"
  | .breakpoint pc => "Breakpoint at PC=" ++ Text.hex pc
  | .breakpointSet pc => "Set breakpoint at PC=" ++ Text.hex pc
  | .breakpointRemoved pc => "Removed breakpoint at PC=" ++ Text.hex pc

/-! ## Debuggers -/

/-- A debugging session. -/
structure Debugger where
  machine : Machine
  /-- The program that a reset loads again. -/
  program : List UInt8
  breakpoints : Breakpoints
  /-- What the machine has written. -/
  console : String
  running : Bool
  status : Status
  /-- The first row of the memory view. -/
  scroll : Nat
  /-- The address whose breakpoint the next tick passes over. -/
  resumeFrom : Option Nat

namespace Debugger

/-- The number of rows of the memory view, 16 cells each. -/
def memoryRows : Nat := 16

/-- A machine at power-on with a program, and what there is to say about loading it. -/
def boot (config : Configuration) (program : List UInt8) : Machine × Status :=
  let fresh := Machine.powerOn config
  match fresh.load program with
  | .ok m => (m, .ready)
  | .error cause => (fresh, .loadFailed cause)

/-- A session on a program. -/
def start (config : Configuration) (program : List UInt8) : Debugger :=
  let (machine, status) := boot config program
  { machine, program, breakpoints := [], console := "", running := false, status, scroll := 0,
    resumeFrom := none }

/-- The session with a fresh machine; breakpoints and the memory view stay. -/
def reset (d : Debugger) : Debugger :=
  let (machine, status) := boot d.machine.config d.program
  { d with machine, console := "", running := false, status, resumeFrom := none }

/-- One cycle of the machine. The status shows the instruction as it stands in memory after the
cycle. -/
def step (d : Debugger) : Debugger :=
  if d.machine.isHalted then
    { d with status := .halted d.machine.cycles, running := false }
  else
    let (outcome, machine) := d.machine.step
    match outcome with
    | .ok (.executed pc opcode output) =>
      let placed := if placesCounter opcode.byte then some machine.regs.pc else none
      let written := match output with
        | some output => output.text
        | none => ""
      { d with
        machine
        status := .executed pc (disassembleAt machine.mem.toList pc) placed
        console := d.console ++ written }
    | .ok (.skipped pc byte) => { d with machine, status := .skipped pc byte }
    | .error fault => { d with machine, status := .failed fault, running := false }

/-- Starts running from where the machine is. -/
def run (d : Debugger) : Debugger :=
  { d with running := true, resumeFrom := some d.machine.regs.pc, status := .running }

/-- One cycle of running; it does nothing unless the debugger runs, and ends the running at a halt
or at a breakpoint that is not the one resumed from. -/
def tick (d : Debugger) : Debugger :=
  if !d.running then d
  else if d.machine.isHalted then
    { d with running := false, status := .finished d.machine.cycles }
  else
    let pc := d.machine.regs.pc
    if d.breakpoints.contains pc && d.resumeFrom != some pc then
      { d with running := false, status := .breakpoint pc, resumeFrom := none }
    else step { d with resumeFrom := none }

/-- Sets a breakpoint at the program counter, or removes the one there. -/
def toggleBreakpoint (d : Debugger) : Debugger :=
  let pc := d.machine.regs.pc
  if d.breakpoints.contains pc then
    { d with breakpoints := d.breakpoints.remove pc, status := .breakpointRemoved pc }
  else { d with breakpoints := d.breakpoints.add pc, status := .breakpointSet pc }

/-- Moves the memory view by some rows, within memory. -/
def scrollBy (d : Debugger) (rows : Int) : Debugger :=
  { d with scroll := (min (max (d.scroll + rows) 0) (memoryRows - 1 : Nat)).toNat }

/-! ## Disassembly from the program counter -/

/-- What stands at an address and after it, up to `count` instructions. -/
def sweep (bytes : List UInt8) : (count address : Nat) → List (Nat × Disassembled)
  | 0, _ => []
  | count + 1, address =>
    if address < bytes.length then
      let code := disassembleAt bytes address
      (address, code) :: sweep bytes count (address + code.length)
    else []

/-- A line of the disassembly from the program counter. -/
structure WindowLine where
  address : Nat
  code : Disassembled
  /-- Whether it is the line of the program counter. -/
  current : Bool
deriving DecidableEq, Repr

/-- What stands at the program counter and after it, up to `count` instructions. -/
def window (d : Debugger) (count : Nat) : List WindowLine :=
  (sweep d.machine.mem.toList count d.machine.regs.pc).map fun (address, code) =>
    { address, code, current := address == d.machine.regs.pc }

end Debugger

end EightBit
