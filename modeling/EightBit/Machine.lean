import EightBit.Configuration
import EightBit.Memory
import EightBit.Registers

/-!
# EightBit.Machine -- the machine, its faults, and its stack

A machine is its registers, its memory, where it stands in its life, the count of its completed
cycles, and the configuration it was built with.

Memory and registers are reached by bytes wherever the machine itself forms the address, and then
no access can miss. In particular the stack pointer is a byte, so pushing and popping never fail:
a stack that runs below address zero goes on at the top of memory.
-/

namespace EightBit

/-- Where a machine stands in its life. -/
inductive Phase
  /-- No cycle has been tried yet. -/
  | ready
  /-- Cycling. -/
  | running
  /-- Stopped for good, by an instruction or by a fault. -/
  | halted
deriving DecidableEq, Repr

/-- The word for a phase. -/
def Phase.name : Phase → String
  | .ready => "Ready"
  | .running => "Running"
  | .halted => "Halted"

/-- An emulated machine. -/
structure Machine where
  regs : Registers
  mem : Memory
  phase : Phase
  /-- The number of completed cycles. -/
  cycles : UInt64
  config : Configuration
deriving DecidableEq

/-! ## Faults -/

/-- The wording of an address that no cell has. -/
def OutOfBounds.message (e : OutOfBounds) : String :=
  "memory address " ++ Text.address e.address ++ " out of bounds (0x00-0xff)"

/-- The wording of a byte that is the number of no register. -/
def InvalidRegister.message (e : InvalidRegister) : String :=
  "invalid register R" ++ toString e.index.toNat ++ " (expected R0-R7)"

/-- Why a writer takes no more output. -/
inductive SinkError
  /-- There is no room left. -/
  | full
deriving DecidableEq, Repr

/-- The wording of a writer's refusal. -/
def SinkError.message : SinkError → String
  | .full => "sink full"

/-- Why a cycle, or a run of cycles, does not succeed. -/
inductive Fault
  /-- The machine has halted before. -/
  | notRunning
  | memory (cause : OutOfBounds)
  | register (cause : InvalidRegister)
  | alu (cause : AluError)
  /-- A strict machine met a byte that names no instruction. -/
  | invalidInstruction (byte : UInt8) (pc : Nat)
  /-- The instruction is outside the machine's profile. -/
  | unimplemented (opcode : Opcode) (pc : Nat)
  /-- An interrupt was raised whose number is above 7. -/
  | invalidInterrupt (number : UInt8)
  /-- The writer did not take all of a cycle's output. -/
  | output (cause : SinkError)
deriving DecidableEq, Repr

/-- The wording of a fault. -/
def Fault.message : Fault → String
  | .notRunning => "CPU not running: " ++ Phase.halted.name
  | .memory cause => "memory error: " ++ cause.message
  | .register cause => "register error: " ++ cause.message
  | .alu cause => "ALU error: " ++ cause.message
  | .invalidInstruction byte pc =>
    "invalid instruction " ++ Text.binaryByte byte ++ " at " ++ Text.address pc
  | .unimplemented opcode pc =>
    "unimplemented instruction " ++ opcode.mnemonic ++ " at " ++ Text.address pc
  | .invalidInterrupt number =>
    "invalid interrupt number " ++ toString number.toNat ++ " (expected 0-7)"
  | .output cause => "output error: " ++ cause.message

/-! ## Building and loading -/

namespace Machine

/-- A machine at power-on. -/
def powerOn (config : Configuration) : Machine where
  regs := Registers.powerOn
  mem := Memory.blank
  phase := .ready
  cycles := 0
  config := config

/-- The machine back at power-on, with the configuration it was built with. -/
def reset (m : Machine) : Machine :=
  { m with regs := Registers.powerOn, mem := m.mem.clear, phase := .ready, cycles := 0 }

/-- The machine with a program in memory from address zero on. -/
def load (m : Machine) (program : List UInt8) : Except OutOfBounds Machine :=
  (m.mem.load program).map fun mem => { m with mem }

/-- Whether the machine has stopped for good. -/
def isHalted (m : Machine) : Bool := m.phase == .halted

/-! ## Registers and stack -/

/-- The machine with `value` in a register. -/
def setRegister (m : Machine) (i : RegisterIndex) (value : UInt8) : Machine :=
  { m with regs := m.regs.set i value }

/-- The machine with its program counter at `target`. -/
def jump (m : Machine) (target : UInt8) : Machine :=
  { m with regs := m.regs.jump target }

/-- The machine with its program counter past an instruction of `operands` operand bytes. -/
def advance (m : Machine) (operands : Nat) : Machine :=
  { m with regs := m.regs.advance operands }

/-- The machine with these flags and with interrupts enabled, as a handler leaves it. -/
def leaveHandler (m : Machine) (fl : Flags) : Machine :=
  { m with regs := { m.regs with fl, interruptsEnabled := true } }

/-- The machine with one more completed cycle. -/
def tally (m : Machine) : Machine :=
  { m with cycles := m.cycles + 1 }

/-- The machine after pushing a byte: the stack pointer goes down, then the byte is stored there. -/
def push (m : Machine) (value : UInt8) : Machine :=
  let sp := m.regs.sp - 1
  { m with mem := m.mem.setCell sp value, regs := m.regs.setSp sp }

/-- The byte on top of the stack, and the machine after it has been read and the stack pointer has
gone up. -/
def pop (m : Machine) : UInt8 × Machine :=
  let sp := m.regs.sp
  (m.mem.cell sp, { m with mem := m.mem.latch sp, regs := m.regs.setSp (sp + 1) })

end Machine

end EightBit
