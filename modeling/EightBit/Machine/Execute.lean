import EightBit.Machine

/-!
# EightBit.Machine.Execute -- the effect of each action

An action runs in a monad that keeps the machine when it faults, so that what an action had
already changed before a fault would stay changed. Every action therefore checks before it writes:
the registers its operands name, the divisor, the return address, the interrupt's number.
-/

namespace EightBit

/-- What an instruction writes to the console. -/
inductive Output
  /-- A decimal number on a line of its own. -/
  | number (value : UInt8)
  /-- The character with this code. -/
  | char (code : UInt8)
deriving DecidableEq, Repr

/-- The text of an output. -/
def Output.text : Output → String
  | .number value => toString value.toNat ++ "\n"
  | .char code => String.singleton (Char.ofUInt8 code)

/-- The bytes of an output's text. -/
def Output.bytes (o : Output) : List UInt8 :=
  o.text.toByteArray.data.toList

/-- A computation on a machine that may fault, and keeps the machine as it was left if it does. -/
abbrev Exec := EStateM Fault Machine

namespace Exec

/-! ## Steps of an action -/

/-- The register that an operand byte names. -/
def register (r : UInt8) : Exec RegisterIndex :=
  match RegisterIndex.ofByte r with
  | .ok i => pure i
  | .error cause => throw (.register cause)

/-- The value of the register that an operand byte names. -/
def readRegister (r : UInt8) : Exec UInt8 := do
  let i ← register r
  return (← get).regs.get i

/-- Puts a value in the register that an operand byte names. -/
def writeRegister (r value : UInt8) : Exec Unit := do
  let i ← register r
  modify (·.setRegister i value)

/-- Reads a cell and latches it. -/
def readCell (a : UInt8) : Exec UInt8 := do
  modify fun m => { m with mem := m.mem.latch a }
  return (← get).mem.cell a

/-- Pops a byte off the stack. -/
def popByte : Exec UInt8 := modifyGet Machine.pop

/-- Runs an operation of the arithmetic unit on the registers that `a` and `b` name, and writes its
output back: a value to the first register, a comparison to the flags. The second register is
looked up only if the operation reads one. -/
def runAlu (op : AluOp) (a b : UInt8) : Exec Unit := do
  let target ← register a
  let left := (← get).regs.get target
  let right ← if op.isBinary then readRegister b else pure 0
  match op.apply left right with
  | .error cause => throw (.alu cause)
  | .ok (.value value) => modify (·.setRegister target value)
  | .ok (.flags fl) => modify fun m => { m with regs := { m.regs with fl } }

/-- Pops the registers of a list in turn. -/
def popRegisters : List RegisterIndex → Exec Unit
  | [] => pure ()
  | i :: rest => do
    let value ← popByte
    modify (·.setRegister i value)
    popRegisters rest

end Exec

/-! ## Actions -/

open Exec in
/-- The effect of an action with operand bytes `a` and `b`, and what it writes to the console. -/
def Action.execute (action : Action) (a b : UInt8) : Exec (Option Output) :=
  match action with
  | .nop => return none
  | .halt => do
    modify fun m => { m with phase := .halted }
    return none
  | .loadImmediate => do
    writeRegister a b
    return none
  | .load => do
    let address ← readRegister b
    let target ← register a
    let value ← readCell address
    modify (·.setRegister target value)
    return none
  | .store => do
    let address ← readRegister a
    let value ← readRegister b
    modify fun m => { m with mem := m.mem.setCell address value }
    return none
  | .push => do
    let value ← readRegister a
    modify (·.push value)
    return none
  | .pop => do
    let target ← register a
    let value ← popByte
    modify (·.setRegister target value)
    return none
  | .printNumber => do
    return some (.number (← readRegister a))
  | .printChar => do
    return some (.char (← readRegister a))
  | .alu op => do
    runAlu op a b
    return none
  | .call => do
    let target ← readRegister a
    let back := (← get).regs.pc + 2
    if back < 256 then
      modify fun m => (m.push (UInt8.ofNat back)).jump target
      return none
    else throw (.memory ⟨back⟩)
  | .ret => do
    let target ← popByte
    modify (·.jump target)
    return none
  | .raise => do
    let number ← readRegister a
    if number.toNat < 8 then
      modify fun m =>
        (m.setRegister interruptStatus (m.regs.get interruptStatus ||| (1 <<< number))).advance 1
      return none
    else throw (.invalidInterrupt number)
  | .returnFromInterrupt => do
    popRegisters savedRegisters.reverse
    let flags ← popByte
    let target ← popByte
    modify fun m => (m.jump target).leaveHandler (Flags.ofByte flags)
    return none
  | .jump => do
    modify (·.jump a)
    return none
  | .jumpIf condition => do
    if condition.holds (← get).regs.fl then
      let target ← readRegister a
      modify (·.jump target)
    else modify (·.advance 1)
    return none

/-- Runs an operation of the arithmetic unit on a machine, outside any instruction. -/
def Machine.alu (m : Machine) (op : AluOp) (a b : UInt8) : Except Fault Unit × Machine :=
  match (Exec.runAlu op a b).run m with
  | .ok () m => (.ok (), m)
  | .error fault m => (.error fault, m)

end EightBit
