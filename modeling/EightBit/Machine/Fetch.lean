import EightBit.Machine

/-!
# EightBit.Machine.Fetch -- fetching and decoding

A cycle fetches the byte at the program counter and then, whatever that byte is, the two bytes
after it, as far as they exist. Whether a missing operand byte matters is decided afterwards, from
the number of operands the opcode announces.
-/

namespace EightBit

/-- The bytes that a cycle fetched. -/
structure Fetched where
  /-- The address of the opcode byte. -/
  pc : Nat
  /-- The opcode byte. -/
  code : UInt8
  /-- The byte after the opcode, if memory goes that far. -/
  first : Option UInt8
  /-- The byte after that, if memory goes that far. -/
  second : Option UInt8
deriving DecidableEq, Repr

/-- An instruction ready to be executed; an operand it does not have is zero. -/
structure Instruction where
  pc : Nat
  opcode : Opcode
  action : Action
  a : UInt8
  b : UInt8
deriving DecidableEq, Repr

/-- What the fetched bytes mean to a machine. -/
inductive Decoded
  /-- The opcode byte names no instruction, and the machine passes over it. -/
  | unnamed
  | instruction (i : Instruction)
deriving DecidableEq, Repr

namespace Memory

/-- The memory after reading a checked address, if a cell has it. -/
def latchIfPresent (m : Memory) (address : Nat) : Memory :=
  match m.read address with
  | .ok (_, m) => m
  | .error _ => m

end Memory

/-- Fetches the opcode byte and the bytes after it; a program counter that no cell has is a fault
that changes nothing. -/
def Machine.fetch (m : Machine) : Except Fault (Fetched × Machine) :=
  let pc := m.regs.pc
  match m.mem.read pc with
  | .error cause => .error (.memory cause)
  | .ok (code, mem) =>
    let fetched : Fetched :=
      ⟨pc, code, (m.mem.peek (pc + 1)).toOption, (m.mem.peek (pc + 2)).toOption⟩
    let mem := (mem.latchIfPresent (pc + 1)).latchIfPresent (pc + 2)
    .ok (fetched, { m with mem, regs := { m.regs with ir := code } })

namespace Fetched

/-- The operand byte at distance `i` from the opcode: zero if the opcode announces none there, a
fault if it announces one that memory does not have. -/
def operand (f : Fetched) (i : Nat) (byte : Option UInt8) : Except Fault UInt8 :=
  if operandCount f.code < i then .ok 0
  else match byte with
    | some value => .ok value
    | none => .error (.memory ⟨f.pc + i⟩)

/-- Decodes the fetched bytes. A byte that names no instruction is a fault for a strict machine
only; a named instruction is checked against the profile before its operands are looked at. -/
def decode (f : Fetched) (config : Configuration) : Except Fault Decoded :=
  match Opcode.ofByte? f.code with
  | none => if config.strict then .error (.invalidInstruction f.code f.pc) else .ok .unnamed
  | some opcode =>
    match config.profile.action? opcode with
    | none => .error (.unimplemented opcode f.pc)
    | some action => do
      let a ← f.operand 1 f.first
      let b ← f.operand 2 f.second
      return .instruction ⟨f.pc, opcode, action, a, b⟩

end Fetched

end EightBit
