import EightBit.Opcode

/-!
# EightBit.Opcode.Action -- what the machine does for an instruction

An opcode names an instruction; its **action** is what the engine does for it. A **profile** is the
subset of the instruction set that a machine implements: an instruction outside the profile is
still recognised, but has no action there.
-/

namespace EightBit

/-! ## Conditions and actions -/

/-- A test of the condition flags. -/
inductive Condition
  | equal | notEqual | greater | less | lessOrEqual | greaterOrEqual
deriving DecidableEq, Repr

/-- Whether the flags satisfy the condition. -/
def Condition.holds (c : Condition) (f : Flags) : Bool :=
  match c with
  | .equal => f.equal
  | .notEqual => !f.equal
  | .greater => f.greater
  | .less => f.less
  | .lessOrEqual => f.less || f.equal
  | .greaterOrEqual => f.greater || f.equal

/-- What the engine does for an instruction. -/
inductive Action
  | nop
  | halt
  /-- Loads the second operand byte itself into the first register. -/
  | loadImmediate
  /-- Loads the cell that the second register addresses into the first. -/
  | load
  /-- Stores the second register in the cell that the first addresses. -/
  | store
  | push
  | pop
  /-- Writes a register as a decimal number on a line of its own. -/
  | printNumber
  /-- Writes a register as a single character. -/
  | printChar
  | alu (op : AluOp)
  | call
  | ret
  /-- Raises the interrupt whose number a register holds. -/
  | raise
  | returnFromInterrupt
  /-- Jumps to the operand byte itself. -/
  | jump
  /-- Jumps to the address a register holds if the flags satisfy the condition. -/
  | jumpIf (condition : Condition)
deriving DecidableEq, Repr

/-- The action of a named instruction. -/
def Opcode.action : Opcode → Action
  | .nop => .nop
  | .hlt => .halt
  | .ldi => .loadImmediate
  | .ld => .load
  | .st => .store
  | .push => .push
  | .pop => .pop
  | .prn => .printNumber
  | .pra => .printChar
  | .add => .alu .add
  | .sub => .alu .sub
  | .mul => .alu .mul
  | .div => .alu .div
  | .mod => .alu .mod
  | .inc => .alu .inc
  | .dec => .alu .dec
  | .cmp => .alu .cmp
  | .and => .alu .and
  | .not => .alu .not
  | .or => .alu .or
  | .xor => .alu .xor
  | .shl => .alu .shl
  | .shr => .alu .shr
  | .call => .call
  | .ret => .ret
  | .int => .raise
  | .iret => .returnFromInterrupt
  | .jmp => .jump
  | .jeq => .jumpIf .equal
  | .jne => .jumpIf .notEqual
  | .jgt => .jumpIf .greater
  | .jlt => .jumpIf .less
  | .jle => .jumpIf .lessOrEqual
  | .jge => .jumpIf .greaterOrEqual

/-! ## Profiles -/

/-- Which part of the instruction set a machine implements. -/
inductive Profile
  /-- Every named instruction. -/
  | full
  /-- Only `HLT`, `LDI`, `PUSH`, `POP`, `PRN`, `MUL` and `JMP`. -/
  | baseline
deriving DecidableEq, Repr

namespace Profile

/-- Whether the profile implements an instruction. -/
def implements : Profile → Opcode → Bool
  | .full, _ => true
  | .baseline, .hlt | .baseline, .ldi | .baseline, .push | .baseline, .pop => true
  | .baseline, .prn | .baseline, .mul | .baseline, .jmp => true
  | .baseline, _ => false

/-- The action of an instruction under the profile; none if it is recognised but not implemented. -/
def action? (p : Profile) (op : Opcode) : Option Action :=
  if p.implements op then some op.action else none

/-- The instructions a machine recognises, in the order of their bytes. -/
def recognised : List Opcode :=
  (List.range 256).filterMap (fun n => Opcode.ofByte? (UInt8.ofNat n))

/-- The number of instructions that have an action under the profile. -/
def actionCount (p : Profile) : Nat :=
  recognised.countP (fun op => (p.action? op).isSome)

/-- The word for the profile in configurations and machine descriptions. -/
def name : Profile → String
  | .full => "full"
  | .baseline => "baseline"

end Profile

end EightBit
