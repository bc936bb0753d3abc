import EightBit.Alu

/-!
# EightBit.Opcode -- the named instructions and their encoding

An opcode is one byte laid out as `AABCDDDD`: `AA` counts the operand bytes that follow it, `B`
marks an instruction of the arithmetic unit, `C` marks one that places the program counter itself,
and `DDDD` tells the instructions of a group apart. The layout is a property of *every* byte,
named or not: a byte that names no instruction still says how many operands it would have.
-/

namespace EightBit

/-! ## What the bits of a byte say -/

/-- The number of operand bytes that the top two bits of `byte` announce. -/
def operandCount (byte : UInt8) : Nat :=
  (byte >>> 6).toNat

/-- Two bits announce at most three operands. -/
theorem operandCount_le_three (byte : UInt8) : operandCount byte ≤ 3 := by
  have hlt := byte.toNat_lt
  have hshift : (byte >>> 6).toNat = byte.toNat >>> 6 := UInt8.toNat_shiftRight byte 6
  rw [operandCount, hshift, Nat.shiftRight_eq_div_pow]
  omega

/-- Whether `byte` is marked as placing the program counter itself. -/
def placesCounter (byte : UInt8) : Bool :=
  byte &&& 0b0001_0000 != 0

/-- Whether `byte` is marked as an instruction of the arithmetic unit. -/
def usesAlu (byte : UInt8) : Bool :=
  byte &&& 0b0010_0000 != 0

/-! ## The named instructions -/

/-- A named instruction. -/
inductive Opcode
  | nop | hlt
  | ldi | ld | st | push | pop | prn | pra
  | add | sub | mul | div | mod | inc | dec | cmp | and | not | or | xor | shl | shr
  | call | ret | int | iret | jmp | jeq | jne | jgt | jlt | jle | jge
deriving DecidableEq, Repr

namespace Opcode

/-- All named instructions, by group. -/
def all : List Opcode :=
  [.nop, .hlt,
   .ldi, .ld, .st, .push, .pop, .prn, .pra,
   .add, .sub, .mul, .div, .mod, .inc, .dec, .cmp, .and, .not, .or, .xor, .shl, .shr,
   .call, .ret, .int, .iret, .jmp, .jeq, .jne, .jgt, .jlt, .jle, .jge]

theorem mem_all (op : Opcode) : op ∈ all := by
  cases op <;> decide

/-- The byte that encodes an instruction. -/
def byte : Opcode → UInt8
  | .nop => 0b0000_0000
  | .hlt => 0b0000_0001
  | .ldi => 0b1000_0010
  | .ld => 0b1000_0011
  | .st => 0b1000_0100
  | .push => 0b0100_0101
  | .pop => 0b0100_0110
  | .prn => 0b0100_0111
  | .pra => 0b0100_1000
  | .add => 0b1010_0000
  | .sub => 0b1010_0001
  | .mul => 0b1010_0010
  | .div => 0b1010_0011
  | .mod => 0b1010_0100
  | .inc => 0b0110_0101
  | .dec => 0b0110_0110
  | .cmp => 0b1010_0111
  | .and => 0b1010_1000
  | .not => 0b0110_1001
  | .or => 0b1010_1010
  | .xor => 0b1010_1011
  | .shl => 0b1010_1100
  | .shr => 0b1010_1101
  | .call => 0b0101_0000
  | .ret => 0b0001_0001
  | .int => 0b0101_0010
  | .iret => 0b0001_0011
  | .jmp => 0b0101_0100
  | .jeq => 0b0101_0101
  | .jne => 0b0101_0110
  | .jgt => 0b0101_0111
  | .jlt => 0b0101_1000
  | .jle => 0b0101_1001
  | .jge => 0b0101_1010

/-- The instruction that a byte names, if it names one. -/
def ofByte? (byte : UInt8) : Option Opcode :=
  all.find? (fun op => op.byte == byte)

/-- No two instructions share a byte, so each is found again from its own. -/
@[simp] theorem ofByte?_byte (op : Opcode) : ofByte? op.byte = some op := by
  cases op <;> decide

theorem byte_of_ofByte? {byte : UInt8} {op : Opcode} (h : ofByte? byte = some op) :
    op.byte = byte := by
  simpa using List.find?_some h

theorem ofByte?_eq_some_iff {byte : UInt8} {op : Opcode} :
    ofByte? byte = some op ↔ op.byte = byte :=
  ⟨byte_of_ofByte?, fun h => h ▸ ofByte?_byte op⟩

/-- The name of an instruction in assembly text. -/
def mnemonic : Opcode → String
  | .nop => "NOP"
  | .hlt => "HLT"
  | .ldi => "LDI"
  | .ld => "LD"
  | .st => "ST"
  | .push => "PUSH"
  | .pop => "POP"
  | .prn => "PRN"
  | .pra => "PRA"
  | .add => "ADD"
  | .sub => "SUB"
  | .mul => "MUL"
  | .div => "DIV"
  | .mod => "MOD"
  | .inc => "INC"
  | .dec => "DEC"
  | .cmp => "CMP"
  | .and => "AND"
  | .not => "NOT"
  | .or => "OR"
  | .xor => "XOR"
  | .shl => "SHL"
  | .shr => "SHR"
  | .call => "CALL"
  | .ret => "RET"
  | .int => "INT"
  | .iret => "IRET"
  | .jmp => "JMP"
  | .jeq => "JEQ"
  | .jne => "JNE"
  | .jgt => "JGT"
  | .jlt => "JLT"
  | .jle => "JLE"
  | .jge => "JGE"

/-- The number of operands that the instruction set documents. -/
def declaredArity : Opcode → Nat
  | .nop | .hlt | .ret | .iret => 0
  | .push | .pop | .prn | .pra | .inc | .dec | .not => 1
  | .call | .int | .jmp | .jeq | .jne | .jgt | .jlt | .jle | .jge => 1
  | .ldi | .ld | .st => 2
  | .add | .sub | .mul | .div | .mod | .cmp | .and | .or | .xor | .shl | .shr => 2

/-- The number of operands that the bits of the encoding announce. -/
def arity (op : Opcode) : Nat :=
  operandCount op.byte

/-- The documented operand count is the one the encoding announces. -/
theorem declaredArity_eq_arity (op : Opcode) : op.declaredArity = op.arity := by
  cases op <;> rfl

theorem arity_le_two (op : Opcode) : op.arity ≤ 2 := by
  cases op <;> decide

/-- The operation that bears the instruction's mnemonic; an error for one outside the unit. -/
def aluOp (op : Opcode) : Except AluError AluOp :=
  AluOp.ofName op.mnemonic

end Opcode

end EightBit
