import EightBit.Opcode
import EightBit.Text.Numeral

/-!
# EightBit.Program.Disassembly -- bytes as assembly text

The bytes from an address on are read as one instruction. Its text names every operand by what it
is, a register or an immediate value, and shows an operand that the bytes do not reach as `?`.
-/

namespace EightBit

/-- What an operand byte stands for. -/
inductive OperandKind
  | register
  | immediate
deriving DecidableEq, Repr

/-- The text of an operand; one that the bytes do not reach is `?`. -/
def OperandKind.text (kind : OperandKind) (operand : Option UInt8) : String :=
  let value := match operand with
    | some byte => toString byte.toNat
    | none => "?"
  match kind with
  | .register => "R" ++ value
  | .immediate => value

/-- The operands of an instruction. All are registers, except the target of `JMP` and the value
that `LDI` loads. -/
def Opcode.operandKinds : Opcode → List OperandKind
  | .jmp => [.immediate]
  | .ldi => [.register, .immediate]
  | op => List.replicate op.arity .register

/-- What stands at an address. -/
inductive Disassembled
  /-- The bytes do not reach the address. -/
  | beyond
  /-- The byte names no instruction. -/
  | unnamed (byte : UInt8)
  /-- An instruction, with those of its operands that the bytes reach. -/
  | instruction (opcode : Opcode) (operands : List (Option UInt8))
deriving DecidableEq, Repr

namespace Disassembled

/-- What stands at the start of some bytes. -/
def ofBytes : List UInt8 → Disassembled
  | [] => .beyond
  | byte :: rest =>
    match Opcode.ofByte? byte with
    | none => .unnamed byte
    | some op => .instruction op ((List.range op.arity).map fun i => rest[i]?)

/-- The number of bytes it takes up, counting operands that the bytes do not reach. -/
def length : Disassembled → Nat
  | .beyond => 1
  | .unnamed _ => 1
  | .instruction op _ => 1 + op.arity

theorem length_pos (d : Disassembled) : 0 < d.length := by
  cases d with
  | beyond | unnamed => exact Nat.one_pos
  | instruction op _ => exact Nat.add_pos_left Nat.one_pos op.arity

/-- The assembly text. -/
def text : Disassembled → String
  | .beyond => "???"
  | .unnamed byte => "??? ; " ++ Text.address byte.toNat
  | .instruction op operands =>
    match List.zipWith OperandKind.text op.operandKinds operands with
    | [] => op.mnemonic
    | shown => op.mnemonic ++ " " ++ ",".intercalate shown

end Disassembled

/-- What stands at an address of some bytes. -/
def disassembleAt (bytes : List UInt8) (address : Nat) : Disassembled :=
  Disassembled.ofBytes (bytes.drop address)

/-- A byte on its own: the mnemonic it names, with a mark if operands would follow, or its value. -/
def describeByte (byte : UInt8) : String :=
  match Opcode.ofByte? byte with
  | some op => if operandCount byte = 0 then op.mnemonic else op.mnemonic ++ "…"
  | none => toString byte.toNat

end EightBit
