import EightBit.Flags
import EightBit.Text.Numeral

/-!
# EightBit.Registers -- the register file

Eight byte registers, `R0` to `R7`, are addressed by instructions. Three of them have a fixed
role: `R5` is the interrupt mask, `R6` the interrupt status and `R7` the stack pointer, which is
never kept anywhere else. The program counter, the instruction register, the condition flags and
the interrupt latch are internal.

The program counter is wider than a byte, so that running off the end of memory is an address
that no cell has, and not a wrap to the start.
-/

namespace EightBit

/-- The number of one of the registers `R0` to `R7`. -/
abbrev RegisterIndex := Fin 8

/-- A byte that is the number of no register. -/
structure InvalidRegister where
  /-- The number asked for. -/
  index : UInt8
deriving DecidableEq, Repr

/-- The register that a byte names. -/
def RegisterIndex.ofByte (r : UInt8) : Except InvalidRegister RegisterIndex :=
  if h : r.toNat < 8 then .ok ⟨r.toNat, h⟩ else .error ⟨r⟩

/-- The interrupt mask: the interrupts that may be delivered. -/
def interruptMask : RegisterIndex := 5

/-- The interrupt status: the interrupts that have been raised. -/
def interruptStatus : RegisterIndex := 6

/-- The stack pointer. -/
def stackPointer : RegisterIndex := 7

/-- The registers that an interrupt's frame saves, in the order in which they are pushed; the stack
pointer is not among them. -/
def savedRegisters : List RegisterIndex := [0, 1, 2, 3, 4, 5, 6]

/-- Where the stack pointer starts; the stack grows down from here. -/
def stackTop : UInt8 := 0xF4

/-- The registers of a machine. -/
structure Registers where
  /-- `R0` to `R7`. -/
  gp : Vector UInt8 8
  /-- The address of the next instruction. -/
  pc : Nat
  /-- The opcode fetched last. -/
  ir : UInt8
  /-- What the last comparison found. -/
  fl : Flags
  /-- Off while an interrupt is handled, on again when its handler returns. -/
  interruptsEnabled : Bool
deriving DecidableEq

namespace Registers

/-- The state at power-on: the stack is empty, interrupts are enabled, all else is zero. -/
def powerOn : Registers where
  gp := (Vector.replicate 8 0).set stackPointer stackTop
  pc := 0
  ir := 0
  fl := Flags.none
  interruptsEnabled := true

/-- The value of a register. -/
def get (r : Registers) (i : RegisterIndex) : UInt8 := r.gp[i]

/-- The registers with `value` in one of them. -/
def set (r : Registers) (i : RegisterIndex) (value : UInt8) : Registers :=
  { r with gp := r.gp.set i value }

/-- The stack pointer. -/
def sp (r : Registers) : UInt8 := r.get stackPointer

/-- The registers with another stack pointer. -/
def setSp (r : Registers) (value : UInt8) : Registers := r.set stackPointer value

/-- The registers with the program counter at `target`. -/
def jump (r : Registers) (target : UInt8) : Registers := { r with pc := target.toNat }

/-- The registers with the program counter past an instruction of `operands` operand bytes. -/
def advance (r : Registers) (operands : Nat) : Registers := { r with pc := r.pc + 1 + operands }

/-- A write is seen in its own register and in no other. -/
@[simp] theorem get_set (r : Registers) (i j : RegisterIndex) (v : UInt8) :
    (r.set i v).get j = if i = j then v else r.get j := by
  simp [get, set, Vector.getElem_set, Fin.ext_iff]

/-- The values of `R0` to `R7`. -/
def toList (r : Registers) : List UInt8 := r.gp.toList

/-- A one-line summary of the registers. -/
def summary (r : Registers) : String :=
  let flags := if r.fl = Flags.none then "0x0" else r.fl.text
  "Registers \x7b gp: [" ++ ", ".intercalate (r.toList.map fun v => toString v.toNat)
    ++ "], pc: " ++ toString r.pc ++ ", ir: " ++ toString r.ir.toNat
    ++ ", fl: Flags(" ++ flags ++ "), interrupts_enabled: " ++ toString r.interruptsEnabled
    ++ " \x7d"

end Registers

end EightBit
