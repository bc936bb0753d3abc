/-
# EightBit.Flags -- the condition flags

The flags hold the result of the last comparison. As a byte they read `00000LGE`; every other bit
of a byte taken back as flags is dropped, so no machine ever holds a flag outside these three.
-/

namespace EightBit

/-- What the last comparison found of its left operand against its right one. -/
structure Flags where
  /-- The operands were equal. -/
  equal : Bool
  /-- The left operand was greater. -/
  greater : Bool
  /-- The left operand was less. -/
  less : Bool
deriving DecidableEq, Repr

namespace Flags

/-- No comparison has been made. -/
def none : Flags := ⟨false, false, false⟩

/-- The flags of the unsigned comparison of `a` with `b`. -/
def ofCompare (a b : UInt8) : Flags :=
  ⟨a == b, b < a, a < b⟩

/-- The flags as the byte `00000LGE`. -/
def toByte (f : Flags) : UInt8 :=
  (if f.equal then 1 else 0) ||| (if f.greater then 2 else 0) ||| (if f.less then 4 else 0)

/-- The flags in the low three bits of a byte. -/
def ofByte (byte : UInt8) : Flags :=
  ⟨byte &&& 1 != 0, byte &&& 2 != 0, byte &&& 4 != 0⟩

@[simp] theorem ofByte_toByte (f : Flags) : ofByte f.toByte = f := by
  rcases f with ⟨_ | _, _ | _, _ | _⟩ <;> rfl

/-- The names of the flags that are set, in the order equal, greater, less. -/
def names (f : Flags) : List String :=
  (if f.equal then ["EQUAL"] else []) ++ (if f.greater then ["GREATER"] else [])
    ++ (if f.less then ["LESS"] else [])

/-- The names of the set flags with ` | ` between them; empty for no flag. -/
def text (f : Flags) : String :=
  " | ".intercalate f.names

end Flags

end EightBit
