import EightBit.Flags

/-!
# EightBit.Alu -- the arithmetic and logic unit

Every operation works on bytes and wraps modulo 256. A shift by eight or more gives zero, and a
division by zero is an error rather than a value. The unit is pure: it is handed operand values
and hands back an output, so whoever calls it decides what is written where.
-/

namespace EightBit

/-- An operation of the unit. -/
inductive AluOp
  | add | sub | mul | div | mod | inc | dec | cmp | and | not | or | xor | shl | shr
deriving DecidableEq, Repr

/-- Why the unit gives no output. -/
inductive AluError
  /-- No operation bears this name. -/
  | unsupportedOperation (name : String)
  /-- The divisor of `div` or `mod` is zero. -/
  | divisionByZero
deriving DecidableEq, Repr

/-- The wording of an error of the unit. -/
def AluError.message : AluError → String
  | .unsupportedOperation name => "unsupported ALU operation: " ++ name
  | .divisionByZero => "division by zero"

/-- What an operation produces. -/
inductive AluOutput
  /-- A byte for the first operand's register. -/
  | value (byte : UInt8)
  /-- Condition flags; no register changes. -/
  | flags (flags : Flags)
deriving DecidableEq, Repr

namespace AluOp

/-- The operations in the order of their opcodes' listing. -/
def all : List AluOp :=
  [.add, .sub, .mul, .div, .mod, .inc, .dec, .cmp, .and, .not, .or, .xor, .shl, .shr]

/-- The name under which an operation is asked for. -/
def name : AluOp → String
  | .add => "ADD"
  | .sub => "SUB"
  | .mul => "MUL"
  | .div => "DIV"
  | .mod => "MOD"
  | .inc => "INC"
  | .dec => "DEC"
  | .cmp => "CMP"
  | .and => "AND"
  | .not => "NOT"
  | .or => "OR"
  | .xor => "XOR"
  | .shl => "SHL"
  | .shr => "SHR"

/-- The operation that a name asks for, in any mix of ASCII upper and lower case. -/
def ofName (asked : String) : Except AluError AluOp :=
  match all.find? (fun op => op.name == asked.map Char.toUpper) with
  | some op => .ok op
  | none => .error (.unsupportedOperation asked)

/-- Whether the operation reads a second register. -/
def isBinary : AluOp → Bool
  | .inc | .dec | .not => false
  | _ => true

/-- The output of an operation on the operand values `a` and `b`. -/
def apply (op : AluOp) (a b : UInt8) : Except AluError AluOutput :=
  match op with
  | .add => .ok (.value (a + b))
  | .sub => .ok (.value (a - b))
  | .mul => .ok (.value (a * b))
  | .div => if b = 0 then .error .divisionByZero else .ok (.value (a / b))
  | .mod => if b = 0 then .error .divisionByZero else .ok (.value (a % b))
  | .inc => .ok (.value (a + 1))
  | .dec => .ok (.value (a - 1))
  | .cmp => .ok (.flags (Flags.ofCompare a b))
  | .and => .ok (.value (a &&& b))
  | .not => .ok (.value (~~~a))
  | .or => .ok (.value (a ||| b))
  | .xor => .ok (.value (a ^^^ b))
  | .shl => .ok (.value (if b < 8 then a <<< b else 0))
  | .shr => .ok (.value (if b < 8 then a >>> b else 0))

end AluOp

end EightBit
