import EightBit.Opcode.Action

/-!
# EightBit.Configuration -- how a machine is built and how long it may run
-/

namespace EightBit

/-- How a machine is built and how long it may run. -/
structure Configuration where
  /-- Whether a byte that names no instruction is a fault rather than skipped. -/
  strict : Bool := false
  /-- The part of the instruction set that is implemented. -/
  profile : Profile := .full
  /-- The number of cycles after which a run stops; without it a run ends only by halting. -/
  maxCycles : Option UInt64 := none
deriving DecidableEq, Repr

end EightBit
