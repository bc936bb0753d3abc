import EightBit.Machine
import EightBit.Text.Json

/-!
# EightBit.Machine.View -- a machine as text

A trace line for before a cycle, a one-line summary, and the whole state as a JSON document.
-/

namespace EightBit

/-- A byte as a JSON number. -/
def jsonByte (byte : UInt8) : Text.Json := .number byte.toNat

/-- The registers as a JSON object. -/
def Registers.json (r : Registers) : Text.Json :=
  .object
    [("gp", .list (r.toList.map jsonByte)),
     ("pc", .number r.pc),
     ("ir", jsonByte r.ir),
     ("fl", .string r.fl.text),
     ("interrupts_enabled", .bool r.interruptsEnabled)]

/-- The cells of a memory as a JSON object. -/
def Memory.json (m : Memory) : Text.Json :=
  .object [("cells", .list (m.toList.map jsonByte))]

/-- The word for a profile in a machine's summary. -/
def Profile.title : Profile → String
  | .full => "Full"
  | .baseline => "Baseline"

namespace Machine

/-- The whole state as a JSON object. -/
def json (m : Machine) : Text.Json :=
  .object
    [("regs", m.regs.json),
     ("mem", m.mem.json),
     ("state", .string m.phase.name),
     ("cycles", .number m.cycles.toNat),
     ("profile", .string m.config.profile.name),
     ("strict", .bool m.config.strict),
     ("max_cycles", match m.config.maxCycles with
      | some limit => .number limit.toNat
      | none => .null)]

/-- A one-line summary of the machine. -/
def summary (m : Machine) : String :=
  "Cpu \x7b state: " ++ m.phase.name ++ ", cycles: " ++ toString m.cycles.toNat
    ++ ", profile: " ++ m.config.profile.title ++ ", regs: " ++ m.regs.summary ++ " \x7d"

/-- The byte at an address, or zero past the end of memory. -/
def byteAt (m : Machine) (address : Nat) : UInt8 :=
  match m.mem.peek address with
  | .ok value => value
  | .error _ => 0

/-- The program counter, the three bytes from there on, and the registers, in hexadecimal. -/
def traceLine (m : Machine) : String :=
  let pc := m.regs.pc
  let bytes := [m.byteAt pc, m.byteAt (pc + 1), m.byteAt (pc + 2)]
  "TRACE: " ++ Text.hex pc ++ " | " ++ " ".intercalate (bytes.map Text.hexByte) ++ " |"
    ++ String.join (m.regs.toList.map fun v => " " ++ Text.hexByte v)

end Machine

end EightBit
