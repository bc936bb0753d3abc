import EightBit.Machine.Cycle

/-!
# EightBit.CommandLine.Journal -- what is told while a machine runs

A **record** is a line about what happened, with a level that says how much has to be asked for
before it is told. The records of a cycle follow from its report and the machine it left.
-/

namespace EightBit.CommandLine

/-- How much has to be asked for before a record is told. -/
inductive Level
  | warn | info | debug | trace
deriving DecidableEq, Repr

namespace Level

/-- The least verbosity at which records of the level are told. -/
def verbosity : Level → Nat
  | .warn => 0
  | .info => 1
  | .debug => 2
  | .trace => 3

/-- What stands in front of a record's text. The two finest levels also name the engine that
speaks. -/
def tag : Level → String
  | .warn => "[WARN] "
  | .info => "[INFO] "
  | .debug => "[DEBUG] (1) ls8::cpu::execute: "
  | .trace => "[TRACE] (1) ls8::cpu::execute: "

end Level

/-- Something worth telling. -/
structure Record where
  level : Level
  text : String
deriving DecidableEq, Repr

/-- The line of a record. -/
def Record.line (r : Record) : String := r.level.tag ++ r.text

/-- The lines of the records that are told at a verbosity. -/
def told (verbosity : Nat) (records : List Record) : List String :=
  (records.filter fun r => r.level.verbosity ≤ verbosity).map Record.line

/-- The record of an interrupt's delivery. -/
def dispatchRecord (d : Dispatch) : Record :=
  ⟨.debug, "interrupt " ++ toString d.number.val ++ " from PC=" ++ Text.address d.source
    ++ " to " ++ Text.address d.target.toNat⟩

/-- The record of a decoded instruction. -/
def instructionRecord (i : Instruction) : Record :=
  ⟨.trace, Text.address i.pc ++ ": " ++ i.opcode.mnemonic ++ " " ++ Text.address i.a.toNat
    ++ " " ++ Text.address i.b.toNat⟩

/-- The record of how a cycle ended, if there is one: a byte passed over, a halt, or a fault. -/
def outcomeRecord? (outcome : Except Fault Step) (after : Machine) : Option Record :=
  match outcome with
  | .ok (.skipped pc byte) =>
    some ⟨.warn, "invalid instruction " ++ Text.binaryByte byte ++ " at " ++ Text.address pc⟩
  | .ok (.executed pc .hlt _) =>
    some ⟨.debug, "HLT at PC=" ++ Text.address pc ++ " after " ++ toString after.cycles.toNat
      ++ " cycles"⟩
  | .ok (.executed _ _ _) => none
  | .error .notRunning => none
  | .error fault =>
    some ⟨.debug, "halting on fault at PC=" ++ Text.address after.regs.pc ++ ": "
      ++ fault.message⟩

/-- The records of a cycle, in order. -/
def cycleRecords (report : Report) (after : Machine) : List Record :=
  report.dispatch.toList.map dispatchRecord
    ++ report.instruction.toList.map instructionRecord
    ++ (outcomeRecord? report.outcome after).toList

end EightBit.CommandLine
