import EightBit.CommandLine.Arguments
import EightBit.CommandLine.Journal
import EightBit.Configuration.Load
import EightBit.Machine.Run
import EightBit.Machine.View
import EightBit.Program.Listing
import EightBit.Program.Load

/-!
# EightBit.CommandLine.Session -- carrying out a command

The configuration is read before the program, and both before anything runs. What a program writes
goes to the output; messages, trace lines and records go to the error stream, in the order in which
they come up. A **session** is a machine that is ready to run; it can be run in one go, or in
slices whose lines add up to the same.
-/

namespace EightBit.CommandLine

/-- What is left of a command that was carried out. -/
structure Outcome where
  exitCode : Nat
  output : String
  /-- The lines of the error stream. -/
  messages : List String
deriving DecidableEq, Repr

namespace Outcome

/-- A failure before anything ran. -/
def failure (messages : List String) : Outcome := ⟨1, "", messages⟩

/-- The error stream as one text. -/
def messageText (o : Outcome) : String :=
  String.join (o.messages.map (· ++ "\n"))

end Outcome

/-- The text of the command line without a command. -/
def bannerText : String :=
  "LS-8 Emulator v0.1.0\nAn 8-bit byte-code processor emulator\n\n"
    ++ "Use --help for available commands\n"

/-- The name and version of the program. -/
def versionText : String := "ls8-emu 0.1.0\n"

/-! ## Preparing -/

/-- A program that holds something, with the messages so far; or the messages of the failure. -/
def loadProgram (read : Reader) (verbosity : Nat) (path : String) :
    Except (List String) (Program × List String) :=
  match Program.load read path with
  | .error e => .error ["❌ Failed to load " ++ path ++ ": " ++ e.message]
  | .ok p =>
    if p.bytes.isEmpty then .error ["❌ No instructions to execute"]
    else
      let loaded : Record :=
        ⟨.info, "loaded " ++ toString p.bytes.length ++ " bytes from " ++ path⟩
      .ok (p, told verbosity [loaded])

namespace RunOptions

/-- The configuration with what the options override. -/
def override (o : RunOptions) (config : Configuration) : Configuration where
  strict := o.strict || config.strict
  profile := if o.baseline then .baseline else config.profile
  maxCycles := o.maxCycles <|> config.maxCycles

/-- The configuration that the options ask for. -/
def configuration (o : RunOptions) (read : Reader) : Except (List String) Configuration :=
  match o.config with
  | none => .ok (o.override {})
  | some path =>
    match Configuration.load read path with
    | .ok config => .ok (o.override config)
    | .error e => .error ["❌ Failed to load config " ++ path ++ ": " ++ e.message]

end RunOptions

/-- A machine that is ready to run. -/
structure Session where
  options : RunOptions
  verbosity : Nat
  machine : Machine

namespace Session

/-- Reads the configuration and the program, and builds the machine. -/
def prepare (read : Reader) (verbosity : Nat) (options : RunOptions) :
    Except (List String) (Session × List String) :=
  match options.configuration read with
  | .error messages => .error messages
  | .ok config =>
    match loadProgram read verbosity options.program with
    | .error messages => .error messages
    | .ok (program, messages) =>
      match (Machine.powerOn config).load program.bytes with
      | .error e => .error (messages ++ ["❌ Failed to load program: " ++ e.message])
      | .ok machine => .ok (⟨options, verbosity, machine⟩, messages)

/-! ## Running -/

/-- Adds the lines of one attempt: the trace line if it is asked for, then what is told. -/
def observe (s : Session) : Observer (Array String) := fun lines before report after =>
  let lines := if s.options.trace then lines.push before.traceLine else lines
  lines ++ told s.verbosity (cycleRecords report after)

/-- The message for a run that ended in a fault. -/
def faultMessages (outcome : Except Fault Unit) (m : Machine) : List String :=
  match outcome with
  | .ok () => []
  | .error fault =>
    ["❌ CPU error at PC=" ++ Text.hex m.regs.pc ++ ": " ++ fault.message]

/-- The records after a run: whether the limit stopped it, and where the machine is. -/
def closingRecords (m : Machine) : List Record :=
  let stopped : List Record := match m.config.maxCycles with
    | some limit =>
      if m.isHalted then []
      else [⟨.warn, "stopped at cycle limit (" ++ toString limit.toNat
        ++ "); use --max-cycles to raise it"⟩]
    | none => []
  stopped ++ [⟨.info, toString m.cycles.toNat ++ " cycles, state " ++ m.phase.name⟩]

/-- The lines after a run. -/
def closing (s : Session) (outcome : Except Fault Unit) (m : Machine) : List String :=
  faultMessages outcome m ++ told s.verbosity (closingRecords m)
    ++ if s.options.dumpState then [m.json.pretty] else []

/-- The exit code after a run. -/
def exitCode : Except Fault Unit → Nat
  | .ok () => 0
  | .error _ => 1

/-- Runs the machine to its end. -/
def run (s : Session) : Outcome :=
  let r := s.machine.runObserved s.observe Sink.unbounded #[]
  ⟨exitCode r.outcome, r.sink.text, r.observed.toList ++ s.closing r.outcome r.machine⟩

end Session

/-! ## Commands -/

/-- Lists the instructions of a program. -/
def disassemble (read : Reader) (verbosity : Nat) (path : String) : Outcome :=
  match loadProgram read verbosity path with
  | .error messages => Outcome.failure messages
  | .ok (program, messages) => ⟨0, program.listing, messages⟩

/-- Carries out a command. -/
def Invocation.execute (i : Invocation) (read : Reader) : Outcome :=
  match i.command with
  | .banner => ⟨0, bannerText, []⟩
  | .version => ⟨0, versionText, []⟩
  | .disassemble path => disassemble read i.verbosity path
  | .run options =>
    match Session.prepare read i.verbosity options with
    | .error messages => Outcome.failure messages
    | .ok (session, messages) =>
      let outcome := session.run
      { outcome with messages := messages ++ outcome.messages }

end EightBit.CommandLine
