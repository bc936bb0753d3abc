/-
# EightBit.CommandLine.Arguments -- what the command line asks for

Arguments are read in order, each against the switches that are known at its place: before the
command only a few, after it those of the command. A switch is a letter after one dash, where
letters may share the dash, or a word after two. A value follows its switch as the next argument,
or in the same one; with a word it then stands after an equals sign.

Every switch but the one for verbosity may be given once. The switch that asks for the version ends
the reading where it stands, so a mistake after it goes unnoticed and one before it does not.
-/

namespace EightBit.CommandLine

/-! ## Requests -/

/-- How to run a program. -/
structure RunOptions where
  program : String
  /-- Print a line of state before every cycle. -/
  trace : Bool
  /-- Print the final state. -/
  dumpState : Bool
  /-- The file of the configuration. -/
  config : Option String
  /-- Override the configuration: unnamed bytes are faults. -/
  strict : Bool
  /-- Override the configuration: only the baseline instructions. -/
  baseline : Bool
  /-- Override the configuration: the number of cycles after which to stop. -/
  maxCycles : Option UInt64
deriving DecidableEq, Repr

/-- What is asked for. -/
inductive Command
  /-- Nothing in particular. -/
  | banner
  | version
  | run (options : RunOptions)
  | disassemble (program : String)
deriving DecidableEq, Repr

/-- A command and how much to tell while carrying it out. -/
structure Invocation where
  verbosity : Nat
  command : Command
deriving DecidableEq, Repr

/-- What is wrong with the arguments. -/
inductive UsageError
  | unknownCommand (name : String)
  | unexpected (argument : String)
  | repeated (option : String)
  | missingValue (option : String)
  | invalidValue (option value : String)
  | unwantedValue (option value : String)
  | missingProgram
deriving DecidableEq, Repr

/-- The wording of a mistake in the arguments. -/
def UsageError.message : UsageError → String
  | .unknownCommand name => "unknown command: " ++ name
  | .unexpected argument => "unexpected argument: " ++ argument
  | .repeated option => "option given twice: " ++ option
  | .missingValue option => "option needs a value: " ++ option
  | .invalidValue option value => "invalid value for option " ++ option ++ ": " ++ value
  | .unwantedValue option value => "option " ++ option ++ " takes no value: " ++ value
  | .missingProgram => "no program given"

/-! ## Switches -/

/-- A switch. -/
inductive Switch
  | verbose | version | trace | dumpState | config | strict | baseline | maxCycles
deriving DecidableEq, Repr

namespace Switch

/-- The switches that stand before a command. -/
def general : List Switch := [.verbose, .version]

/-- The switches of the command that runs a program. -/
def ofRun : List Switch :=
  [.verbose, .trace, .dumpState, .config, .strict, .baseline, .maxCycles]

/-- The switches of the command that disassembles a program. -/
def ofDisassemble : List Switch := [.verbose]

/-- The word of a switch. -/
def word : Switch → String
  | .verbose => "verbose"
  | .version => "version"
  | .trace => "trace"
  | .dumpState => "dump-state"
  | .config => "config"
  | .strict => "strict"
  | .baseline => "baseline"
  | .maxCycles => "max-cycles"

/-- The letter of a switch that has one. -/
def letter? : Switch → Option Char
  | .verbose => some 'v'
  | .version => some 'V'
  | .trace => some 't'
  | .config => some 'c'
  | .maxCycles => some 'm'
  | .dumpState | .strict | .baseline => none

/-- Whether a switch takes a value. -/
def takesValue : Switch → Bool
  | .config | .maxCycles => true
  | _ => false

end Switch

/-! ## Reading -/

/-- Why reading ends before the last argument. -/
inductive Stop
  | mistake (cause : UsageError)
  /-- The version was asked for. -/
  | version
deriving DecidableEq, Repr

/-- What has been read so far. -/
structure Reading where
  verbosity : Nat := 0
  program : Option String := none
  trace : Bool := false
  dumpState : Bool := false
  config : Option String := none
  strict : Bool := false
  baseline : Bool := false
  maxCycles : Option UInt64 := none
  /-- The switch whose value comes next. -/
  awaiting : Option Switch := none
  /-- Whether all that follows are no switches. -/
  switchesEnded : Bool := false
deriving DecidableEq, Repr

/-- The 64-bit word that a decimal numeral spells; it may have a plus sign in front. -/
def wordOfDecimal? (text : String) : Option UInt64 :=
  let digits := match text.toList with
    | '+' :: digits => digits
    | digits => digits
  if digits.isEmpty || !digits.all Char.isDigit then none
  else
    let value := digits.foldl (fun value c => value * 10 + (c.toNat - '0'.toNat)) 0
    if value < UInt64.size then some (UInt64.ofNat value) else none

namespace Reading

/-- Records a switch that takes no value. -/
def setSwitch (r : Reading) (s : Switch) : Except Stop Reading :=
  let once (given : Bool) (r : Reading) : Except Stop Reading :=
    if given then .error (.mistake (.repeated s.word)) else .ok r
  match s with
  | .verbose => .ok { r with verbosity := r.verbosity + 1 }
  | .version => .error .version
  | .trace => once r.trace { r with trace := true }
  | .dumpState => once r.dumpState { r with dumpState := true }
  | .strict => once r.strict { r with strict := true }
  | .baseline => once r.baseline { r with baseline := true }
  | .config | .maxCycles => .error (.mistake (.missingValue s.word))

/-- Records a switch with its value. -/
def setValue (r : Reading) (s : Switch) (value : String) : Except Stop Reading :=
  match s with
  | .config =>
    if r.config.isSome then .error (.mistake (.repeated s.word))
    else .ok { r with config := some value }
  | .maxCycles =>
    if r.maxCycles.isSome then .error (.mistake (.repeated s.word))
    else match wordOfDecimal? value with
      | some limit => .ok { r with maxCycles := some limit }
      | none => .error (.mistake (.invalidValue s.word value))
  | _ => .error (.mistake (.unwantedValue s.word value))

/-- Reads the letters after a single dash. What stands after a letter that takes a value is the
value, with or without an equals sign. -/
def readLetters (known : List Switch) (r : Reading) : List Char → Except Stop Reading
  | [] => .ok r
  | c :: rest =>
    match known.find? fun s => s.letter? == some c with
    | none => .error (.mistake (.unexpected ("-" ++ String.singleton c)))
    | some s =>
      if s.takesValue then
        match rest with
        | [] => .ok { r with awaiting := some s }
        | '=' :: value => r.setValue s (String.ofList value)
        | value => r.setValue s (String.ofList value)
      else do
        let r ← r.setSwitch s
        r.readLetters known rest

/-- Reads the word after two dashes, with the value behind an equals sign if there is one. -/
def readWord (known : List Switch) (r : Reading) (text : List Char) : Except Stop Reading :=
  let word := String.ofList (text.takeWhile (· != '='))
  let value? := match text.dropWhile (· != '=') with
    | [] => none
    | _ :: value => some (String.ofList value)
  match known.find? fun s => s.word == word with
  | none => .error (.mistake (.unexpected ("--" ++ word)))
  | some s =>
    match value? with
    | some value => r.setValue s value
    | none => if s.takesValue then .ok { r with awaiting := some s } else r.setSwitch s

/-- Reads an argument that is no switch. -/
def readOperand (r : Reading) (argument : String) : Except Stop Reading :=
  match r.program with
  | none => .ok { r with program := some argument }
  | some _ => .error (.mistake (.unexpected argument))

/-- Whether an argument starts like a switch; a dash alone does not. -/
def looksLikeSwitch (argument : String) : Bool :=
  match argument.toList with
  | '-' :: _ :: _ => true
  | _ => false

/-- Reads one argument. -/
def readArgument (known : List Switch) (r : Reading) (argument : String) :
    Except Stop Reading :=
  match r.awaiting with
  | some s =>
    if looksLikeSwitch argument then .error (.mistake (.missingValue s.word))
    else { r with awaiting := none : Reading }.setValue s argument
  | none =>
    if r.switchesEnded then r.readOperand argument
    else match argument.toList with
      | ['-', '-'] => .ok { r with switchesEnded := true }
      | '-' :: '-' :: word => r.readWord known word
      | '-' :: c :: letters => r.readLetters known (c :: letters)
      | _ => r.readOperand argument

/-- Reads the arguments of a command; it needs a program, and its last switch the value it takes. -/
def readCommand (known : List Switch) (arguments : List String) :
    Except Stop (Reading × String) := do
  let r ← arguments.foldlM (readArgument known) {}
  match r.awaiting, r.program with
  | some s, _ => throw (.mistake (.missingValue s.word))
  | none, none => throw (.mistake .missingProgram)
  | none, some program => return (r, program)

end Reading

/-- The verbosity of a command line: what is counted after the command, or what is counted before
it if nothing is. -/
def verbosityOf (before after : Nat) : Nat :=
  if after = 0 then before else after

/-- Reads the arguments up to the command, and then those of the command. -/
def readFrom (before : Reading) : List String → Except Stop Invocation
  | [] => .ok ⟨before.verbosity, .banner⟩
  | argument :: rest =>
    if before.switchesEnded then .error (.mistake (.unexpected argument))
    else if Reading.looksLikeSwitch argument then do
      let before ← before.readArgument Switch.general argument
      readFrom before rest
    else match argument with
      | "run" => do
        let (r, program) ← Reading.readCommand Switch.ofRun rest
        return {
          verbosity := verbosityOf before.verbosity r.verbosity
          command := .run {
            program
            trace := r.trace
            dumpState := r.dumpState
            config := r.config
            strict := r.strict
            baseline := r.baseline
            maxCycles := r.maxCycles } }
      | "disasm" => do
        let (r, program) ← Reading.readCommand Switch.ofDisassemble rest
        return ⟨verbosityOf before.verbosity r.verbosity, .disassemble program⟩
      | name => .error (.mistake (.unknownCommand name))

/-- What a list of arguments asks for. -/
def Invocation.ofArguments (arguments : List String) : Except UsageError Invocation :=
  match readFrom {} arguments with
  | .ok invocation => .ok invocation
  | .error .version => .ok ⟨0, .version⟩
  | .error (.mistake cause) => .error cause

end EightBit.CommandLine
