import EightBit.CommandLine.Session

/-!
# EightBit.Main -- the command line program

Files are read before a command is carried out, and a running machine is driven in slices, so that
what it writes appears while it runs.
-/

namespace EightBit.CommandLine

/-- The reason why the system did not give a file's bytes. -/
def readErrorOf (e : IO.Error) : ReadError :=
  match e with
  | .noFileOrDirectory _ _ _ => .notFound
  | .inappropriateType _ code _ => if code = 21 then .isDirectory else .notDirectory
  | e => .other (toString e)

/-- The files at some paths, read now, as a reader. -/
def readAll (paths : List String) : IO Reader := do
  let contents ← paths.mapM fun (path : String) => do
    let content ← try
        let bytes ← IO.FS.readBinFile path
        pure (Except.ok bytes)
      catch e => pure (Except.error (readErrorOf e))
    return (path, content)
  return fun path => (contents.lookup path).getD (.error .notFound)

/-- The paths that a command reads. -/
def Command.paths : Command → List String
  | .banner | .version => []
  | .disassemble path => [path]
  | .run options => options.program :: options.config.toList

/-- Prints lines on the error stream. -/
def tell (lines : List String) : IO Unit :=
  lines.forM fun line => IO.eprintln line

/-- The number of cycles between two times of printing. -/
def slice : Nat := 1024

/-- Drives a machine for as many cycles as are left, printing after each slice. -/
partial def drive (s : Session) (m : Machine) (left : Nat) : IO (Except Fault Unit × Machine) := do
  let r := m.runFor s.observe (min slice left) Sink.unbounded #[]
  tell r.observed.toList
  IO.print r.sink.text
  (← IO.getStdout).flush
  match r.outcome with
  | .error fault => return (.error fault, r.machine)
  | .ok () =>
    if r.machine.isHalted || left ≤ slice then return (.ok (), r.machine)
    else drive s r.machine (left - slice)

/-- Carries out a command on the files of the system. -/
def Invocation.perform (i : Invocation) : IO UInt32 := do
  let read ← readAll i.command.paths
  match i.command with
  | .run options =>
    match Session.prepare read i.verbosity options with
    | .error messages =>
      tell messages
      return 1
    | .ok (session, messages) =>
      tell messages
      let m := session.machine
      let (outcome, m) ← drive session m (m.allowance m.configuredLimit)
      tell (session.closing outcome m)
      return UInt32.ofNat (Session.exitCode outcome)
  | _ =>
    let outcome := i.execute read
    tell outcome.messages
    IO.print outcome.output
    return UInt32.ofNat outcome.exitCode

end EightBit.CommandLine

open EightBit.CommandLine in
/-- Carries out what the arguments ask for. -/
def main (arguments : List String) : IO UInt32 := do
  match Invocation.ofArguments arguments with
  | .ok invocation => invocation.perform
  | .error cause =>
    IO.eprintln ("error: " ++ cause.message)
    return 2
