import EightBit.Files
import EightBit.Program

/-!
# EightBit.Program.Load -- programs from files

A file whose name has the extension `ls8` or `txt`, in exactly that case, holds source text. Any
other file is a binary image, one byte a cell.
-/

namespace EightBit

/-- Why a file gives no program. -/
inductive LoadError
  | read (cause : ReadError)
  | source (cause : SourceError)
deriving DecidableEq, Repr

/-- The wording of a file that gives no program. -/
def LoadError.message : LoadError → String
  | .read cause => "I/O error: " ++ cause.message
  | .source cause => cause.message

namespace Program

/-- Whether the file at a path holds source text. -/
def isSourcePath (path : String) : Bool :=
  match (fileName? path).bind extension? with
  | some extension => extension == "ls8" || extension == "txt"
  | none => false

/-- The program in the file at a path. -/
def load (read : Reader) (path : String) : Except LoadError Program :=
  if isSourcePath path then
    match read.text path with
    | .error cause => .error (.read cause)
    | .ok text => (ofSource text).mapError .source
  else
    match read path with
    | .error cause => .error (.read cause)
    | .ok bytes => .ok ⟨bytes.data.toList, []⟩

end Program

end EightBit
