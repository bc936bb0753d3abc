import EightBit.Configuration.Document
import EightBit.Files

/-!
# EightBit.Configuration.Load -- configurations from files
-/

namespace EightBit

/-- Why a file gives no configuration. -/
inductive ConfigurationError
  | read (cause : ReadError)
  /-- The text spells no configuration. -/
  | invalid
deriving DecidableEq, Repr

/-- The wording of a file that gives no configuration. -/
def ConfigurationError.message : ConfigurationError → String
  | .read cause => "I/O error: " ++ cause.message
  | .invalid => "invalid configuration:"

/-- The configuration in the file at a path. -/
def Configuration.load (read : Reader) (path : String) :
    Except ConfigurationError Configuration :=
  match read.text path with
  | .error cause => .error (.read cause)
  | .ok text =>
    match Configuration.ofText? text with
    | some config => .ok config
    | none => .error .invalid

end EightBit
