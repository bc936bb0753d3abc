import EightBit.Configuration
import EightBit.Configuration.Token

/-!
# EightBit.Configuration.Document -- the configuration a JSON text spells

The text is one JSON value. As an object it gives fields by name, in any order, none twice and no
other; as an array it gives them by position, `strict`, `profile`, `max_cycles`. A field that is not
given has its default. The value of `profile` is the name of a profile, as a string or as the only
key of an object whose value is null; `max_cycles` is null or a natural below `2^64`.
-/

namespace EightBit

namespace Configuration

/-! ## Fields -/

/-- A field of a configuration. -/
inductive Field
  | strict | profile | maxCycles
deriving DecidableEq, Repr

namespace Field

/-- The fields in the order of their positions. -/
def all : List Field := [.strict, .profile, .maxCycles]

/-- The name of a field. -/
def name : Field → String
  | .strict => "strict"
  | .profile => "profile"
  | .maxCycles => "max_cycles"

/-- The field with a name. -/
def ofName? (name : String) : Option Field :=
  all.find? fun field => field.name == name

end Field

/-- The profile with a name. -/
def profileNamed? (name : String) : Option Profile :=
  [Profile.full, Profile.baseline].find? fun profile => profile.name == name

/-- The value of a field, as far as its form tells. -/
inductive Value
  | null
  | bool (value : Bool)
  | number (value : Nat)
  /-- A name, as a string or as the only key of an object whose value is null. -/
  | name (text : String)
deriving DecidableEq, Repr

/-- The value that tokens start with, and what follows it. -/
def Value.ofTokens? : List Token → Option (Value × List Token)
  | .null :: rest => some (.null, rest)
  | .bool value :: rest => some (.bool value, rest)
  | .number value :: rest => some (.number value, rest)
  | .string text :: rest => some (.name text, rest)
  | .openBrace :: .string text :: .colon :: .null :: .closeBrace :: rest => some (.name text, rest)
  | _ => none

theorem Value.ofTokens?_length {tokens rest : List Token} {v : Value}
    (h : Value.ofTokens? tokens = some (v, rest)) : rest.length < tokens.length := by
  unfold Value.ofTokens? at h
  split at h
  all_goals
    simp only [Option.some.injEq, Prod.mk.injEq, reduceCtorEq] at h
    try
      rw [← h.2]
      simp only [List.length_cons]
      omega

/-! ## Given fields -/

/-- The fields that a text has given so far. -/
structure Given where
  strict : Option Bool
  profile : Option Profile
  maxCycles : Option (Option UInt64)
deriving DecidableEq, Repr

namespace Given

/-- No field is given yet. -/
def nothing : Given := ⟨none, none, none⟩

/-- One more field with its value; refused if the field is given already or cannot have it. -/
def add? (g : Given) (field : Field) (value : Value) : Option Given :=
  match field, value with
  | .strict, .bool b => if g.strict.isNone then some { g with strict := some b } else none
  | .profile, .name text =>
    if g.profile.isNone then
      (profileNamed? text).map fun profile => { g with profile := some profile }
    else none
  | .maxCycles, .null =>
    if g.maxCycles.isNone then some { g with maxCycles := some none } else none
  | .maxCycles, .number n =>
    if g.maxCycles.isNone ∧ n < UInt64.size then
      some { g with maxCycles := some (some (UInt64.ofNat n)) }
    else none
  | _, _ => none

/-- The configuration with the default of every field that is not given. -/
def complete (g : Given) : Configuration where
  strict := g.strict.getD false
  profile := g.profile.getD .full
  maxCycles := g.maxCycles.getD none

end Given

/-! ## Documents -/

/-- Reads a member and all that follow it, up to the brace that closes the object and the text. What
follows a value is always shorter (`Value.ofTokens?_length`). -/
def members? (given : Given) (tokens : List Token) : Option Given :=
  match tokens with
  | .string name :: .colon :: rest =>
    match Value.ofTokens? rest with
    | none => none
    | some (value, after) =>
      match (Field.ofName? name).bind (given.add? · value) with
      | none => none
      | some given =>
        match after with
        | [.closeBrace] => some given
        | .comma :: more =>
          if _h : more.length < rest.length then members? given more else none
        | _ => none
  | _ => none
termination_by tokens.length
decreasing_by
  simp only [List.length_cons]
  omega

/-- Reads an element for the first of the fields and all that follow it, up to the bracket that
closes the array and the text. -/
def elements? (given : Given) : List Field → List Token → Option Given
  | [], _ => none
  | field :: fields, tokens =>
    match Value.ofTokens? tokens with
    | none => none
    | some (value, after) =>
      match given.add? field value with
      | none => none
      | some given =>
        match after with
        | [.closeBracket] => some given
        | .comma :: more => elements? given fields more
        | _ => none

/-- The fields that the tokens of a text give. -/
def given? : List Token → Option Given
  | [.openBrace, .closeBrace] => some Given.nothing
  | .openBrace :: tokens => members? Given.nothing tokens
  | [.openBracket, .closeBracket] => some Given.nothing
  | .openBracket :: tokens => elements? Given.nothing Field.all tokens
  | _ => none

/-- The configuration that a text spells. -/
def ofText? (text : String) : Option Configuration := do
  let tokens ← Token.list? text.toList
  let given ← given? tokens
  return given.complete

end Configuration

end EightBit
