/-
# EightBit.Text.Json -- JSON values as text

Two layouts of the same value: one without any blank, and one that puts every element of a list and
every member of an object on a line of its own, indented by two spaces a level. Member order is the
order given. Strings hold no character that would need an escape; quotes and backslashes are
escaped all the same.
-/

namespace EightBit.Text

/-- A JSON value whose numbers are naturals. -/
inductive Json
  | null
  | bool (value : Bool)
  | number (value : Nat)
  | string (value : String)
  | list (items : List Json)
  | object (members : List (String × Json))

namespace Json

/-- A string in double quotes. -/
def quote (s : String) : String :=
  "\"" ++ String.join (s.toList.map fun c =>
    if c = '"' || c = '\\' then "\\" ++ String.singleton c else String.singleton c) ++ "\""

mutual

/-- The value without any blank. -/
def compact : Json → String
  | .null => "null"
  | .bool value => toString value
  | .number value => toString value
  | .string value => quote value
  | .list items => "[" ++ ",".intercalate (compactItems items) ++ "]"
  | .object members => "\x7b" ++ ",".intercalate (compactMembers members) ++ "\x7d"

/-- Each element without any blank. -/
def compactItems : List Json → List String
  | [] => []
  | item :: rest => compact item :: compactItems rest

/-- Each member without any blank. -/
def compactMembers : List (String × Json) → List String
  | [] => []
  | (key, value) :: rest => (quote key ++ ":" ++ compact value) :: compactMembers rest

end

/-- Lines between an opening and a closing bracket, one level deeper than the brackets. -/
def block (opening closing : String) (level : Nat) (lines : List String) : String :=
  let indent (n : Nat) := String.ofList (List.replicate (2 * n) ' ')
  if lines.isEmpty then opening ++ closing
  else
    opening ++ "\n" ++ ",\n".intercalate (lines.map (indent (level + 1) ++ ·)) ++ "\n"
      ++ indent level ++ closing

mutual

/-- The value at an indentation level, with every element and member on a line of its own. -/
def prettyAt (level : Nat) : Json → String
  | .null => "null"
  | .bool value => toString value
  | .number value => toString value
  | .string value => quote value
  | .list items => block "[" "]" level (prettyItems (level + 1) items)
  | .object members => block "\x7b" "\x7d" level (prettyMembers (level + 1) members)

/-- Each element at an indentation level. -/
def prettyItems (level : Nat) : List Json → List String
  | [] => []
  | item :: rest => prettyAt level item :: prettyItems level rest

/-- Each member at an indentation level. -/
def prettyMembers (level : Nat) : List (String × Json) → List String
  | [] => []
  | (key, value) :: rest =>
    (quote key ++ ": " ++ prettyAt level value) :: prettyMembers level rest

end

/-- The value with every element and member on a line of its own. -/
def pretty (j : Json) : String := prettyAt 0 j

end Json

end EightBit.Text
