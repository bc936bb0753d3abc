/-
# EightBit.Configuration.Token -- the tokens of a JSON text

The text of a configuration is strict JSON. It is read in two stages, and this is the first: the
text is cut into **tokens**, with the four JSON blanks between them passed over. Numbers are kept
only as naturals written without a leading zero, since no configuration has a place for any other;
a text that holds another number, or anything that is no token, has no token list.
-/

namespace EightBit

/-- A token of a JSON text. -/
inductive Token
  | openBrace | closeBrace | openBracket | closeBracket | colon | comma
  | null
  | bool (value : Bool)
  | number (value : Nat)
  | string (text : String)
deriving DecidableEq, Repr

namespace Token

/-! ## Strings -/

/-- The value of a hexadecimal digit. -/
def hexDigit? (c : Char) : Option Nat :=
  if '0' ≤ c ∧ c ≤ '9' then some (c.toNat - '0'.toNat)
  else if 'a' ≤ c ∧ c ≤ 'f' then some (c.toNat - 'a'.toNat + 10)
  else if 'A' ≤ c ∧ c ≤ 'F' then some (c.toNat - 'A'.toNat + 10)
  else none

/-- The 16-bit unit that starts a text as four hexadecimal digits, and what follows it. -/
def unit? : List Char → Option (Nat × List Char)
  | a :: b :: c :: d :: rest => do
    let a ← hexDigit? a
    let b ← hexDigit? b
    let c ← hexDigit? c
    let d ← hexDigit? d
    return (((a * 16 + b) * 16 + c) * 16 + d, rest)
  | _ => none

/-- The character of a numbered escape after its `\u`, and what follows it. A unit that is the first
half of a surrogate pair needs the second half as another escape; a half alone is no character. -/
def numberedEscape? (text : List Char) : Option (Char × List Char) := do
  let (high, rest) ← unit? text
  if high < 0xD800 ∨ 0xDFFF < high then return (Char.ofNat high, rest)
  else if 0xDC00 ≤ high then none
  else match rest with
    | '\\' :: 'u' :: rest =>
      let (low, rest) ← unit? rest
      if 0xDC00 ≤ low ∧ low ≤ 0xDFFF then
        return (Char.ofNat (0x10000 + (high - 0xD800) * 0x400 + (low - 0xDC00)), rest)
      else none
    | _ => none

/-- The character that a letter stands for after a backslash. -/
def letterEscape? : Char → Option Char
  | '"' => some '"'
  | '\\' => some '\\'
  | '/' => some '/'
  | 'b' => some '\x08'
  | 'f' => some '\x0C'
  | 'n' => some '\n'
  | 'r' => some '\r'
  | 't' => some '\t'
  | _ => none

/-- The character of an escape after its backslash, and what follows it. -/
def escape? : List Char → Option (Char × List Char)
  | [] => none
  | c :: rest => if c = 'u' then numberedEscape? rest else (letterEscape? c).map (·, rest)

theorem unit?_length {text rest : List Char} {n : Nat} (h : unit? text = some (n, rest)) :
    rest.length < text.length := by
  unfold unit? at h
  split at h
  · simp only [bind, Option.bind_eq_some_iff, pure, Option.some.injEq, Prod.mk.injEq] at h
    obtain ⟨_, _, _, _, _, _, _, _, _, rfl⟩ := h
    simp only [List.length_cons]
    omega
  · simp at h

theorem numberedEscape?_length {text rest : List Char} {c : Char}
    (h : numberedEscape? text = some (c, rest)) : rest.length < text.length := by
  unfold numberedEscape? at h
  obtain ⟨⟨high, after⟩, hunit, h⟩ := Option.bind_eq_some_iff.1 h
  have hlt := unit?_length hunit
  dsimp only at h
  split at h
  · simp only [pure, Option.some.injEq, Prod.mk.injEq] at h
    exact h.2 ▸ hlt
  · split at h
    · simp at h
    · split at h
      · obtain ⟨⟨low, last⟩, hlow, h⟩ := Option.bind_eq_some_iff.1 h
        have hlast := unit?_length hlow
        dsimp only at h
        split at h
        · simp only [pure, Option.some.injEq, Prod.mk.injEq] at h
          rw [← h.2]
          simp only [List.length_cons] at hlt
          omega
        · simp at h
      · simp at h

theorem escape?_length {text rest : List Char} {c : Char}
    (h : escape? text = some (c, rest)) : rest.length < text.length := by
  cases text with
  | nil => simp [escape?] at h
  | cons d text =>
    simp only [escape?] at h
    split at h
    · have := numberedEscape?_length h
      simp only [List.length_cons]
      omega
    · simp only [Option.map_eq_some_iff, Prod.mk.injEq] at h
      obtain ⟨_, _, _, rfl⟩ := h
      simp

/-- The characters of a string after its opening quote, and what follows its closing one. A control
character has to be escaped. What follows an escape is always shorter (`escape?_length`). -/
def stringBody? (text : List Char) : Option (List Char × List Char) :=
  match text with
  | [] => none
  | c :: rest =>
    if c = '"' then some ([], rest)
    else if c = '\\' then
      match escape? rest with
      | none => none
      | some (escaped, after) =>
        if _h : after.length < rest.length then
          (stringBody? after).map fun (cs, last) => (escaped :: cs, last)
        else none
    else if c.toNat < 0x20 then none
    else (stringBody? rest).map fun (cs, last) => (c :: cs, last)
termination_by text.length
decreasing_by
  all_goals simp only [List.length_cons]
  all_goals omega

theorem stringBody?_length {text cs rest : List Char}
    (h : stringBody? text = some (cs, rest)) : rest.length < text.length := by
  fun_induction stringBody? text generalizing cs rest with
  | case1 => simp at h
  | case2 =>
    simp only [Option.some.injEq, Prod.mk.injEq] at h
    simp [h.2]
  | case3 => simp at h
  | case4 _ _ _ _ _ hshorter ih =>
    simp only [Option.map_eq_some_iff, Prod.mk.injEq] at h
    obtain ⟨⟨_, _⟩, hbody, _, rfl⟩ := h
    have := ih hbody
    simp only [List.length_cons]
    omega
  | case5 => simp at h
  | case6 => simp at h
  | case7 _ _ _ _ _ ih =>
    simp only [Option.map_eq_some_iff, Prod.mk.injEq] at h
    obtain ⟨⟨_, _⟩, hbody, _, rfl⟩ := h
    have := ih hbody
    simp only [List.length_cons]
    omega

/-! ## Numbers, words and punctuation -/

/-- The value of a run of decimal digits. -/
def decimalValue (digits : List Char) : Nat :=
  digits.foldl (fun value c => value * 10 + (c.toNat - '0'.toNat)) 0

/-- The number that a run of decimal digits spells; a zero in front of other digits spells none. -/
def ofDigits? (digits : List Char) : Option Token :=
  if digits.head? = some '0' ∧ 1 < digits.length then none
  else some (.number (decimalValue digits))

/-- The token that is a single character. -/
def ofPunctuation? : Char → Option Token
  | '\x7b' => some .openBrace
  | '\x7d' => some .closeBrace
  | '[' => some .openBracket
  | ']' => some .closeBracket
  | ':' => some .colon
  | ',' => some .comma
  | _ => none

/-- The tokens that are words. -/
def words : List (String × Token) :=
  [("true", .bool true), ("false", .bool false), ("null", .null)]

/-- The word that a text starts with, and what follows it. -/
def ofWord? (text : List Char) : Option (Token × List Char) :=
  (words.find? fun (word, _) => word.toList.isPrefixOf text).map fun (word, token) =>
    (token, text.drop word.length)

/-- The token that a text starts with, and what follows it. -/
def next? : List Char → Option (Token × List Char)
  | [] => none
  | c :: rest =>
    match ofPunctuation? c with
    | some token => some (token, rest)
    | none =>
      if c = '"' then (stringBody? rest).map fun (cs, last) => (.string (String.ofList cs), last)
      else if c.isDigit then
        (ofDigits? (c :: rest.takeWhile Char.isDigit)).map (·, rest.dropWhile Char.isDigit)
      else ofWord? (c :: rest)

/-- Dropping the front of a list never makes it longer. -/
theorem length_dropWhile_le {p : Char → Bool} (cs : List Char) :
    (cs.dropWhile p).length ≤ cs.length :=
  (List.dropWhile_sublist p).length_le

theorem ofWord?_length {text rest : List Char} {t : Token}
    (h : ofWord? text = some (t, rest)) (hne : text ≠ []) : rest.length < text.length := by
  simp only [ofWord?, Option.map_eq_some_iff, Prod.mk.injEq] at h
  obtain ⟨⟨word, _⟩, hfind, _, rfl⟩ := h
  have hmem := List.mem_of_find?_eq_some hfind
  have hpos : 0 < word.length := by
    simp only [words, List.mem_cons, Prod.mk.injEq, List.not_mem_nil, or_false] at hmem
    rcases hmem with ⟨rfl, _⟩ | ⟨rfl, _⟩ | ⟨rfl, _⟩ <;> decide
  have htext := List.length_pos_iff.2 hne
  simp only [List.length_drop]
  omega

theorem next?_length {text rest : List Char} {t : Token}
    (h : next? text = some (t, rest)) : rest.length < text.length := by
  cases text with
  | nil => simp [next?] at h
  | cons c text =>
    simp only [next?] at h
    split at h
    · simp only [Option.some.injEq, Prod.mk.injEq] at h
      simp [h.2]
    · split at h
      · simp only [Option.map_eq_some_iff, Prod.mk.injEq] at h
        obtain ⟨⟨_, _⟩, hbody, _, rfl⟩ := h
        have := stringBody?_length hbody
        simp only [List.length_cons]
        omega
      · split at h
        · simp only [Option.map_eq_some_iff, Prod.mk.injEq] at h
          obtain ⟨_, _, _, rfl⟩ := h
          have := length_dropWhile_le (p := Char.isDigit) text
          simp only [List.length_cons]
          omega
        · exact ofWord?_length h (by simp)

/-! ## Token lists -/

/-- Whether a character may stand between tokens. -/
def isSpace (c : Char) : Bool :=
  c == ' ' || c == '\t' || c == '\n' || c == '\r'

/-- The tokens of a text. What follows a token is always shorter than the text, as
`next?_dropWhile_length` states, so the test for it only makes the recursion plain. -/
def list? (text : List Char) : Option (List Token) :=
  match text.dropWhile isSpace with
  | [] => some []
  | c :: rest =>
    match next? (c :: rest) with
    | none => none
    | some (token, after) =>
      if _h : after.length < text.length then (list? after).map (token :: ·) else none
termination_by text.length

/-- What follows a token is shorter than the text, whatever spaces stood before the token. -/
theorem next?_dropWhile_length {text rest : List Char} {t : Token}
    (h : next? (text.dropWhile isSpace) = some (t, rest)) : rest.length < text.length :=
  Nat.lt_of_lt_of_le (next?_length h) (length_dropWhile_le text)

end Token

end EightBit
