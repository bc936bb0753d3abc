/-
# EightBit.Proofs.JsonMembers -- values and members as they are read

What a reader makes of the members of an object, said by their text. `Writes` are the texts that write a
value; it is shown from both sides, since a text has to be refused as well as read: what is written is read,
and what is read is written. The same is then said of a member and, by induction, of members with commas
between them: the reader takes from a text what its members add one after the other, and nothing else.
-/
import EightBit.Proofs.JsonText

namespace EightBit.Configuration

open JsonText
open Token (list? EndsNumber)

/-! ## Values -/

section Values

/-- The texts that write a value. Besides the literal a name is written by an object that has it as its
only key, with the value null. -/
inductive Writes : Value → List Char → Prop
  | null : Writes .null "null".toList
  | bool (b : Bool) : Writes (.bool b) (toString b).toList
  | number {text : List Char} (h : IsInteger text) :
      Writes (.number (Nat.ofDigitChars 10 text 0)) text
  | name {key name : List Char} (h : Spells key name) :
      Writes (.name (String.ofList name)) ('"' :: (key ++ ['"']))
  | key {key name : List Char} (gaps : Gaps) (h : Spells key name) :
      Writes (.name (String.ofList name))
        ('\x7b' :: (memberText gaps key "null".toList ++ ['\x7d']))

theorem Writes.isValue {v : Value} {text : List Char} (h : Writes v text) : IsValue text := by
  cases h with
  | null => exact .null
  | bool b => exact .bool b
  | number h =>
    have hnumber := IsNumber.mk (.head _) h .absent .absent
    rw [List.nil_append, List.append_nil, List.append_nil] at hnumber
    exact .number hnumber
  | name h => exact .string h
  | key gaps h => exact .object (.last gaps h .null)

variable {v : Value} {text next : List Char}

theorem endsNumber_brace (rest : List Char) : EndsNumber ('\x7d' :: rest) := by
  rintro c ⟨⟩
  rfl

theorem endsNumber_comma (rest : List Char) : EndsNumber (',' :: rest) := by
  rintro c ⟨⟩
  rfl

/-- A value in front of some tokens is the value of all of them. -/
theorem bind_ofTokens? {front : List Token → List Token}
    (h : ∀ ts, Value.ofTokens? (front ts) = some (v, ts)) (tokens : Option (List Token)) :
    (tokens.map front).bind Value.ofTokens? = tokens.map fun ts => (v, ts) := by
  cases tokens with
  | none => rfl
  | some ts => exact h ts

/-- What is written is read, and reading goes on after it. -/
theorem ofTokens?_of_writes (h : Writes v text) (hnext : EndsNumber next) :
    (list? (text ++ next)).bind Value.ofTokens? = (list? next).map fun ts => (v, ts) := by
  cases h with
  | null =>
    rw [Token.list?_null]
    exact bind_ofTokens? (fun _ => rfl) _
  | bool b =>
    rw [Token.list?_bool]
    exact bind_ofTokens? (fun _ => rfl) _
  | number h =>
    rw [Token.list?_integer h hnext]
    exact bind_ofTokens? (fun _ => rfl) _
  | name h =>
    rw [List.cons_append, List.append_assoc, List.singleton_append, Token.list?_string h]
    exact bind_ofTokens? (fun _ => rfl) _
  | key gaps h =>
    rw [List.cons_append, List.append_assoc, List.singleton_append,
      Token.list?_punctuation (t := .openBrace) rfl, Token.list?_memberText h, Token.list?_null,
      Token.list?_spaces, Token.list?_punctuation (t := .closeBrace) rfl, Option.map_map,
      Option.map_map, Option.map_map]
    exact bind_ofTokens? (fun _ => rfl) _

/-- A text writes one value at most. -/
theorem Writes.unique {v' : Value} (h : Writes v text) (h' : Writes v' text) : v = v' := by
  have hends : EndsNumber [] := nofun
  have hread := (ofTokens?_of_writes h hends).symm.trans (ofTokens?_of_writes h' hends)
  rw [Token.list?_eq] at hread
  exact congrArg Prod.fst (Option.some.inj hread)

/-- A value that has tokens is written as a configuration's values are, or is a list or an object. -/
theorem writes_or_compound {ts : List Token} (h : IsValue text)
    (hts : list? (text ++ next) = some ts) :
    (∃ v, Writes v text) ∨ (∃ rest, text = '[' :: rest)
      ∨ ∃ inside, text = '\x7b' :: (inside ++ ['\x7d'])
        ∧ ((∃ w : Spaces, inside = w.text) ∨ IsMembers inside) := by
  cases h with
  | null => exact .inl ⟨_, .null⟩
  | bool b => exact .inl ⟨_, .bool b⟩
  | number h => exact .inl ⟨_, .number (Token.isInteger_of_isNumber h hts)⟩
  | string h => exact .inl ⟨_, .name h⟩
  | emptyList | list => exact .inr (.inl ⟨_, rfl⟩)
  | emptyObject w => exact .inr (.inr ⟨_, rfl, .inl ⟨w, rfl⟩⟩)
  | object h => exact .inr (.inr ⟨_, rfl, .inr h⟩)

/-- A value whose first token is null is null. -/
theorem eq_null_of_tokens {ts : List Token} (h : IsValue text) (hnext : EndsNumber next)
    (hts : list? (text ++ next) = some (.null :: ts)) : text = "null".toList := by
  rcases writes_or_compound h hts with ⟨v, hwrites⟩ | ⟨rest, rfl⟩ | ⟨inside, rfl, -⟩
  · have hread := ofTokens?_of_writes hwrites hnext
    rw [hts, Option.bind_some] at hread
    obtain ⟨_, -, hvalue⟩ := Option.map_eq_some_iff.mp hread.symm
    obtain rfl : v = .null := congrArg Prod.fst hvalue
    cases hwrites
    rfl
  · obtain ⟨_, -, ⟨⟩⟩ := Token.exists_of_punctuation (t := .openBracket) rfl hts
  · obtain ⟨_, -, ⟨⟩⟩ := Token.exists_of_punctuation (t := .openBrace) rfl hts

/-- Of what is read as an object, a value is only one with a single key whose value is null. -/
theorem eq_of_ofTokens?_object {ts after : List Token}
    (h : Value.ofTokens? (.openBrace :: ts) = some (v, after)) :
    ∃ name, ts = .string name :: .colon :: .null :: .closeBrace :: after := by
  unfold Value.ofTokens? at h
  split at h
  case h_5 name _ heq =>
    cases heq
    cases h
    exact ⟨name, rfl⟩
  case h_6 => cases h
  all_goals
    rename_i heq
    cases heq

/-- The object after whose opening brace `inside` and the closing brace come is read as a value only if it
has a single key and that key's value is null. -/
theorem writes_of_object {inside : List Char} {after : List Token} (h : IsMembers inside)
    (hread : (list? ('\x7b' :: (inside ++ ['\x7d']) ++ next)).bind Value.ofTokens?
      = some (v, after)) : Writes v ('\x7b' :: (inside ++ ['\x7d'])) := by
  obtain ⟨_, htokens, hvalue⟩ := Option.bind_eq_some_iff.mp hread
  rw [List.cons_append, List.append_assoc, List.singleton_append] at htokens
  obtain ⟨ts, hts, rfl⟩ := Token.exists_of_punctuation (t := .openBrace) rfl htokens
  obtain ⟨name', rfl⟩ := eq_of_ofTokens?_object hvalue
  cases h with
  | @last key name value gaps hkey h =>
    rw [Token.list?_memberText hkey] at hts
    obtain ⟨tokens, hvalueTokens, heq⟩ := Option.map_eq_some_iff.mp hts
    cases heq
    obtain rfl := eq_null_of_tokens h ((endsNumber_brace next).spaces gaps.afterValue) hvalueTokens
    cases hvalue
    exact .key gaps hkey
  | @more key name value members gaps hkey h _ =>
    -- the value is null, and then comes a comma where the brace should be
    rw [List.append_assoc, List.cons_append, Token.list?_memberText hkey] at hts
    obtain ⟨tokens, hvalueTokens, heq⟩ := Option.map_eq_some_iff.mp hts
    cases heq
    have hends := (endsNumber_comma (members ++ '\x7d' :: next)).spaces gaps.afterValue
    obtain rfl := eq_null_of_tokens h hends hvalueTokens
    rw [Token.list?_null, Token.list?_spaces] at hvalueTokens
    obtain ⟨_, hcomma, ⟨⟩⟩ := Option.map_eq_some_iff.mp hvalueTokens
    obtain ⟨_, -, ⟨⟩⟩ := Token.exists_of_punctuation (t := .comma) rfl hcomma

/-- What is read is written. -/
theorem writes_of_ofTokens? {after : List Token} (h : IsValue text) (hnext : EndsNumber next)
    (hread : (list? (text ++ next)).bind Value.ofTokens? = some (v, after)) : Writes v text := by
  obtain ⟨ts, hts, hvalue⟩ := Option.bind_eq_some_iff.mp hread
  rcases writes_or_compound h hts with ⟨v', hwrites⟩ | ⟨rest, rfl⟩ | ⟨inside, rfl, ⟨w, rfl⟩ | hmembers⟩
  · rw [ofTokens?_of_writes hwrites hnext] at hread
    obtain ⟨_, -, heq⟩ := Option.map_eq_some_iff.mp hread
    obtain rfl : v' = v := congrArg Prod.fst heq
    exact hwrites
  · obtain ⟨_, -, rfl⟩ := Token.exists_of_punctuation (t := .openBracket) rfl hts
    cases hvalue
  · rw [List.cons_append, List.append_assoc, List.singleton_append] at hts
    obtain ⟨_, hclose, rfl⟩ := Token.exists_of_punctuation (t := .openBrace) rfl hts
    rw [Token.list?_spaces] at hclose
    obtain ⟨_, -, rfl⟩ := Token.exists_of_punctuation (t := .closeBrace) rfl hclose
    cases hvalue
  · exact writes_of_object hmembers hread

end Values

/-! ## Members -/

/-- A member of an object: its name, as it is spelled between its quotes, and the text of its value. -/
structure Member where
  gaps : Gaps
  name : String
  key : List Char
  value : List Char
  spells : Spells key name.toList
  isValue : IsValue value

namespace Member

/-- The text of a member. -/
def text (m : Member) : List Char := memberText m.gaps m.key m.value

/-- The member gives the value `v` for the field `f`. -/
structure Gives (m : Member) (f : Field) (v : Value) : Prop where
  name : f.name = m.name
  value : Writes v m.value

end Member

theorem Field.name_injective : Function.Injective Field.name := by
  intro f f' h
  cases f <;> cases f' <;> first | rfl | exact absurd h (by decide)

theorem Field.ofName?_eq_some_iff {name : String} {f : Field} : ofName? name = some f ↔ f.name = name := by
  constructor
  · intro h
    simpa using List.find?_some h
  · rintro rfl
    cases f <;> rfl

/-- What a reader does after a member: it ends with the brace that ends the text, or goes on after a
comma. -/
inductive GoesOn (g : Given) : List Token → Given → Prop
  | last : GoesOn g [.closeBrace] g
  | more {ts : List Token} {g' : Given} (h : members? g ts = some g') : GoesOn g (.comma :: ts) g'

/-- Reading members is reading a name, a colon and a value, adding what they give, and going on. -/
theorem members?_eq_some_iff {g g' : Given} {name : String} {ts : List Token} :
    members? g (.string name :: .colon :: ts) = some g' ↔
      ∃ f v g₁ after, f.name = name ∧ Value.ofTokens? ts = some (v, after)
        ∧ g.add? f v = some g₁ ∧ GoesOn g₁ after g' := by
  constructor
  · intro h
    rw [members?] at h
    split at h
    · cases h
    · next v after hvalue =>
      split at h
      · cases h
      · next g₁ hadd =>
        obtain ⟨f, hname, hadd⟩ := Option.bind_eq_some_iff.mp hadd
        have hgoes : GoesOn g₁ after g' := by
          split at h
          · cases h
            exact .last
          · split at h
            · exact .more h
            · cases h
          · cases h
        exact ⟨f, v, g₁, after, Field.ofName?_eq_some_iff.mp hname, hvalue, hadd, hgoes⟩
  · rintro ⟨f, v, g₁, after, hname, hvalue, hadd, hgoes⟩
    have hlength := Value.ofTokens?_length hvalue
    have hfield : (Field.ofName? name).bind (g.add? · v) = some g₁ := by
      rw [Field.ofName?_eq_some_iff.mpr hname, Option.bind_some, hadd]
    rw [members?]
    simp only [hvalue, hfield]
    cases hgoes with
    | last => rfl
    | more h =>
      rw [List.length_cons] at hlength
      exact (dif_pos (Nat.lt_of_succ_lt hlength)).trans h

theorem Member.list?_text (m : Member) (next : List Char) :
    list? (m.text ++ next)
      = (list? (m.value ++ (m.gaps.afterValue.text ++ next))).map fun ts =>
          .string m.name :: .colon :: ts := by
  rw [Member.text, Token.list?_memberText m.spells, String.ofList_toList]

/-- **One member.** Reading a text that begins with a member is adding what the member gives, and going on
with what follows it. -/
theorem members?_text {g g' : Given} {m : Member} {next : List Char} (hnext : EndsNumber next) :
    (list? (m.text ++ next)).bind (members? g) = some g' ↔
      ∃ f v g₁ after, m.Gives f v ∧ g.add? f v = some g₁ ∧ list? next = some after
        ∧ GoesOn g₁ after g' := by
  have hends : EndsNumber (m.gaps.afterValue.text ++ next) := hnext.spaces _
  have hvalue : ∀ v after, (list? (m.value ++ (m.gaps.afterValue.text ++ next))).bind Value.ofTokens?
      = some (v, after) ↔ Writes v m.value ∧ list? next = some after := by
    intro v after
    constructor
    · intro h
      have hwrites := writes_of_ofTokens? m.isValue hends h
      rw [ofTokens?_of_writes hwrites hends, Token.list?_spaces] at h
      obtain ⟨_, htokens, heq⟩ := Option.map_eq_some_iff.mp h
      cases heq
      exact ⟨hwrites, htokens⟩
    · rintro ⟨hwrites, htokens⟩
      rw [ofTokens?_of_writes hwrites hends, Token.list?_spaces, htokens, Option.map_some]
  rw [m.list?_text, Option.bind_map, Option.bind_eq_some_iff]
  constructor
  · rintro ⟨ts, hts, h⟩
    obtain ⟨f, v, g₁, after, hname, hread, hadd, hgoes⟩ := members?_eq_some_iff.mp h
    obtain ⟨hwrites, htokens⟩ := (hvalue v after).mp (Option.bind_eq_some_iff.mpr ⟨ts, hts, hread⟩)
    exact ⟨f, v, g₁, after, ⟨hname, hwrites⟩, hadd, htokens, hgoes⟩
  · rintro ⟨f, v, g₁, after, hgives, hadd, htokens, hgoes⟩
    obtain ⟨ts, hts, hread⟩ :=
      Option.bind_eq_some_iff.mp ((hvalue v after).mpr ⟨hgives.value, htokens⟩)
    exact ⟨ts, hts, members?_eq_some_iff.mpr ⟨f, v, g₁, after, hgives.name, hread, hadd, hgoes⟩⟩

/-- What members one after the other give, beside what is given already. -/
inductive Adds : Given → List Member → Given → Prop
  | nil {g : Given} : Adds g [] g
  | cons {g g₁ g' : Given} {m : Member} {ms : List Member} {f : Field} {v : Value} (h : m.Gives f v)
      (hadd : g.add? f v = some g₁) (hrest : Adds g₁ ms g') : Adds g (m :: ms) g'

/-- The text of members, with a comma between two of them. -/
def membersText (ms : List Member) : List Char := [','].intercalate (ms.map Member.text)

theorem membersText_singleton (m : Member) : membersText [m] = m.text := List.intercalate_singleton ..

theorem membersText_cons_cons (m m' : Member) (ms : List Member) :
    membersText (m :: m' :: ms) = m.text ++ ',' :: membersText (m' :: ms) := by
  rw [membersText, List.map_cons, List.map_cons, List.intercalate_cons_cons, List.append_assoc,
    List.singleton_append]
  rfl

/-- **All members.** Members with commas between them and a brace after the last are read for what they give
one after the other. -/
theorem members?_membersText {g g' : Given} (m : Member) (ms : List Member) (after : Spaces) :
    (list? (membersText (m :: ms) ++ '\x7d' :: after.text)).bind (members? g) = some g'
      ↔ Adds g (m :: ms) g' := by
  induction ms generalizing g m with
  | nil =>
    rw [membersText_singleton, members?_text (endsNumber_brace _)]
    constructor
    · rintro ⟨f, v, g₁, tokens, hgives, hadd, htokens, hgoes⟩
      obtain rfl := Option.some.inj ((Token.list?_lastBrace after).symm.trans htokens)
      cases hgoes
      exact .cons hgives hadd .nil
    · intro h
      cases h with
      | cons hgives hadd hrest =>
        cases hrest
        exact ⟨_, _, _, _, hgives, hadd, Token.list?_lastBrace after, .last⟩
  | cons m' ms ih =>
    rw [membersText_cons_cons, List.append_assoc, List.cons_append, members?_text (endsNumber_comma _)]
    constructor
    · rintro ⟨f, v, g₁, tokens, hgives, hadd, htokens, hgoes⟩
      obtain ⟨ts, hts, rfl⟩ := Token.exists_of_punctuation (t := .comma) rfl htokens
      cases hgoes with
      | more h =>
        exact .cons hgives hadd ((ih m').mp (Option.bind_eq_some_iff.mpr ⟨ts, hts, h⟩))
    · intro h
      cases h with
      | cons hgives hadd hrest =>
        obtain ⟨ts, hts, h⟩ := Option.bind_eq_some_iff.mp ((ih m').mpr hrest)
        have hcomma := Token.list?_punctuation (c := ',') (t := .comma) rfl
          (membersText (m' :: ms) ++ '\x7d' :: after.text)
        rw [hts, Option.map_some] at hcomma
        exact ⟨_, _, _, _, hgives, hadd, hcomma, .more h⟩

end EightBit.Configuration
