/-
# EightBit.Proofs.WrittenConfiguration -- configurations as JSON objects

A `Document` is a JSON object as anyone may write it: members with any names and any JSON values, in any
order, with spaces wherever JSON allows them. `ofText?_eq_some_iff` says of every document whether it is read,
and as what: it is read as the configuration that it gives, and if it gives none it is not read. It gives a
configuration if its names are names of fields and no two the same, if every value writes the one that the
configuration has in that field, and if every field that is left out has its default.

The reader collects values field by field, and what it has collected is known by what it holds for each field
(`Given.value?`). To add a member is to update that function at a field where it had nothing.
-/
import EightBit.Proofs.JsonMembers

namespace EightBit.Configuration

open JsonText
open Token (list?)

/-! ## Fields -/

/-- The value of a limit on cycles. -/
def Value.ofLimit : Option UInt64 → Value
  | none => .null
  | some n => .number n.toNat

/-- The value of a field in a configuration. -/
def Field.value : Field → Configuration → Value
  | .strict, c => .bool c.strict
  | .profile, c => .name c.profile.name
  | .maxCycles, c => .ofLimit c.maxCycles

/-- The value that is given for a field. -/
def Given.value? (g : Given) : Field → Option Value
  | .strict => g.strict.map .bool
  | .profile => g.profile.map fun p => .name p.name
  | .maxCycles => g.maxCycles.map .ofLimit

theorem Value.ofLimit_injective : Function.Injective Value.ofLimit := by
  rintro (_ | n) (_ | n') h
  · rfl
  · cases h
  · cases h
  · rw [UInt64.toNat.inj (Value.number.inj h)]

theorem profileNamed?_eq_some_iff {name : String} {p : Profile} :
    profileNamed? name = some p ↔ p.name = name := by
  constructor
  · intro h
    simpa using List.find?_some h
  · rintro rfl
    cases p <;> rfl

theorem profileName_injective : Function.Injective Profile.name := by
  intro p p' h
  cases p <;> cases p' <;> first | rfl | exact absurd h (by decide)

/-- A configuration is known by the values of its fields. -/
theorem ext_value {c c' : Configuration} (h : ∀ f : Field, f.value c = f.value c') : c = c' := by
  obtain ⟨strict, profile, maxCycles⟩ := c
  obtain rfl : strict = c'.strict := Value.bool.inj (h .strict)
  obtain rfl : profile = c'.profile := profileName_injective (Value.name.inj (h .profile))
  obtain rfl : maxCycles = c'.maxCycles := Value.ofLimit_injective (h .maxCycles)
  rfl

/-- Completing what is given adds the defaults of the other fields. -/
theorem Field.value_complete (f : Field) (g : Given) :
    f.value g.complete = (g.value? f).getD (f.value {}) := by
  obtain ⟨strict, profile, maxCycles⟩ := g
  cases f with
  | strict => cases strict <;> rfl
  | profile => cases profile <;> rfl
  | maxCycles => cases maxCycles <;> rfl

/-- What is added is the value of a field that had none. -/
theorem Given.value?_of_add? {g g' : Given} {f : Field} {v : Value} (h : g.add? f v = some g') :
    g.value? f = none ∧ g'.value? = Function.update g.value? f (some v) := by
  obtain ⟨strict, profile, maxCycles⟩ := g
  unfold Given.add? at h
  split at h
  case h_1 b =>
    obtain ⟨hnone, ⟨⟩⟩ := Option.ite_none_right_eq_some.mp h
    obtain rfl := Option.isNone_iff_eq_none.mp hnone
    exact ⟨rfl, funext fun f => by cases f <;> rfl⟩
  case h_2 name =>
    obtain ⟨hnone, h⟩ := Option.ite_none_right_eq_some.mp h
    obtain rfl := Option.isNone_iff_eq_none.mp hnone
    obtain ⟨p, hname, rfl⟩ := Option.map_eq_some_iff.mp h
    obtain rfl := profileNamed?_eq_some_iff.mp hname
    exact ⟨rfl, funext fun f => by cases f <;> rfl⟩
  case h_3 =>
    obtain ⟨hnone, ⟨⟩⟩ := Option.ite_none_right_eq_some.mp h
    obtain rfl := Option.isNone_iff_eq_none.mp hnone
    exact ⟨rfl, funext fun f => by cases f <;> rfl⟩
  case h_4 n =>
    obtain ⟨⟨hnone, hn⟩, ⟨⟩⟩ := Option.ite_none_right_eq_some.mp h
    obtain rfl := Option.isNone_iff_eq_none.mp hnone
    refine ⟨rfl, funext fun f => ?_⟩
    cases f with
    | strict => rfl
    | profile => rfl
    | maxCycles =>
      show some (Value.number (UInt64.ofNat n).toNat) = some (.number n)
      rw [UInt64.toNat_ofNat_of_lt' hn]
  case h_5 => cases h

/-- A field without value can be given the value that it has in any configuration. -/
theorem Given.exists_add? {g : Given} {f : Field} (h : g.value? f = none) (c : Configuration) :
    ∃ g', g.add? f (f.value c) = some g' := by
  obtain ⟨strict, profile, maxCycles⟩ := g
  cases f with
  | strict =>
    obtain rfl : strict = none := Option.map_eq_none_iff.mp h
    exact ⟨_, rfl⟩
  | profile =>
    obtain rfl : profile = none := Option.map_eq_none_iff.mp h
    have hname := profileNamed?_eq_some_iff.mpr (rfl : c.profile.name = c.profile.name)
    exact ⟨_, Option.map_eq_some_iff.mpr ⟨_, hname, rfl⟩⟩
  | maxCycles =>
    obtain rfl : maxCycles = none := Option.map_eq_none_iff.mp h
    obtain ⟨_, _, _ | n⟩ := c
    · exact ⟨_, rfl⟩
    · exact ⟨_, if_pos ⟨rfl, n.toNat_lt_size⟩⟩

/-! ## Members -/

/-- What is given after members that have been read: the value of each of them for the field that has its
name, and for every other field what was given before. -/
structure Collected (g : Given) (ms : List Member) (g' : Given) : Prop where
  distinct : (ms.map Member.name).Nodup
  member : ∀ m ∈ ms, ∃ f v, m.Gives f v ∧ g.value? f = none ∧ g'.value? f = some v
  others : ∀ f : Field, f.name ∉ ms.map Member.name → g'.value? f = g.value? f

/-- One member more in front. Its field has a value after it, so it is none of those that come later. -/
theorem Collected.cons {g g₁ g' : Given} {m : Member} {ms : List Member} {f : Field} {v : Value}
    (hgives : m.Gives f v) (hadd : g.add? f v = some g₁) (h : Collected g₁ ms g') :
    Collected g (m :: ms) g' := by
  obtain ⟨hnone, hupdate⟩ := Given.value?_of_add? hadd
  have hgiven : g₁.value? f = some v := by rw [hupdate, Function.update_self]
  have hother : ∀ {f'}, f' ≠ f → g₁.value? f' = g.value? f' := by
    intro f' hne
    rw [hupdate, Function.update_of_ne hne]
  have hlater : ∀ {f'}, g₁.value? f' = none → f' ≠ f := by
    rintro _ hf' rfl
    rw [hgiven] at hf'
    cases hf'
  have hfresh : f.name ∉ ms.map Member.name := by
    intro hmem
    obtain ⟨m', hm', hname⟩ := List.mem_map.mp hmem
    obtain ⟨f', v', hgives', hnone', -⟩ := h.member m' hm'
    exact hlater hnone' (Field.name_injective (hgives'.name.trans hname))
  refine ⟨?_, ?_, ?_⟩
  · rw [List.map_cons, List.nodup_cons, ← hgives.name]
    exact ⟨hfresh, h.distinct⟩
  · rw [List.forall_mem_cons]
    refine ⟨⟨f, v, hgives, hnone, (h.others f hfresh).trans hgiven⟩, fun m' hm' => ?_⟩
    obtain ⟨f', v', hgives', hnone', hvalue⟩ := h.member m' hm'
    exact ⟨f', v', hgives', (hother (hlater hnone')).symm.trans hnone', hvalue⟩
  · intro f' hf'
    rw [List.map_cons, List.mem_cons, not_or, ← hgives.name] at hf'
    have hne : f' ≠ f := fun heq => hf'.1 (congrArg Field.name heq)
    exact (h.others f' hf'.2).trans (hother hne)

theorem Adds.collected {g g' : Given} {ms : List Member} (h : Adds g ms g') : Collected g ms g' := by
  induction h with
  | nil => exact ⟨List.nodup_nil, nofun, fun _ _ => rfl⟩
  | cons hgives hadd _ ih => exact ih.cons hgives hadd

/-- Members with different names are read if each of them writes what a configuration has in a field that
is not given yet. -/
theorem exists_adds {c : Configuration} {g : Given} {ms : List Member}
    (hdistinct : (ms.map Member.name).Nodup)
    (h : ∀ m ∈ ms, ∃ f : Field, m.Gives f (f.value c) ∧ g.value? f = none) : ∃ g', Adds g ms g' := by
  induction ms generalizing g with
  | nil => exact ⟨g, .nil⟩
  | cons m ms ih =>
    rw [List.map_cons, List.nodup_cons] at hdistinct
    rw [List.forall_mem_cons] at h
    obtain ⟨⟨f, hgives, hnone⟩, h⟩ := h
    obtain ⟨g₁, hadd⟩ := Given.exists_add? hnone c
    have hrest : ∀ m' ∈ ms, ∃ f : Field, m'.Gives f (f.value c) ∧ g₁.value? f = none := by
      intro m' hm'
      obtain ⟨f', hgives', hnone'⟩ := h m' hm'
      have hne : f' ≠ f := by
        rintro rfl
        exact hdistinct.1 (List.mem_map.mpr ⟨m', hm', hgives'.name.symm.trans hgives.name⟩)
      refine ⟨f', hgives', ?_⟩
      rw [(Given.value?_of_add? hadd).2, Function.update_of_ne hne, hnone']
    obtain ⟨g', hadds⟩ := ih hdistinct.2 hrest
    exact ⟨g', .cons hgives hadd hadds⟩

/-! ## Documents -/

/-- An object, with spaces before it, after it and after its opening brace. -/
structure Document where
  before : Spaces
  inside : Spaces
  members : List Member
  after : Spaces

namespace Document

/-- The text of a document. -/
def text (d : Document) : String :=
  String.ofList (d.before.text ++ '\x7b' :: (d.inside.text ++
    (membersText d.members ++ '\x7d' :: d.after.text)))

/-- The document gives the configuration `c`. -/
structure Gives (d : Document) (c : Configuration) : Prop where
  distinct : (d.members.map Member.name).Nodup
  member : ∀ m ∈ d.members, ∃ f : Field, m.Gives f (f.value c)
  omitted : ∀ f : Field, f.name ∉ d.members.map Member.name → f.value c = f.value {}

theorem gives_iff {d : Document} {c : Configuration} :
    d.Gives c ↔ ∃ g, Adds Given.nothing d.members g ∧ g.complete = c := by
  have hnothing : ∀ f, Given.nothing.value? f = none := by
    intro f
    cases f <;> rfl
  constructor
  · intro h
    obtain ⟨g, hadds⟩ := exists_adds (c := c) (g := Given.nothing) h.distinct fun m hm =>
      (h.member m hm).imp fun f hgives => ⟨hgives, hnothing f⟩
    refine ⟨g, hadds, ext_value fun f => ?_⟩
    rw [Field.value_complete]
    by_cases hmem : f.name ∈ d.members.map Member.name
    · obtain ⟨m, hm, hname⟩ := List.mem_map.mp hmem
      obtain ⟨f₁, v, hgives₁, -, hvalue⟩ := hadds.collected.member m hm
      obtain ⟨f₂, hgives₂⟩ := h.member m hm
      obtain rfl : f₁ = f := Field.name_injective (hgives₁.name.trans hname)
      obtain rfl : f₂ = f₁ := Field.name_injective (hgives₂.name.trans hname)
      rw [hvalue, Option.getD_some, hgives₁.value.unique hgives₂.value]
    · rw [hadds.collected.others f hmem, hnothing, Option.getD_none, h.omitted f hmem]
  · rintro ⟨g, hadds, rfl⟩
    refine ⟨hadds.collected.distinct, fun m hm => ?_, fun f hf => ?_⟩
    · obtain ⟨f, v, hgives, -, hvalue⟩ := hadds.collected.member m hm
      refine ⟨f, ?_⟩
      rwa [Field.value_complete, hvalue]
    · rw [Field.value_complete, hadds.collected.others f hf, hnothing, Option.getD_none]

/-- The tokens of a document give what its members add to nothing. -/
theorem given?_tokens {d : Document} {g : Given} :
    (list? d.text.toList).bind given? = some g ↔ Adds Given.nothing d.members g := by
  obtain ⟨before, inside, members, after⟩ := d
  rw [text, String.toList_ofList, Token.list?_spaces, Token.list?_punctuation (t := .openBrace) rfl,
    Token.list?_spaces, Option.bind_map]
  cases members with
  | nil =>
    rw [membersText, List.map_nil, List.intercalate_nil, List.nil_append, Token.list?_lastBrace]
    constructor
    · rintro ⟨⟩
      exact .nil
    · rintro ⟨⟩
      rfl
  | cons m ms =>
    -- a member begins with its name and a colon, so what comes first is not the closing brace
    have hnext : ∃ next, membersText (m :: ms) ++ '\x7d' :: after.text = m.text ++ next := by
      cases ms with
      | nil => exact ⟨_, by rw [membersText_singleton]⟩
      | cons m' ms => exact ⟨_, by rw [membersText_cons_cons, List.append_assoc]⟩
    rw [← members?_membersText m ms after]
    obtain ⟨next, hnext⟩ := hnext
    rw [hnext, m.list?_text, Option.bind_map, Option.bind_map]
    rfl

/-- **Every document.** A document is read as the configuration that it gives, and not at all if it gives
none. -/
theorem ofText?_eq_some_iff {d : Document} {c : Configuration} :
    ofText? d.text = some c ↔ d.Gives c := by
  have hread : ofText? d.text = ((list? d.text.toList).bind given?).map Given.complete := by
    rw [ofText?]
    simp only [bind, pure, Option.bind_assoc, Option.map_eq_bind]
    rfl
  rw [hread, Option.map_eq_some_iff, gives_iff]
  simp only [given?_tokens]

end Document

/-! ## Writing -/

/-- The text of a value. -/
def Value.text : Value → List Char
  | .null => "null".toList
  | .bool b => (toString b).toList
  | .number n => Nat.toDigits 10 n
  | .name word => '"' :: (word.toList ++ ['"'])

theorem Value.writes_number (n : Nat) : Writes (.number n) (Nat.toDigits 10 n) := by
  have h := Writes.number (isInteger_toDigits n)
  rwa [Nat.ofDigitChars_ten_toDigits] at h

theorem Value.writes_name {word : String}
    (h : ∀ c ∈ word.toList, c ≠ '"' ∧ c ≠ '\\' ∧ 0x20 ≤ c.toNat) :
    Writes (.name word) (Value.name word).text := by
  have h := Writes.name (Spells.plain h)
  rwa [String.ofList_toList] at h

/-- The text of a value that a field has writes it. -/
theorem Field.writes_text (f : Field) (c : Configuration) : Writes (f.value c) (f.value c).text := by
  obtain ⟨strict, profile, maxCycles⟩ := c
  cases f with
  | strict => exact .bool strict
  | profile => exact Value.writes_name (by cases profile <;> simp [Profile.name])
  | maxCycles =>
    cases maxCycles with
    | none => exact .null
    | some n => exact Value.writes_number n.toNat

theorem Field.spells_name (f : Field) : Spells f.name.toList f.name.toList :=
  .plain (by cases f <;> simp [Field.name])

/-- The spaces in an object that is written for a configuration. -/
structure Layout where
  before : Spaces
  inside : Spaces
  gaps : Field → Gaps
  after : Spaces

namespace Layout

/-- The member for a field. -/
def member (l : Layout) (c : Configuration) (f : Field) : Member where
  gaps := l.gaps f
  name := f.name
  key := f.name.toList
  value := (f.value c).text
  spells := f.spells_name
  isValue := (f.writes_text c).isValue

/-- The object that writes some fields of a configuration, in the order in which they are listed. -/
def write (l : Layout) (c : Configuration) (fields : List Field) : Document where
  before := l.before
  inside := l.inside
  members := fields.map (l.member c)
  after := l.after

/-- What is written for a configuration gives it, as long as only defaults are left out. -/
theorem gives_write (l : Layout) {c : Configuration} {fields : List Field} (hdistinct : fields.Nodup)
    (homitted : ∀ f ∉ fields, f.value c = f.value {}) : (l.write c fields).Gives c := by
  have hnames : (l.write c fields).members.map Member.name = fields.map Field.name := List.map_map
  refine ⟨?_, ?_, ?_⟩
  · rw [hnames]
    exact hdistinct.map Field.name_injective
  · intro m hm
    obtain ⟨f, -, rfl⟩ := List.mem_map.mp hm
    exact ⟨f, rfl, f.writes_text c⟩
  · intro f hf
    rw [hnames] at hf
    exact homitted f fun hmem => hf (List.mem_map_of_mem hmem)

end Layout

/-- The limit on cycles in a document that gives a configuration fits into 64 bits. -/
theorem Document.Gives.limit_lt {d : Document} {c : Configuration} {m : Member} {n : Nat} (h : d.Gives c)
    (hm : m ∈ d.members) (hname : m.name = Field.maxCycles.name) (hvalue : m.value = Nat.toDigits 10 n) :
    n < 2 ^ 64 := by
  obtain ⟨f, hgives⟩ := h.member m hm
  obtain rfl : f = .maxCycles := Field.name_injective (hgives.name.trans hname)
  have hlimit : Value.ofLimit c.maxCycles = .number n := by
    apply hgives.value.unique
    rw [hvalue]
    exact Value.writes_number n
  cases hmax : c.maxCycles with
  | none =>
    rw [hmax] at hlimit
    cases hlimit
  | some limit =>
    rw [hmax] at hlimit
    obtain rfl := Value.number.inj hlimit
    exact limit.toNat_lt

/-- The greatest limit on cycles there is, in strict mode. -/
def greatestLimit : Configuration where
  strict := true
  maxCycles := some 18446744073709551615

def noSpaces : Spaces := ⟨[], nofun⟩

def allSpaces : Spaces := ⟨[' ', '\t', '\n', '\r'], fun _ h => h⟩

/-- Every kind of space before each colon, and no others. -/
def beforeColons : Layout where
  before := noSpaces
  inside := noSpaces
  gaps _ := ⟨noSpaces, allSpaces, noSpaces, noSpaces⟩
  after := noSpaces

/-- A member without spaces in it. -/
def dense (name : String) (spells : Spells name.toList name.toList) {value : List Char}
    (isValue : IsValue value) : Member :=
  { gaps := ⟨noSpaces, noSpaces, noSpaces, noSpaces⟩, name, key := name.toList, value, spells, isValue }

def turbo : Member := dense "turbo" (.plain (by simp)) (.bool true)

def strictAs (b : Bool) : Member := dense Field.strict.name Field.strict.spells_name (.bool b)

def limitTo (n : Nat) : Member :=
  dense Field.maxCycles.name Field.maxCycles.spells_name (Value.writes_number n).isValue

/-- An object without spaces around its members. -/
def object (members : List Member) : Document := ⟨noSpaces, noSpaces, members, noSpaces⟩

end EightBit.Configuration
