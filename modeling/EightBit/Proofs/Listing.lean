/-
# EightBit.Proofs.Listing -- a listing loses nothing and shows nothing twice

The sweep of a listing moves on by the length of what it finds, which may be an instruction, a byte that
names none, or an instruction that the bytes end in the middle of. `Sweeps` is what this comes to for the
entries as a whole; it holds of no entries for no bytes, and one more entry in front keeps it. `Shows` is
what an entry is on its own: what stands at its address, and the source line with that index.

The bytes of a listing can be read off its text: each is a word of the last column of its entry, and no
word is anything else.
-/
import EightBit.Program.Listing
import EightBit.Proofs.Numerals

namespace EightBit

namespace ListingEntry

variable {e : ListingEntry}

theorem text_of_source_none (h : e.source = none) : e.text = e.columns := by
  rw [text, h]

theorem text_of_source_some {line : String} (h : e.source = some line) :
    e.text = Text.padRight 27 e.columns ++ " | " ++ line := by
  rw [text, h]

end ListingEntry

namespace Program

/-! ## The sweep -/

/-- Entries sweep bytes that start at the address `a`. -/
structure Sweeps (a : Nat) (bytes : List UInt8) (es : List ListingEntry) : Prop where
  first : ∀ e ∈ es.head?, e.address = a
  /-- From each entry the sweep moves on by the length of what it shows. -/
  next : es.IsChain fun e f => f.address = e.address + e.code.length
  /-- The bytes of the entries are the bytes, each once and in order. -/
  shown : es.flatMap ListingEntry.bytes = bytes
  /-- Every entry but the last has all the bytes it takes up. -/
  whole : ∀ e ∈ es.dropLast, e.bytes.length = e.code.length
  /-- The last takes up at least what is left. -/
  last : ∀ e ∈ es.getLast?, a + bytes.length ≤ e.address + e.code.length
  /-- The sweep comes to an end, after no more entries than there are bytes. -/
  ends : es.length ≤ bytes.length

theorem Sweeps.nil (a : Nat) : Sweeps a [] [] where
  first _ h := by cases h
  next := .nil
  shown := rfl
  whole _ h := by cases h
  last _ h := by cases h
  ends := le_rfl

/-- An entry for what the bytes start with, and a sweep of those it leaves, are a sweep. -/
theorem Sweeps.cons {a : Nat} {bytes : List UInt8} (hne : bytes ≠ []) (source : List String)
    {es : List ListingEntry}
    (h : Sweeps (a + (Disassembled.ofBytes bytes).length)
      (bytes.drop (Disassembled.ofBytes bytes).length) es) :
    Sweeps a bytes (entryAt source a bytes :: es) := by
  have hpos := (Disassembled.ofBytes bytes).length_pos
  have hbytes := List.length_pos_of_ne_nil hne
  obtain ⟨first, next, shown, whole, last, ends⟩ := h
  rw [List.length_drop] at last ends
  refine ⟨?first, ?next, ?shown, ?whole, ?last, ?ends⟩
  case first =>
    rintro e ⟨⟩
    rfl
  case next => exact List.isChain_cons.mpr ⟨first, next⟩
  case shown =>
    rw [List.flatMap_cons, shown]
    exact List.take_append_drop _ bytes
  case whole =>
    intro e he
    cases es with
    | nil => cases he
    | cons f es =>
      rw [List.dropLast_cons_cons, List.mem_cons] at he
      rcases he with rfl | he
      · -- There is an entry after this one, so the bytes go on beyond it.
        rw [List.length_cons] at ends
        show (bytes.take _).length = _
        rw [List.length_take]
        exact min_eq_left (by omega)
      · exact whole e he
  case last =>
    intro e he
    cases es with
    | nil =>
      obtain rfl : entryAt source a bytes = e := Option.some.inj he
      have hrest := congrArg List.length shown
      rw [List.flatMap_nil, List.length_nil, List.length_drop] at hrest
      show a + bytes.length ≤ a + (Disassembled.ofBytes bytes).length
      omega
    | cons f es =>
      rw [List.getLast?_cons_cons] at he
      have hlast := last e he
      omega
  case ends =>
    rw [List.length_cons]
    omega

theorem entriesFrom_nil (source : List String) (a : Nat) : entriesFrom source a [] = [] := by
  rw [entriesFrom]
  rfl

theorem entriesFrom_of_ne_nil {bytes : List UInt8} (h : bytes ≠ []) (source : List String) (a : Nat) :
    entriesFrom source a bytes
      = entryAt source a bytes :: entriesFrom source (a + (Disassembled.ofBytes bytes).length)
          (bytes.drop (Disassembled.ofBytes bytes).length) := by
  rw [entriesFrom, if_neg (by simpa using h)]

/-- To prove something of all bytes, it is enough to get past the instruction they start with. -/
@[elab_as_elim]
theorem sweep_induction {P : Nat → List UInt8 → Prop} (nil : ∀ a, P a [])
    (cons : ∀ a bytes, bytes ≠ [] →
      P (a + (Disassembled.ofBytes bytes).length) (bytes.drop (Disassembled.ofBytes bytes).length) →
      P a bytes) (a : Nat) (bytes : List UInt8) : P a bytes := by
  induction hn : bytes.length using Nat.strong_induction_on generalizing a bytes with
  | _ n ih =>
    by_cases hne : bytes = []
    · rw [hne]
      exact nil a
    · have hpos := (Disassembled.ofBytes bytes).length_pos
      have hbytes := List.length_pos_of_ne_nil hne
      exact cons a bytes hne (ih _ (by rw [List.length_drop]; omega) _ _ rfl)

/-- The entries for some bytes sweep them. -/
theorem sweeps_entriesFrom (source : List String) (a : Nat) (bytes : List UInt8) :
    Sweeps a bytes (entriesFrom source a bytes) := by
  induction a, bytes using sweep_induction with
  | nil a =>
    rw [entriesFrom_nil]
    exact .nil a
  | cons a bytes hne ih =>
    rw [entriesFrom_of_ne_nil hne]
    exact ih.cons hne source

/-! ## The entries -/

/-- Every entry for some bytes is the entry for what stands at one of their places. -/
theorem exists_of_mem_entriesFrom {source : List String} {a : Nat} {bytes : List UInt8}
    {e : ListingEntry} (h : e ∈ entriesFrom source a bytes) :
    ∃ k < bytes.length, e = entryAt source (a + k) (bytes.drop k) := by
  induction a, bytes using sweep_induction with
  | nil a =>
    rw [entriesFrom_nil] at h
    cases h
  | cons a bytes hne ih =>
    rw [entriesFrom_of_ne_nil hne, List.mem_cons] at h
    rcases h with rfl | h
    · exact ⟨0, List.length_pos_of_ne_nil hne, rfl⟩
    · obtain ⟨k, hk, rfl⟩ := ih h
      rw [List.length_drop] at hk
      refine ⟨(Disassembled.ofBytes bytes).length + k, by omega, ?_⟩
      rw [List.drop_drop, Nat.add_assoc]

/-- An entry shows what stands at its address in a program, and the source line that has the address
for its index beside it, if there is one. -/
structure Shows (p : Program) (e : ListingEntry) : Prop where
  inside : e.address < p.bytes.length
  code : e.code = disassembleAt p.bytes e.address
  bytes : e.bytes = (p.bytes.drop e.address).take e.code.length
  source : e.source = p.sourceLines[e.address]?
  /-- Without a source line there is no column for it. -/
  bare : p.sourceLines.length ≤ e.address → e.text = e.columns
  beside (line : String) : p.sourceLines[e.address]? = some line →
    e.text = Text.padRight 27 e.columns ++ " | " ++ line

theorem shows_of_mem_entries {p : Program} {e : ListingEntry} (h : e ∈ p.entries) : Shows p e := by
  obtain ⟨k, hk, rfl⟩ := exists_of_mem_entriesFrom h
  rw [Nat.zero_add]
  exact ⟨hk, rfl, rfl, rfl, fun hlen => ListingEntry.text_of_source_none (List.getElem?_eq_none hlen),
    fun line hline => ListingEntry.text_of_source_some hline⟩

/-- The first byte of an entry is the one at its address. -/
theorem Shows.head?_bytes {p : Program} {e : ListingEntry} (h : Shows p e) :
    e.bytes.head? = p.bytes[e.address]? := by
  rw [h.bytes, List.head?_take, if_neg e.code.length_pos.ne', List.head?_drop]

/-! ## The bytes in the text -/

/-- The words of the last column of an entry are its bytes. -/
theorem splitOn_hexColumn {e : ListingEntry} (h : e.bytes ≠ []) :
    (e.hexColumn.toList.splitOn ' ').map (Text.hexValue 0) = e.bytes.map UInt8.toNat := by
  have hcolumn : e.hexColumn.toList
      = [' '].intercalate (e.bytes.map fun byte => (Text.hexByte byte).toList) := by
    rw [ListingEntry.hexColumn, String.toList_intercalate, List.map_map]
    rfl
  have hblank : ∀ word ∈ e.bytes.map fun byte => (Text.hexByte byte).toList, ' ' ∉ word := by
    intro word hword
    obtain ⟨byte, -, rfl⟩ := List.mem_map.mp hword
    exact Text.blank_notMem_hex byte.toNat
  rw [hcolumn, List.splitOn_intercalate ' ' hblank (by simpa using h), List.map_map]
  exact List.map_congr_left fun byte _ => Text.hexValue_hex byte.toNat

end Program

end EightBit
