/-
# EightBit.Proofs.Store -- what a memory holds is what it was last given

A memory is used through calls, and each call is answered, also one that is refused. Written down one after
the other, calls and answers are a log, and the log alone tells what the memory holds: a cell holds the
value that the last call to give it one has given it, the data register what the last read has returned,
and both hold zero if there was no such call since the last `clear`. A call that was refused has given
nothing to any cell and has returned no value, so it counts for neither.

`Keeps` says so of a memory and a log, and every call keeps it, so that it holds of every log that starts
from a new memory. `Responds` is what the next call is answered and what it changes.
-/
import EightBit.Proofs.State

namespace EightBit

namespace Memory

/-! ## Calls and logs -/

/-- A call of a memory. -/
inductive Access
  | read (address : Nat)
  | peek (address : Nat)
  | write (address : Nat) (value : UInt8)
  | load (program : List UInt8)
  | clear
  | dump (start count : Nat)
deriving DecidableEq

/-- What a call returns. -/
inductive Answer
  /-- It was done, and there is nothing to return. -/
  | done
  | value (byte : UInt8)
  /-- Cells, each with its address. -/
  | cells (pairs : List (Nat × UInt8))
  | refused (cause : OutOfBounds)
deriving DecidableEq

/-- What a call returns, and the memory after it. -/
def access (m : Memory) : Access → Answer × Memory
  | .read a => match m.read a with
    | .ok (byte, m) => (.value byte, m)
    | .error cause => (.refused cause, m)
  | .peek a => match m.peek a with
    | .ok byte => (.value byte, m)
    | .error cause => (.refused cause, m)
  | .write a value => match m.write a value with
    | .ok m => (.done, m)
    | .error cause => (.refused cause, m)
  | .load program => match m.load program with
    | .ok m => (.done, m)
    | .error cause => (.refused cause, m)
  | .clear => (.done, m.clear)
  | .dump start count => (.cells (m.dump start count), m)

/-- Calls that were made of a memory, with their answers, the latest first. -/
abbrev Log := List (Access × Answer)

/-- The log and the memory after one more call. -/
def proceed (s : Log × Memory) (c : Access) : Log × Memory :=
  ((c, (s.2.access c).1) :: s.1, (s.2.access c).2)

/-- The log of some calls of a new memory, and the memory after them. -/
def history (calls : List Access) : Log × Memory := calls.foldl proceed ([], blank)

/-! ## What a log tells -/

/-- What the latest call to tell anything tells, of those since the last `clear`; zero if none of them does. -/
def latest (tells : Access × Answer → Option UInt8) : Log → UInt8
  | [] => 0
  | (.clear, _) :: _ => 0
  | entry :: earlier => (tells entry).getD (latest tells earlier)

/-- The value that a call has given to the cell at `a`: one written there, or the byte with that index of a
program that was loaded. -/
def given? (a : Nat) : Access × Answer → Option UInt8
  | (.write b value, .done) => if b = a then some value else none
  | (.load program, .done) => program[a]?
  | _ => none

/-- The value that a call has returned, if it was a read. -/
def returned? : Access × Answer → Option UInt8
  | (.read _, .value byte) => some byte
  | _ => none

/-- What the cell at `a` was last given. -/
abbrev held (log : Log) (a : Nat) : UInt8 := latest (given? a) log

/-- A memory holds what its log says. -/
structure Keeps (log : Log) (m : Memory) : Prop where
  size : m.toList.length = 256
  held (a : Nat) : a < 256 → m.peek a = .ok (held log a)
  latch : m.mdr = latest returned? log

/-- What the next call of a memory is answered and what it changes, the log telling what is in the
cells. -/
structure Responds (log : Log) (m : Memory) : Prop where
  read (a : Nat) : a < 256 → m.access (.read a) = (.value (held log a), { m with mdr := held log a })
  peek (a : Nat) : a < 256 → m.access (.peek a) = (.value (held log a), m)
  /-- What is asked of an address that no cell has is refused and changes nothing. -/
  outside (a : Nat) : 256 ≤ a → ∀ c, c = .read a ∨ c = .peek a ∨ (∃ value, c = .write a value) →
    m.access c = (.refused ⟨a⟩, m)
  /-- So is a program that is too long, and the address is the first one past the cells. -/
  oversized (program : List UInt8) : 256 < program.length →
    m.access (.load program) = (.refused ⟨256⟩, m)
  write (a : Nat) (value : UInt8) : a < 256 → ∃ m', m.access (.write a value) = (.done, m')
    ∧ m'.mdr = m.mdr ∧ ∀ b, m'.peek b = if b = a then .ok value else m.peek b
  /-- A program that fits changes as many cells as it has bytes, from the first on. -/
  load (program : List UInt8) : program.length ≤ 256 → ∃ m', m.access (.load program) = (.done, m')
    ∧ m'.mdr = m.mdr ∧ (∀ (b : Nat) (h : b < program.length), m'.peek b = .ok program[b])
    ∧ ∀ b, program.length ≤ b → m'.peek b = m.peek b
  clear : m.access .clear = (.done, blank)
  /-- A dump shows the cells of its range, by ascending address, and nothing else. -/
  dump (start count : Nat) : ∃ pairs, m.access (.dump start count) = (.cells pairs, m)
    ∧ pairs.Pairwise (fun p q => p.1 < q.1)
    ∧ ∀ a byte, (a, byte) ∈ pairs ↔ start ≤ a ∧ a < start + count ∧ a < 256 ∧ m.peek a = .ok byte

/-! ## Single calls -/

theorem peek_blank {a : Nat} (ha : a < 256) : blank.peek a = .ok 0 := by
  rw [peek, dif_pos ha]
  exact congrArg Except.ok (Vector.getElem_replicate ha)

/-- A write is seen at its own address and at no other, and is not latched. -/
theorem write_of_lt (m : Memory) {a : Nat} (ha : a < 256) (value : UInt8) :
    ∃ m', m.write a value = .ok m' ∧ m'.mdr = m.mdr
      ∧ ∀ b, m'.peek b = if b = a then .ok value else m.peek b := by
  refine ⟨_, dif_pos ha, rfl, ?_⟩
  intro b
  by_cases hb : b < 256
  · simp only [peek, dif_pos hb, Vector.getElem_set, eq_comm (a := b)]
    split <;> rfl
  · rw [if_neg (by omega), peek_of_ge _ (Nat.not_lt.mp hb), peek_of_ge _ (Nat.not_lt.mp hb)]

theorem write_of_ge (m : Memory) {a : Nat} (ha : 256 ≤ a) (value : UInt8) :
    m.write a value = .error ⟨a⟩ :=
  dif_neg (Nat.not_lt.mpr ha)

/-- A loaded program is seen at the addresses below its length, the other cells are as they were, and
nothing is latched. -/
theorem load_of_le (m : Memory) {program : List UInt8} (h : program.length ≤ 256) :
    ∃ m', m.load program = .ok m' ∧ m'.mdr = m.mdr
      ∧ ∀ b, m'.peek b = (program[b]?.map Except.ok).getD (m.peek b) := by
  refine ⟨_, if_pos h, rfl, ?_⟩
  intro b
  by_cases hb : b < 256
  · simp only [peek, dif_pos hb, Vector.getElem_ofFn]
    cases program[b]? <;> rfl
  · rw [List.getElem?_eq_none (by omega), peek_of_ge _ (Nat.not_lt.mp hb),
      peek_of_ge _ (Nat.not_lt.mp hb)]
    rfl

theorem load_of_lt (m : Memory) {program : List UInt8} (h : 256 < program.length) :
    m.load program = .error ⟨256⟩ :=
  if_neg (Nat.not_le.mpr h)

/-- The sum that bounds a dump may have stopped short, but not below the last cell. -/
theorem mem_dump {m : Memory} {start count a : Nat} {byte : UInt8} :
    (a, byte) ∈ m.dump start count
      ↔ start ≤ a ∧ a < start + count ∧ a < 256 ∧ m.peek a = .ok byte := by
  have hstop : min (addressSum start count) size = min (start + count) 256 := by
    have hmax : UInt64.size - 1 = 18446744073709551615 := rfl
    rw [addressSum, size, hmax]
    omega
  have hrange : a ∈ List.range' start (min (start + count) 256 - start)
      ↔ start ≤ a ∧ a < start + count ∧ a < 256 := by
    rw [List.mem_range'_1]
    omega
  simp only [dump, hstop, List.mem_map, Prod.mk.injEq]
  constructor
  · rintro ⟨b, hb, rfl, rfl⟩
    obtain ⟨hstart, hcount, hsize⟩ := hrange.mp hb
    exact ⟨hstart, hcount, hsize, m.peek_of_lt hsize⟩
  · rintro ⟨hstart, hcount, hsize, hbyte⟩
    rw [m.peek_of_lt hsize] at hbyte
    exact ⟨a, hrange.mpr ⟨hstart, hcount, hsize⟩, rfl, Except.ok.inj hbyte⟩

theorem pairwise_dump (m : Memory) (start count : Nat) :
    (m.dump start count).Pairwise fun p q => p.1 < q.1 :=
  List.pairwise_map.mpr List.pairwise_lt_range'

/-! ## Calls one after the other -/

theorem latest_cons {tells : Access × Answer → Option UInt8} {c : Access} (hc : c ≠ .clear)
    (r : Answer) (earlier : Log) :
    latest tells ((c, r) :: earlier) = (tells (c, r)).getD (latest tells earlier) := by
  cases c with
  | clear => exact absurd rfl hc
  | read | peek | write | load | dump => rfl

theorem length_toList (m : Memory) : m.toList.length = 256 := m.cells.length_toList

namespace Keeps

variable {log : Log} {m m' : Memory}

theorem new : Keeps [] blank where
  size := blank.length_toList
  held _ ha := peek_blank ha
  latch := rfl

/-- What has to be seen of a call: that the cells hold what it has given them and else what they held, and
the data register what it has returned if it was a read. -/
theorem cons (h : Keeps log m) {c : Access} (hc : c ≠ .clear) {r : Answer}
    (hcells : ∀ a, a < 256 → m'.peek a = .ok ((given? a (c, r)).getD (Memory.held log a)))
    (hlatch : m'.mdr = (returned? (c, r)).getD m.mdr) : Keeps ((c, r) :: log) m' where
  size := m'.length_toList
  held a ha := (hcells a ha).trans (congrArg Except.ok (latest_cons hc r log).symm)
  latch := by rw [hlatch, h.latch, latest_cons hc]

theorem responds (h : Keeps log m) : Responds log m where
  read a ha := by
    have hread : m.read a = .ok (Memory.held log a, { m with mdr := Memory.held log a }) := by
      have hheld := h.held a ha
      rw [Memory.peek, dif_pos ha] at hheld
      rw [Memory.read, dif_pos ha, Except.ok.inj hheld]
    simp only [access, hread]
  peek a ha := by simp only [access, h.held a ha]
  outside a ha c hc := by
    rcases hc with rfl | rfl | ⟨value, rfl⟩
    · simp only [access, m.read_of_ge ha]
    · simp only [access, m.peek_of_ge ha]
    · simp only [access, m.write_of_ge ha]
  oversized program hlong := by simp only [access, m.load_of_lt hlong]
  write a value ha := by
    obtain ⟨m', hm', hrest⟩ := m.write_of_lt ha value
    exact ⟨m', by simp only [access, hm'], hrest⟩
  load program hfits := by
    obtain ⟨m', hm', hlatch, hcells⟩ := m.load_of_le hfits
    refine ⟨m', by simp only [access, hm'], hlatch, ?_, ?_⟩
    · intro b hb
      rw [hcells, List.getElem?_eq_getElem hb]
      rfl
    · intro b hb
      rw [hcells, List.getElem?_eq_none hb]
      rfl
  clear := rfl
  dump start count := ⟨_, rfl, m.pairwise_dump start count, fun _ _ => mem_dump⟩

/-- Every call keeps it. -/
theorem proceed (h : Keeps log m) (c : Access) :
    Keeps (Memory.proceed (log, m) c).1 (Memory.proceed (log, m) c).2 := by
  have hr := h.responds
  simp only [Memory.proceed]
  cases c with
  | clear =>
    -- what was given and returned before does not count any more
    exact ⟨blank.length_toList, fun _ ha => peek_blank ha, rfl⟩
  | dump start count => exact h.cons (by simp) h.held rfl
  | read a =>
    rcases Nat.lt_or_ge a 256 with ha | ha
    · rw [hr.read a ha]
      exact h.cons (by simp) h.held rfl
    · rw [hr.outside a ha _ (.inl rfl)]
      exact h.cons (by simp) h.held rfl
  | peek a =>
    rcases Nat.lt_or_ge a 256 with ha | ha
    · rw [hr.peek a ha]
      exact h.cons (by simp) h.held rfl
    · rw [hr.outside a ha _ (.inr (.inl rfl))]
      exact h.cons (by simp) h.held rfl
  | write a value =>
    rcases Nat.lt_or_ge a 256 with ha | ha
    · obtain ⟨m', hm', hlatch, hcells⟩ := hr.write a value ha
      rw [hm']
      refine h.cons (by simp) ?_ hlatch
      intro b hb
      rw [hcells, h.held b hb, given?]
      by_cases hab : b = a
      · rw [if_pos hab, if_pos hab.symm]
        rfl
      · rw [if_neg hab, if_neg (Ne.symm hab)]
        rfl
    · rw [hr.outside a ha _ (.inr (.inr ⟨value, rfl⟩))]
      exact h.cons (by simp) h.held rfl
  | load program =>
    rcases Nat.lt_or_ge 256 program.length with hlen | hlen
    · rw [hr.oversized program hlen]
      exact h.cons (by simp) h.held rfl
    · obtain ⟨m', hm', hlatch, hgiven, hrest⟩ := hr.load program hlen
      rw [hm']
      refine h.cons (by simp) ?_ hlatch
      intro b hb
      rcases Nat.lt_or_ge b program.length with hin | hout
      · rw [hgiven b hin, given?, List.getElem?_eq_getElem hin]
        rfl
      · rw [hrest b hout, h.held b hb, given?, List.getElem?_eq_none hout]
        rfl

theorem history (calls : List Access) : Keeps (Memory.history calls).1 (Memory.history calls).2 := by
  induction calls using List.reverseRecOn with
  | nil => exact .new
  | append_singleton calls c ih =>
    rw [Memory.history, List.foldl_concat]
    exact ih.proceed c

end Keeps

/-- **A memory is a store.** After any calls of a new memory, refused ones among them, each of its 256 cells
holds what it was last given and the data register what the last read has returned, both since the last
`clear`; and the next call is answered accordingly, or is refused and changes nothing. -/
theorem store_faithful (calls : List Access) :
    Keeps (history calls).1 (history calls).2 ∧ Responds (history calls).1 (history calls).2 :=
  ⟨.history calls, (Keeps.history calls).responds⟩

end Memory

end EightBit
