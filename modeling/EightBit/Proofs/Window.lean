/-
# EightBit.Proofs.Window -- the disassembly window

The window starts at the program counter and goes on, instruction by instruction, until it has as many lines
as there is room for or has come to the end of memory. Both conditions are in `Swept`, which one more entry
in front keeps: nothing takes up fewer than one byte, so the addresses rise, and no line after the first one
can be that of the program counter.

A window with less room is the beginning of one with more.
-/
import EightBit.Debugger
import Mathlib

namespace EightBit

namespace Debugger

/-! ## The sweep -/

/-- Entries are swept from bytes, from an address on and no more than `count` of them. -/
structure Swept (bytes : List UInt8) (a count : Nat) (es : List (Nat × Disassembled)) : Prop where
  length_le : es.length ≤ count
  first : ∀ e ∈ es.head?, e.1 = a
  /-- From each entry the sweep moves on by the length of what it has found. -/
  next : es.IsChain fun e f => f.1 = e.1 + e.2.length
  from_le : ∀ e ∈ es, a ≤ e.1
  inside : ∀ e ∈ es, e.1 < bytes.length
  found : ∀ e ∈ es, e.2 = disassembleAt bytes e.1
  /-- If there is room left, the next entry would stand past the end. -/
  ends : es.length < count → bytes.length ≤ es.getLast?.elim a fun e => e.1 + e.2.length

variable {bytes : List UInt8} {a count : Nat}

theorem Swept.nil (h : 0 < count → bytes.length ≤ a) : Swept bytes a count [] where
  length_le := Nat.zero_le count
  first _ h := by cases h
  next := .nil
  from_le _ h := by cases h
  inside _ h := by cases h
  found _ h := by cases h
  ends := h

/-- What stands at an address and a sweep from where it ends are a sweep. -/
theorem Swept.cons (ha : a < bytes.length) {es : List (Nat × Disassembled)}
    (h : Swept bytes (a + (disassembleAt bytes a).length) count es) :
    Swept bytes a (count + 1) ((a, disassembleAt bytes a) :: es) := by
  have hpos := (disassembleAt bytes a).length_pos
  obtain ⟨length_le, first, next, from_le, inside, found, ends⟩ := h
  refine ⟨?length_le, ?first, ?next, ?from_le, ?inside, ?found, ?ends⟩
  case length_le => simpa using length_le
  case first => simp
  case next => exact List.isChain_cons.mpr ⟨first, next⟩
  case from_le =>
    rw [List.forall_mem_cons]
    refine ⟨le_rfl, fun e he => ?_⟩
    have hle := from_le e he
    omega
  case inside => exact List.forall_mem_cons.mpr ⟨ha, inside⟩
  case found => exact List.forall_mem_cons.mpr ⟨rfl, found⟩
  case ends =>
    intro hroom
    have hend := ends (by simpa using hroom)
    cases es with
    | nil => exact hend
    | cons f es =>
      rw [List.getLast?_eq_some_getLast (List.cons_ne_nil f es)] at hend
      rw [List.getLast?_cons_cons, List.getLast?_eq_some_getLast (List.cons_ne_nil f es)]
      exact hend

theorem swept_sweep (bytes : List UInt8) (count a : Nat) :
    Swept bytes a count (sweep bytes count a) := by
  induction count generalizing a with
  | zero => exact .nil (absurd · (Nat.lt_irrefl 0))
  | succ count ih =>
    rw [sweep]
    split
    · next ha => exact (ih _).cons ha
    · next hend => exact .nil fun _ => Nat.le_of_not_lt hend

/-- After the first entry the addresses are greater. -/
theorem Swept.lt_of_mem_tail {es : List (Nat × Disassembled)} (h : Swept bytes a count es) :
    ∀ e ∈ es.tail, a < e.1 := by
  cases es with
  | nil => exact List.forall_mem_nil _
  | cons f es =>
    have hpairwise : (f :: es).Pairwise fun e e' => e.1 < e'.1 := by
      have hchain : (f :: es).IsChain fun e e' => e.1 < e'.1 := by
        refine h.next.imp fun e e' hnext => ?_
        have hpos := e.2.length_pos
        omega
      exact hchain.pairwise
    intro e he
    exact (h.from_le f List.mem_cons_self).trans_lt (List.rel_of_pairwise_cons hpairwise he)

/-- With less room the sweep is the same until there is no more room. -/
theorem sweep_isPrefix {fewer : Nat} (h : fewer ≤ count) :
    sweep bytes fewer a <+: sweep bytes count a := by
  induction fewer generalizing count a with
  | zero => exact List.nil_prefix
  | succ fewer ih =>
    obtain ⟨count, rfl⟩ := Nat.exists_eq_add_of_lt h
    rw [sweep, sweep]
    split
    · exact List.cons_prefix_cons.mpr ⟨rfl, ih (Nat.le_add_right ..)⟩
    · exact List.prefix_rfl

/-! ## The window -/

/-- The lines are the sweep from the program counter of a debugger, no more than `count` of them. -/
structure IsWindow (d : Debugger) (count : Nat) (lines : List WindowLine) : Prop where
  length_le : lines.length ≤ count
  /-- If there is room and a cell at the program counter, the first line is for it, and is marked. -/
  first : 0 < count → d.machine.regs.pc ≤ 255 →
    ∃ line, lines.head? = some line ∧ line.address = d.machine.regs.pc ∧ line.current = true
  /-- No other line is marked. -/
  others : ∀ line ∈ lines.tail, line.current = false
  next : lines.IsChain fun line line' => line'.address = line.address + line.code.length
  inside : ∀ line ∈ lines, line.address < 256
  found : ∀ line ∈ lines, line.code = disassembleAt d.machine.mem.toList line.address
  /-- If there is room left, the lines have come to the end of memory. -/
  ends : lines.length < count →
    256 ≤ lines.getLast?.elim d.machine.regs.pc fun line => line.address + line.code.length
  /-- There is nothing to show past the end of memory. -/
  past : 255 < d.machine.regs.pc → lines = []

/-- The line for an entry of the sweep. -/
def windowLine (d : Debugger) (e : Nat × Disassembled) : WindowLine :=
  ⟨e.1, e.2, e.1 == d.machine.regs.pc⟩

theorem window_eq_map (d : Debugger) (count : Nat) :
    d.window count = (sweep d.machine.mem.toList count d.machine.regs.pc).map d.windowLine := rfl

theorem window_isWindow (d : Debugger) (count : Nat) : IsWindow d count (d.window count) := by
  have hsize : d.machine.mem.toList.length = 256 := d.machine.mem.cells.length_toList
  have hswept := swept_sweep d.machine.mem.toList count d.machine.regs.pc
  rw [window_eq_map]
  generalize sweep d.machine.mem.toList count d.machine.regs.pc = es at hswept ⊢
  have hafter := hswept.lt_of_mem_tail
  obtain ⟨length_le, first, next, from_le, inside, found, ends⟩ := hswept
  rw [hsize] at inside ends
  refine ⟨?length_le, ?first, ?others, ?next, ?inside, ?found, ?ends, ?past⟩
  case length_le => rwa [List.length_map]
  case first =>
    intro hcount hpc
    cases es with
    | nil => exact absurd (ends hcount) (by simpa using Nat.lt_succ_of_le hpc)
    | cons e es =>
      have hfirst : e.1 = d.machine.regs.pc := first e rfl
      exact ⟨d.windowLine e, rfl, hfirst, by simp [windowLine, hfirst]⟩
  case others =>
    rw [← List.map_tail, List.forall_mem_map]
    intro e he
    exact beq_false_of_ne (hafter e he).ne'
  case next => exact (List.isChain_map d.windowLine).mpr next
  case inside => exact List.forall_mem_map.mpr inside
  case found => exact List.forall_mem_map.mpr found
  case ends =>
    intro hroom
    rw [List.length_map] at hroom
    rw [List.getLast?_map]
    cases hlast : es.getLast? with
    | none => simpa [hlast] using ends hroom
    | some e => simpa [hlast, windowLine] using ends hroom
  case past =>
    intro hpc
    cases es with
    | nil => rfl
    | cons e es =>
      have hlt := inside e List.mem_cons_self
      rw [first e rfl] at hlt
      omega

/-- A debugger whose program counter is five bytes below the end of memory, at two instructions. -/
def nearTop : Debugger :=
  { Debugger.start {} (List.replicate 251 0 ++ [Opcode.ldi.byte, 0, 8, Opcode.prn.byte, 0]) with
    machine.regs.pc := 251 }

end Debugger

end EightBit
