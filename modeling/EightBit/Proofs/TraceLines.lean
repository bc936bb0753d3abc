/-
# EightBit.Proofs.TraceLines -- what a trace line shows

A traced run writes one line for every cycle that it tries, in order, each before its cycle. A line shows the
machine as it then is: the program counter, the three bytes from there on, and the registers. This can be
read off the line, and `columns` does so.

A cycle may begin by delivering an interrupt, and then it executes something else: the first instruction of
the handler, which finds another program counter, another stack pointer and perhaps other bytes. So a line
shows what its cycle executes exactly if the cycle delivers no interrupt. It never does by chance if one is
delivered, since the registers of the line have the stack pointer from before the nine bytes were pushed.
-/
import EightBit.Machine.View
import EightBit.Proofs.Calls
import EightBit.Proofs.Numerals

namespace EightBit

/-! ## Words and blanks -/

namespace Text

/-- Words with the character `c` between them, from the first one on. -/
theorem intercalate_cons_eq (c : Char) (word : List Char) (words : List (List Char)) :
    [c].intercalate (word :: words) = word ++ words.flatMap (c :: ·) := by
  induction words generalizing word with
  | nil => rw [List.intercalate_singleton, List.flatMap_nil, List.append_nil]
  | cons next words ih =>
    rw [List.intercalate_cons_cons, ih, List.flatMap_cons, List.append_assoc]
    rfl

/-- Words that begin a text or have a blank before them are what stands between its blanks. -/
theorem splitOn_words {word : List Char} {words : List (List Char)} (hword : ' ' ∉ word)
    (hwords : ∀ w ∈ words, ' ' ∉ w) :
    (word ++ words.flatMap (' ' :: ·)).splitOn ' ' = word :: words := by
  rw [← intercalate_cons_eq]
  exact List.splitOn_intercalate ' ' (List.forall_mem_cons.mpr ⟨hword, hwords⟩) (List.cons_ne_nil _ _)

end Text

/-! ## Reading a line -/

/-- Whether a word of a line is a numeral and not one of the bars between groups of them. -/
def isNumeral (word : List Char) : Bool := word != ['|']

theorem isNumeral_hex (n : Nat) : isNumeral (Text.hex n).toList = true := by
  have hdigit : ∀ d < 16, (Nat.digitChar d).toUpper ≠ '|' := by decide
  rw [isNumeral, bne_iff_ne]
  intro h
  obtain ⟨d, hd, hbar⟩ := Text.exists_digitChar_of_mem_hex (h ▸ List.mem_singleton_self '|')
  exact hdigit d hd hbar.symm

/-- The numbers in the columns of a trace line: the numerals between its blanks after the first word. -/
def columns (line : String) : List Nat :=
  ((line.toList.splitOn ' ').tail.filter isNumeral).map (Text.hexValue 0)

/-- The columns for an address, the bytes from there on, and registers. -/
def columnsOf (pc : Nat) (bytes : List UInt8) (registers : Registers) : List Nat :=
  pc :: (bytes ++ registers.toList).map UInt8.toNat

/-- The columns after the address and the bytes are the registers. -/
theorem getElem?_columnsOf (pc : Nat) (a b c : UInt8) (registers : Registers) (i : RegisterIndex) :
    (columnsOf pc [a, b, c] registers)[4 + i.val]? = some (registers.get i).toNat := by
  have hi : i.val < registers.toList.length := i.isLt.trans_eq registers.gp.length_toList.symm
  rw [columnsOf, Nat.add_comm, List.getElem?_cons_succ, List.getElem?_map,
    List.getElem?_append_right (Nat.le_add_left 3 _)]
  simp [Registers.toList, Registers.get]

namespace Machine

/-- The bytes that a line shows, from the program counter on. -/
def shownBytes (m : Machine) : List UInt8 :=
  [m.byteAt m.regs.pc, m.byteAt (m.regs.pc + 1), m.byteAt (m.regs.pc + 2)]

/-- The words of a line after its first. -/
def shownWords (m : Machine) : List (List Char) :=
  (Text.hex m.regs.pc).toList :: ['|'] :: m.shownBytes.map (fun v => (Text.hexByte v).toList)
    ++ ['|'] :: m.regs.toList.map fun v => (Text.hexByte v).toList

theorem toList_traceLine (m : Machine) :
    m.traceLine.toList = "TRACE:".toList ++ m.shownWords.flatMap (' ' :: ·) := by
  simp [traceLine, shownWords, shownBytes, String.toList_append, String.toList_join, List.flatMap_map]

theorem blank_notMem_shownWords (m : Machine) : ∀ w ∈ m.shownWords, ' ' ∉ w := by
  intro w hw
  simp only [shownWords, List.cons_append, List.mem_cons, List.mem_append, List.mem_map] at hw
  rcases hw with hw | hw | ⟨v, -, hw⟩ | hw | ⟨v, -, hw⟩
  · rw [hw]
    exact Text.blank_notMem_hex _
  · rw [hw]
    decide
  · rw [← hw]
    exact Text.blank_notMem_hex _
  · rw [hw]
    decide
  · rw [← hw]
    exact Text.blank_notMem_hex _

theorem filter_shownWords (m : Machine) :
    m.shownWords.filter isNumeral
      = (columnsOf m.regs.pc m.shownBytes m.regs).map fun n => (Text.hex n).toList := by
  have hbytes : ∀ bytes : List UInt8,
      (bytes.map fun v => (Text.hexByte v).toList).filter isNumeral
        = (bytes.map UInt8.toNat).map fun n => (Text.hex n).toList := by
    intro bytes
    rw [List.map_map, List.filter_eq_self.mpr]
    · rfl
    · intro w hw
      obtain ⟨v, -, rfl⟩ := List.mem_map.mp hw
      exact isNumeral_hex _
  have hbar : ¬ isNumeral ['|'] = true := by decide
  rw [shownWords, List.filter_append, List.filter_cons_of_pos (isNumeral_hex _),
    List.filter_cons_of_neg hbar, List.filter_cons_of_neg hbar, hbytes, hbytes, columnsOf,
    List.map_cons, List.map_append, List.map_append, List.cons_append]

/-- **A line is read back** as the machine that it shows. -/
theorem columns_traceLine (m : Machine) :
    columns m.traceLine = columnsOf m.regs.pc m.shownBytes m.regs := by
  have hread : (Text.hexValue 0 ∘ fun n => (Text.hex n).toList) = id := by
    funext n
    rw [Function.comp_apply, Text.hexValue_hex, id]
  rw [columns, toList_traceLine, Text.splitOn_words (by decide) m.blank_notMem_shownWords,
    List.tail_cons, filter_shownWords, List.map_map, hread, List.map_id]

end Machine

/-! ## A line and its cycle -/

namespace Machine

variable {m : Machine} {s : Step}

theorem byteAt_pc (hpc : m.regs.pc ≤ 255) : m.byteAt m.regs.pc = m.code := by
  rw [byteAt, Memory.peek_of_lt m.mem (Nat.lt_succ_of_le hpc)]
  rfl

/-- The columns of a line that shows what the step `s` at `m` executes: the address of the step, the byte that
it leaves in the instruction register and the two after it, and the registers as the instruction finds them. -/
def executedColumns (m : Machine) (s : Step) : List Nat :=
  columnsOf s.address
    [m.step.2.regs.ir, m.entry.byteAt (s.address + 1), m.entry.byteAt (s.address + 2)] m.entry.regs

/-- What a step executes is shown by the line for the machine after the interrupt that is due. -/
theorem executedColumns_eq (h : m.step.1 = .ok s) : m.executedColumns s = columns m.entry.traceLine := by
  have hfetched : s.address = m.entry.regs.pc
      ∧ m.step.2.regs.ir = m.entry.byteAt m.entry.regs.pc := by
    obtain ⟨-, hcycle⟩ := cycle_of_ok h
    generalize m.step.2 = m' at hcycle
    cases hcycle with
    | passed hpc => exact ⟨rfl, (byteAt_pc (entry_pc_le hpc)).symm⟩
    | executed hpc => exact ⟨rfl, (byteAt_pc (entry_pc_le hpc)).symm⟩
  rw [columns_traceLine, executedColumns, hfetched.1, hfetched.2]
  rfl

/-- A delivery can be told from the line: the stack pointer goes down by nine. -/
theorem columns_dispatched_ne (m : Machine) (n : Fin 8) :
    columns (m.dispatched n).traceLine ≠ columns m.traceLine := by
  intro h
  have hsp : some (m.dispatched n).regs.sp.toNat = some m.regs.sp.toNat := by
    rw [columns_traceLine, columns_traceLine] at h
    have hcolumn := congrArg (·[4 + stackPointer.val]?) h
    simp only [shownBytes, getElem?_columnsOf] at hcolumn
    exact hcolumn
  have hnine : m.regs.sp - 9 = m.regs.sp :=
    (m.dispatched_sp n).symm.trans (UInt8.toNat_inj.mp (Option.some.inj hsp))
  exact absurd (sub_eq_self.mp hnine) (by decide)

/-- A line shows what its cycle executes exactly if the cycle delivers no interrupt. -/
theorem columns_eq_executed_iff (h : m.step.1 = .ok s) :
    columns m.traceLine = m.executedColumns s ↔ m.delivered? = none := by
  rw [executedColumns_eq h, entry_eq_start (cycle_of_ok h).1]
  cases hd : m.delivered? with
  | none =>
    rw [start_of_none hd]
    exact iff_of_true rfl rfl
  | some n =>
    rw [start_of_delivered hd]
    exact iff_of_false (m.columns_dispatched_ne n).symm (Option.some_ne_none n)

end Machine

/-! ## The lines of a run -/

/-- The observer that writes down the trace line for each cycle. -/
def Observer.lines : Observer (List String) := fun seen m _ _ => seen ++ [m.traceLine]

theorem foldl_lines (xs : List Machine) (seen : List String) :
    xs.foldl Observer.lines.see seen = seen ++ xs.map Machine.traceLine := by
  show xs.foldl (fun seen m => seen ++ [m.traceLine]) seen = _
  rw [List.foldl_append_eq_append, ← List.flatMap_def, ← List.map_eq_flatMap]

namespace Machine

/-- **The trace of a run.** A traced run makes some steps and writes one line for each of them, in order,
which shows the machine before the step. Of a step that succeeds the line shows the address, the bytes
fetched and the registers that the instruction finds, unless the step delivers an interrupt; then
it does not. -/
theorem trace_shows_unless_delivered (m : Machine) (sink : Sink) :
    let run := m.runObserved Observer.lines sink []
    ∃ k, run.machine = m.after k ∧ run.observed = (m.path k).map traceLine
      ∧ ∀ x ∈ m.path k,
          columns x.traceLine = columnsOf x.regs.pc x.shownBytes x.regs
          ∧ ∀ s, x.step.1 = .ok s →
              (columns x.traceLine = x.executedColumns s ↔ x.delivered? = none) := by
  obtain ⟨k, -, hk⟩ := m.runFor_steps (m.allowance m.configuredLimit) sink
  obtain ⟨hmachine, hobserved⟩ := hk _ Observer.lines []
  refine ⟨k, hmachine, hobserved.trans (foldl_lines _ []), ?_⟩
  intro x _
  exact ⟨x.columns_traceLine, fun s h => columns_eq_executed_iff h⟩

/-- A machine whose first two instructions allow interrupt 0 and raise it. Its vector is zero, so that the
third cycle begins the program again, as the handler. -/
def raisingFirst : Machine :=
  (powerOn { maxCycles := some 3 }).call (.load [Opcode.ldi.byte, 5, 1, Opcode.ldi.byte, 6, 1])

/-- A run of it tries three cycles. -/
theorem eq_three_of_lines {k : Nat}
    (h : (raisingFirst.runObserved Observer.lines Sink.unbounded []).observed
      = (raisingFirst.path k).map traceLine) : k = 3 := by
  have hlength : (raisingFirst.runObserved Observer.lines Sink.unbounded []).observed.length = 3 := by
    decide +kernel
  rw [h, List.length_map, path, List.length_map, List.length_range] at hlength
  exact hlength

/-- The second cycle delivers nothing. The third delivers the interrupt and executes the instruction at
address zero. -/
theorem cycles_of_raisingFirst :
    (raisingFirst.after 1).step.1 = .ok (.executed 3 .ldi none)
      ∧ (raisingFirst.after 1).delivered? = none
      ∧ (raisingFirst.after 2).step.1 = .ok (.executed 0 .ldi none)
      ∧ (raisingFirst.after 2).delivered? = some 0 := by
  decide +kernel

theorem trace_shows_unless_delivered_raisingFirst :
    let second := raisingFirst.after 1
    let third := raisingFirst.after 2
    second.step.1 = .ok (.executed 3 .ldi none)
      ∧ columns second.traceLine = second.executedColumns (.executed 3 .ldi none)
      ∧ third.step.1 = .ok (.executed 0 .ldi none)
      ∧ columns third.traceLine ≠ third.executedColumns (.executed 0 .ldi none) := by
  intro second third
  obtain ⟨hsecond, hnone, hthird, hdelivered⟩ := cycles_of_raisingFirst
  obtain ⟨k, -, hlines, hshows⟩ := trace_shows_unless_delivered raisingFirst Sink.unbounded
  obtain rfl : k = 3 := eq_three_of_lines hlines
  refine ⟨hsecond, ?_, hthird, ?_⟩
  · exact ((hshows second (raisingFirst.after_mem_path (by decide))).2 _ hsecond).mpr hnone
  · intro hshown
    have h := ((hshows third (raisingFirst.after_mem_path (by decide))).2 _ hthird).mp hshown
    rw [hdelivered] at h
    cases h

/-- A trace does not always show what is executed: of a cycle that delivers an interrupt it shows the
instruction that was interrupted. -/
theorem trace_shows_interrupted :
    ¬ ∀ config program m sink, (powerOn config).load program = .ok m →
      ∃ k, (m.runObserved Observer.lines sink []).observed = (m.path k).map traceLine
        ∧ ∀ x ∈ m.path k, ∀ s, x.step.1 = .ok s → columns x.traceLine = x.executedColumns s := by
  intro shows
  have hload : (powerOn { maxCycles := some 3 }).load
      [Opcode.ldi.byte, 5, 1, Opcode.ldi.byte, 6, 1] = .ok raisingFirst := by
    rw [raisingFirst, call, load, Memory.load, if_pos (by decide)]
    rfl
  obtain ⟨k, hlines, hshows⟩ := shows _ _ _ Sink.unbounded hload
  obtain rfl : k = 3 := eq_three_of_lines hlines
  obtain ⟨-, -, hthird, hdelivered⟩ := cycles_of_raisingFirst
  have hshown := hshows _ (raisingFirst.after_mem_path (by decide)) _ hthird
  rw [(columns_eq_executed_iff hthird).mp hshown] at hdelivered
  cases hdelivered

end Machine

end EightBit
