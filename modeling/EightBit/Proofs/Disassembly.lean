/-
# EightBit.Proofs.Disassembly -- the disassembler reads what the machine executes

The disassembler and a cycle take the same bytes apart independently. The one looks for the byte among the
named instructions and writes down as many of the bytes after it as there are operands; the other always
fetches three bytes, and decides afterwards how many of them the instruction has, what each of them stands
for and where control goes on. `Instruction.assembly` is how an instruction that a machine has decoded is
written, and it refers to nothing of the disassembler.

All is said of `Machine.entry`, the machine after the interrupt that is due: this is the memory that the
instruction was fetched from. If a cycle executes an instruction, the text for its address is that of the
instruction with the operand bytes it was executed with, and its length is how far control goes on. If the
text is that of something unknown, the cycle executes nothing, and the other way round: it passes over a
byte that names nothing, refuses it, or there is no cell to fetch from.
-/
import EightBit.Program.Disassembly
import EightBit.Proofs.Conformance
import EightBit.Proofs.Strictness
import EightBit.Proofs.Words

namespace EightBit

/-! ## How an instruction is written -/

/-- A decoded instruction in assembly text: the mnemonic and the operand bytes, in decimal. A byte that
numbers a register has an `R` before it; the target of `JMP` and the value that `LDI` loads stand for
themselves. -/
def Instruction.assembly (i : Instruction) : String :=
  let value (byte : UInt8) := toString byte.toNat
  let register (byte : UInt8) := "R" ++ value byte
  match i.opcode with
  | .jmp => "JMP " ++ value i.a
  | .ldi => "LDI " ++ (register i.a ++ "," ++ value i.b)
  | op => match op.declaredArity with
    | 0 => op.mnemonic
    | 1 => op.mnemonic ++ " " ++ register i.a
    | _ => op.mnemonic ++ " " ++ (register i.a ++ "," ++ register i.b)

/-- The text for something that is no instruction: it begins with three question marks. -/
def Unknown (text : String) : Prop := "???".toList <+: text.toList

/-- A mnemonic is a word, and no question mark stands in it. -/
theorem Opcode.mnemonic_word (op : Opcode) : op.mnemonic.toList ≠ []
    ∧ ∀ c ∈ op.mnemonic.toList, Text.isBlank c = false ∧ c ≠ '?' := by
  have hall : (op.mnemonic.toList.all fun c => !Text.isBlank c && c != '?') = true := by
    cases op <;> decide
  constructor
  · cases op <;> decide
  · simpa using hall

namespace Disassembled

/-- An instruction all of whose operands are there is written as the decoded one. -/
theorem text_whole (pc : Nat) (op : Opcode) (a b : UInt8) :
    (instruction op (([a, b].take op.arity).map some)).text
      = Instruction.assembly ⟨pc, op, op.action, a, b⟩ := by
  cases op <;> rfl

/-- After its mnemonic, the text of an instruction ends or goes on with a blank. -/
theorem exists_text_eq (op : Opcode) (operands : List (Option UInt8)) :
    ∃ rest, (instruction op operands).text.toList = op.mnemonic.toList ++ rest
      ∧ ∀ c ∈ rest.head?, Text.isBlank c = true := by
  simp only [text]
  generalize List.zipWith OperandKind.text op.operandKinds operands = shown
  cases shown with
  | nil => exact ⟨[], (List.append_nil _).symm, fun _ h => nomatch h⟩
  | cons x xs =>
    refine ⟨' ' :: (",".intercalate (x :: xs)).toList, ?_, ?_⟩
    · rw [String.toList_append, String.toList_append, List.append_assoc]
      rfl
    · rintro c ⟨⟩
      rfl

/-- The first word of the text of an instruction is its mnemonic. -/
theorem firstWord_text (op : Opcode) (operands : List (Option UInt8)) :
    Text.firstWord (instruction op operands).text.toList = op.mnemonic.toList := by
  obtain ⟨rest, htext, hrest⟩ := exists_text_eq op operands
  obtain ⟨hne, hword⟩ := op.mnemonic_word
  rw [htext]
  exact Text.Begins.firstWord_eq
    ⟨[], rest, rfl, Text.blank_nil, hne, fun c hc => (hword c hc).1, hrest⟩

theorem not_unknown_instruction (op : Opcode) (operands : List (Option UInt8)) :
    ¬ Unknown (instruction op operands).text := by
  obtain ⟨rest, htext, -⟩ := exists_text_eq op operands
  obtain ⟨hne, hword⟩ := op.mnemonic_word
  rw [Unknown, htext]
  intro h
  obtain ⟨c, tail, hcons⟩ := List.exists_cons_of_ne_nil hne
  rw [hcons, List.cons_append] at h
  have hc : c = '?' := (List.cons_prefix_cons.mp h).1.symm
  exact (hword c (by rw [hcons]; exact List.mem_cons_self)).2 hc

theorem unknown_beyond : Unknown beyond.text := List.prefix_rfl

theorem unknown_unnamed (byte : UInt8) : Unknown (unnamed byte).text := by
  rw [Unknown, text, String.toList_append]
  exact (List.prefix_append "???".toList " ; ".toList).trans (List.prefix_append _ _)

end Disassembled

/-! ## What stands at an address of memory -/

namespace Memory

theorem getElem?_toList (m : Memory) {a : Nat} (ha : a < 256) :
    m.toList[a]? = some (m.cell (UInt8.ofNat a)) := by
  rw [toList, cell]
  simp only [UInt8.toNat_ofNat_of_lt' ha]
  simp [ha]

theorem disassembleAt_of_ge (m : Memory) {a : Nat} (ha : 256 ≤ a) :
    disassembleAt m.toList a = .beyond := by
  have hlen : m.toList.length = 256 := m.cells.length_toList
  rw [disassembleAt, List.drop_eq_nil_of_le (by omega), Disassembled.ofBytes]

theorem drop_toList (m : Memory) {a : Nat} (ha : a < 256) :
    m.toList.drop a = m.cell (UInt8.ofNat a) :: m.toList.drop (a + 1) := by
  have hlen : a < m.toList.length := ha.trans_eq m.cells.length_toList.symm
  have hbyte : m.toList[a] = m.cell (UInt8.ofNat a) :=
    Option.some.inj ((List.getElem?_eq_getElem hlen).symm.trans (m.getElem?_toList ha))
  rw [List.drop_eq_getElem_cons hlen, hbyte]

end Memory

namespace Machine

variable {m : Machine} {op : Opcode}

/-- What the disassembler finds at the program counter. -/
def disassembled (m : Machine) : Disassembled := disassembleAt m.mem.toList m.regs.pc

theorem drop_memory (hpc : m.regs.pc ≤ 255) :
    m.mem.toList.drop m.regs.pc = m.code :: m.mem.toList.drop (m.regs.pc + 1) :=
  m.mem.drop_toList (Nat.lt_succ_of_le hpc)

theorem disassembled_of_unnamed (hpc : m.regs.pc ≤ 255) (hop : Opcode.ofByte? m.code = none) :
    m.disassembled = .unnamed m.code := by
  simp only [disassembled, disassembleAt, drop_memory hpc, Disassembled.ofBytes, hop]

theorem disassembled_of_named (hpc : m.regs.pc ≤ 255) (hop : Opcode.ofByte? m.code = some op) :
    m.disassembled
      = .instruction op ((List.range op.arity).map fun i => m.mem.toList[m.regs.pc + 1 + i]?) := by
  simp only [disassembled, disassembleAt, drop_memory hpc, Disassembled.ofBytes, hop,
    List.getElem?_drop]

/-- If its operands are in memory, an instruction is found with the operands that it is executed with. -/
theorem disassembled_of_whole (hop : Opcode.ofByte? m.code = some op)
    (hwhole : m.regs.pc + op.declaredArity ≤ 255) {a b : UInt8}
    (ha : 1 ≤ op.declaredArity → a = m.operand 1) (hb : 2 ≤ op.declaredArity → b = m.operand 2) :
    m.disassembled = .instruction op (([a, b].take op.arity).map some) := by
  have hread : ∀ k, m.regs.pc + k ≤ 255 → m.mem.toList[m.regs.pc + k]? = some (m.operand k) :=
    fun k hk => m.mem.getElem?_toList (Nat.lt_succ_of_le hk)
  have htwo := op.arity_le_two
  rw [op.declaredArity_eq_arity] at hwhole ha hb
  rw [disassembled_of_named (by omega) hop]
  congr 1
  generalize op.arity = arity at htwo hwhole ha hb
  match arity with
  | 0 => rfl
  | 1 =>
    rw [ha le_rfl]
    exact congrArg (· :: []) (hread 1 hwhole)
  | 2 =>
    rw [ha (by decide), hb le_rfl]
    exact congrArg₂ (· :: · :: []) (hread 1 (by omega)) (hread 2 hwhole)

end Machine

/-! ## The instruction of a cycle -/

namespace Machine

variable {m : Machine}

/-- A cycle reports the instruction that it has decoded. -/
theorem attempt_instruction (h : m.isHalted = false) (hpc : m.regs.pc ≤ 255) {i : Instruction}
    (hdecode : m.entry.fetchedBytes.decode m.config = .ok (.instruction i)) :
    m.attempt.1.instruction = some i := by
  obtain ⟨d, hd⟩ := takeInterrupt_running hpc
  have hconfig : m.entry.fetched.config = m.config := m.entry_config
  rw [attempt_report h]
  simp only [cycle, hd, fetch_of_le (entry_pc_le hpc), hconfig, hdecode]

/-- A `CALL` leaves the address past its two bytes on top of the stack. -/
theorem top_of_call (m : Machine) (operands : Nat) :
    let m' := (m.effectOf .call).apply operands m.fetched
    m'.mem.cell m'.regs.sp = UInt8.ofNat (m.regs.pc + 2) := by
  intro m'
  have hsp : m'.regs.sp = m.regs.sp - 1 := Effect.apply_get ..
  rw [hsp, Effect.apply_cell]
  exact if_pos rfl

end Machine

/-- Where an instruction does not transfer control: if it is not one to place the program counter, if it is
`INT`, and if it is a conditional jump whose condition does not hold. -/
theorem Opcode.transfers_eq_false {op : Opcode} {fl : Flags}
    (h : placesCounter op.byte = false ∨ op = .int
      ∨ ∃ condition, op.action = .jumpIf condition ∧ condition.holds fl = false) :
    op.transfers fl = false := by
  rcases h with hplaces | rfl | ⟨condition, haction, hfl⟩
  · exact transfers_of_not_places hplaces fl
  · rfl
  · cases op <;> cases haction <;> exact hfl

namespace Machine

variable {m : Machine}

/-- **What is executed is what is shown.** The disassembled `code` shows the instruction `i` that the step at
`m` executes. -/
structure ShownAs (m : Machine) (i : Instruction) (code : Disassembled) : Prop where
  text : code.text = i.assembly
  /-- The text begins with the mnemonic, and no letter more. -/
  mnemonic : Text.firstWord code.text.toList = i.opcode.mnemonic.toList
  /-- Where control is not transferred it goes on past the bytes that are shown. -/
  next : placesCounter i.opcode.byte = false ∨ i.opcode = .int
      ∨ (∃ condition, i.opcode.action = .jumpIf condition
          ∧ condition.holds m.entry.regs.fl = false) →
    m.step.2.regs.pc = i.pc + code.length
  /-- A call pushes the address past the bytes that are shown. -/
  pushed : i.opcode = .call →
    (m.step.2.mem.cell m.step.2.regs.sp).toNat = i.pc + code.length

theorem shownAs_of_executed {pc : Nat} {op : Opcode} {out : Option Output}
    (h : m.step.1 = .ok (.executed pc op out)) :
    ∃ i, m.attempt.1.instruction = some i ∧ i.pc = pc ∧ i.opcode = op
      ∧ ShownAs m i (disassembleAt m.entry.mem.toList pc) := by
  obtain ⟨hm, hcycle⟩ := cycle_of_ok h
  generalize hm' : m.step.2 = m' at hcycle
  cases hcycle with
  | executed hpc hf hop =>
    obtain ⟨hprofile, hwhole, -⟩ := (refusal_named_eq_none_iff hop).mp hf
    rw [entry_config] at hprofile
    obtain ⟨a, b, hdecode, ha, hb⟩ := decode_whole hop hprofile hwhole
    have hcode : m.entry.disassembled = _ := disassembled_of_whole hop hwhole ha hb
    have hlength : m.entry.disassembled.length = 1 + op.declaredArity := by
      rw [hcode, op.declaredArity_eq_arity]
      rfl
    refine ⟨_, attempt_instruction hm hpc hdecode, rfl, rfl, ?_⟩
    show ShownAs m _ m.entry.disassembled
    refine ⟨?_, ?_, ?_, ?_⟩
    · rw [hcode]
      exact Disassembled.text_whole ..
    · rw [hcode]
      exact Disassembled.firstWord_text ..
    · intro hstays
      have htarget : (m.entry.effectOf op).target = none :=
        Opcode.effect_target_eq_none (Opcode.transfers_eq_false hstays) _ _
      rw [hm', hlength, ← Nat.add_assoc]
      show (m.entry.effectOf op).target.elim (m.entry.regs.pc + 1 + op.declaredArity) _ = _
      rw [htarget]
      rfl
    · rintro rfl
      rw [hm', top_of_call, hlength]
      exact UInt8.toNat_ofNat_of_lt' (Nat.lt_succ_of_le (pc_le_of_granted_call hop hf))

end Machine

/-! ## What is unknown -/

/-- No instruction refuses the address that it stands at. -/
theorem Opcode.refusal_ne_counter (op : Opcode) (a b : UInt8) (m : Machine) :
    op.refusal a b m ≠ some (.memory ⟨m.regs.pc⟩) := by
  intro h
  unfold Opcode.refusal at h
  split at h
  · cases h
  · unfold Opcode.ownRefusal at h
    cases op <;> simp at h

namespace Machine

variable {m : Machine}

/-- A cycle finds nothing to execute at the address `pc`: it passes over the byte there, or refuses it as
naming nothing, or there is no cell with that address. -/
def FindsNothing (result : Except Fault Step) (pc : Nat) : Prop :=
  (∃ byte, result = .ok (.skipped pc byte)) ∨ (∃ byte, result = .error (.invalidInstruction byte pc))
    ∨ result = .error (.memory ⟨pc⟩)

/-- A named instruction may be refused, but not for being unnamed, nor for standing past memory. -/
theorem not_findsNothing_of_refusal {op : Opcode} (hpc : m.regs.pc ≤ 255)
    (hop : Opcode.ofByte? m.code = some op) {f : Fault} (hf : m.refusal = some f) :
    ¬ FindsNothing (.error f) m.regs.pc := by
  rw [refusal_named hop] at hf
  rintro (⟨byte, h⟩ | ⟨byte, h⟩ | h)
  · cases h
  · cases h
    split_ifs at hf
    · cases hf
    · cases hf
    · exact op.refusal_ne_invalid _ _ _ _ _ hf
  · cases h
    split_ifs at hf
    · cases hf
    · have hpast : 256 = m.regs.pc := by simpa using hf
      omega
    · exact op.refusal_ne_counter _ _ _ hf

/-- The text for where a cycle fetches is that of something unknown exactly if the cycle finds nothing to
execute there. -/
theorem unknown_iff_findsNothing (h : m.isHalted = false) :
    Unknown m.entry.disassembled.text ↔ FindsNothing m.step.1 m.entry.regs.pc := by
  have hcycle := step_cycle h
  generalize m.step.2 = m' at hcycle
  generalize m.step.1 = result at hcycle ⊢
  cases hcycle with
  | outside hpc =>
    rw [entry_of_lt hpc, disassembled, m.mem.disassembleAt_of_ge hpc]
    exact iff_of_true Disassembled.unknown_beyond (.inr (.inr rfl))
  | refused hpc hf =>
    cases hop : Opcode.ofByte? m.entry.code with
    | none =>
      rw [disassembled_of_unnamed (entry_pc_le hpc) hop]
      rw [refusal_unnamed hop] at hf
      split_ifs at hf
      cases hf
      exact iff_of_true (Disassembled.unknown_unnamed _) (.inr (.inl ⟨_, rfl⟩))
    | some op =>
      rw [disassembled_of_named (entry_pc_le hpc) hop]
      exact iff_of_false (Disassembled.not_unknown_instruction _ _)
        (not_findsNothing_of_refusal (entry_pc_le hpc) hop hf)
  | passed hpc hf hop =>
    rw [disassembled_of_unnamed (entry_pc_le hpc) hop]
    exact iff_of_true (Disassembled.unknown_unnamed _) (.inl ⟨_, rfl⟩)
  | executed hpc hf hop =>
    rw [disassembled_of_named (entry_pc_le hpc) hop]
    refine iff_of_false (Disassembled.not_unknown_instruction _ _) ?_
    rintro (⟨byte, h⟩ | ⟨byte, h⟩ | h) <;> cases h

/-- **The disassembler and the machine agree.** For an instruction that a step executes, the text at its
address, in the memory it was fetched from, is the instruction that was decoded with the operand bytes that it
was executed with, and the length is how far control goes on and what a call pushes. For any memory and
address that a machine fetches from, the text is that of something unknown exactly if the byte is passed
over, is refused as naming nothing, or is not there. -/
theorem disassembly_agrees (m : Machine) :
    (∀ pc op out, m.step.1 = .ok (.executed pc op out) →
      ∃ i, m.attempt.1.instruction = some i ∧ i.pc = pc ∧ i.opcode = op
        ∧ ShownAs m i (disassembleAt m.entry.mem.toList pc))
    ∧ ∀ mem address, m.isHalted = false → m.entry.mem = mem → m.entry.regs.pc = address →
      (Unknown (disassembleAt mem.toList address).text ↔ FindsNothing m.step.1 address) := by
  constructor
  · intro pc op out h
    exact shownAs_of_executed h
  · rintro mem address hm rfl rfl
    exact unknown_iff_findsNothing hm

/-- A machine with interrupt 0 raised, whose handler starts with a `CALL`. -/
def callingHandler : Machine :=
  { strayInterrupt with mem := strayInterrupt.mem.setCell 0x10 Opcode.call.byte }

theorem disassembly_agrees_callingHandler :
    callingHandler.step.1 = .ok (.executed 0x10 .call none)
      ∧ (disassembleAt callingHandler.entry.mem.toList 0x10).text = "CALL R0"
      ∧ (callingHandler.step.2.mem.cell callingHandler.step.2.regs.sp).toNat
          = 0x10 + (disassembleAt callingHandler.entry.mem.toList 0x10).length
      ∧ strayInterrupt.isHalted = false
      ∧ Unknown (disassembleAt strayInterrupt.entry.mem.toList 0x10).text := by
  have hstep : callingHandler.step.1 = .ok (.executed 0x10 .call none) := by decide
  have hdecoded : callingHandler.attempt.1.instruction = some ⟨0x10, .call, .call, 0, 0⟩ := by decide
  obtain ⟨hexecuted, -⟩ := disassembly_agrees callingHandler
  obtain ⟨i, hi, hpc, hop, hshown⟩ := hexecuted 0x10 .call none hstep
  obtain rfl := Option.some.inj (hdecoded.symm.trans hi)
  obtain ⟨-, hunknown⟩ := disassembly_agrees strayInterrupt
  refine ⟨hstep, hshown.text, hshown.pushed rfl, rfl, ?_⟩
  refine (hunknown _ _ rfl rfl (by decide)).mpr (.inr (.inl ⟨0xFF, by decide⟩))

end Machine

end EightBit
