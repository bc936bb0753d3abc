/-
# EightBit.Proofs.StatusLine -- the instruction that a status line names

After a step a debugger's status names an address and an instruction: the one that stands at the address
when the step is over. The machine has executed the one that stood there when the step fetched it. Between
the two there is one store at most, of an `ST`, or of a `PUSH` or a `CALL` below the stack pointer. The frame
of an interrupt makes no difference, since it is pushed before the fetch.

So a status line names the instruction that was executed exactly if that instruction has not changed one of
its own bytes. It never names it by chance if it has, since no two instructions share a text.
-/
import EightBit.Proofs.AssemblyText
import EightBit.Proofs.Brackets
import EightBit.Proofs.Reset

namespace EightBit

namespace Machine

variable {m : Machine} {pc : Nat} {op : Opcode} {out : Option Output}

/-! ## The bytes of an instruction after it was executed -/

/-- The instruction `i`, executed by the step at `m`, stores a byte in the place of one of its own that was
another. -/
def OverwritesItself (m : Machine) (i : Instruction) : Prop :=
  ∃ address value, m.stored? = some (address, value)
    ∧ i.pc ≤ address.toNat ∧ address.toNat ≤ i.pc + i.opcode.arity
    ∧ value ≠ m.entry.mem.cell address

theorem executed?_of_ok (h : m.step.1 = .ok (.executed pc op out)) : m.executed? = some op := by
  rw [executed?, h]
  rfl

/-- An instruction that is executed lies in memory to its last byte, and this is its length. -/
theorem length_of_executed (h : m.step.1 = .ok (.executed pc op out)) :
    pc + op.arity ≤ 255 ∧ (disassembleAt m.entry.mem.toList pc).length = 1 + op.arity := by
  obtain ⟨-, hcycle⟩ := cycle_of_ok h
  generalize m.step.2 = m' at hcycle
  cases hcycle with
  | executed hpc hf hop =>
    obtain ⟨-, hwhole, -⟩ := (refusal_named_eq_none_iff hop).mp hf
    refine ⟨op.declaredArity_eq_arity ▸ hwhole, ?_⟩
    show m.entry.disassembled.length = 1 + op.arity
    rw [disassembled_of_named (entry_pc_le hpc) hop]
    rfl

/-- An executed instruction that stores nothing over itself is found again after the step, and one that does is
not. -/
theorem text_after_eq_iff {i : Instruction} (h : m.step.1 = .ok (.executed i.pc i.opcode out)) :
    (disassembleAt m.step.2.mem.toList i.pc).text = (disassembleAt m.entry.mem.toList i.pc).text
      ↔ ¬ OverwritesItself m i := by
  obtain ⟨hwhole, hlength⟩ := length_of_executed h
  have hcell : ∀ a, m.step.2.mem.cell a
      = m.stored?.elim (m.entry.mem.cell a) fun w => if w.1 = a then w.2 else m.entry.mem.cell a := by
    rw [entry_eq_start (cycle_of_ok h).1]
    exact m.step_cell
  rw [eq_comm, text_disassembleAt_eq_iff, hlength]
  constructor
  · rintro hsame ⟨address, value, hstored, hfrom, hto, hvalue⟩
    have hbyte := hsame (address.toNat - i.pc) (by omega)
    rw [Nat.add_sub_cancel' hfrom, Memory.getElem?_toList _ address.toNat_lt,
      Memory.getElem?_toList _ address.toNat_lt, UInt8.ofNat_toNat, hcell, hstored] at hbyte
    exact hvalue (by simpa using hbyte.symm)
  · intro hkept k hk
    have hlt : i.pc + k < 256 := by omega
    rw [Memory.getElem?_toList _ hlt, Memory.getElem?_toList _ hlt, hcell]
    cases hstored : m.stored? with
    | none => rfl
    | some w =>
      obtain ⟨address, value⟩ := w
      by_cases haddress : address = UInt8.ofNat (i.pc + k)
      · have hplace : address.toNat = i.pc + k := by
          rw [haddress, UInt8.toNat_ofNat_of_lt' hlt]
        have hvalue : value = m.entry.mem.cell address := by
          by_contra hne
          exact hkept ⟨address, value, hstored, by omega, by omega, hne⟩
        rw [Option.elim_some, if_pos haddress, hvalue, haddress]
      · rw [Option.elim_some, if_neg haddress]

/-- Only `ST`, `PUSH` and `CALL` store a byte. -/
theorem not_overwritesItself {i : Instruction} (h : m.step.1 = .ok (.executed i.pc i.opcode out))
    (hst : i.opcode ≠ .st) (hpush : i.opcode ≠ .push) (hcall : i.opcode ≠ .call) :
    ¬ OverwritesItself m i := by
  rintro ⟨address, value, hstored, -⟩
  have hopen : i.opcode.bracket ≠ .opening := by
    intro hbracket
    exact (Opcode.bracket_opening hbracket).elim hpush hcall
  rw [stored?, executed?_of_ok h, Option.bind_some, effectOf,
    Opcode.effect_store_eq_none hopen hst] at hstored
  cases hstored

end Machine

namespace Debugger

/-! ## Steps and their status lines -/

/-- The debugger `d'` is `d` after a step: one that was asked for, or the step of a tick that makes one. -/
inductive Steps (d : Debugger) : Debugger → Prop
  | asked : Steps d d.step
  | ticked (hrun : d.running = true)
      (hpc : d.machine.regs.pc ∈ d.breakpoints → d.resumeFrom = some d.machine.regs.pc) :
    Steps d d.tick

/-- The status line for an instruction: its address, its text and, if it is one to place the program counter,
the address at which it has placed it. -/
def statusLine (pc : Nat) (op : Opcode) (text : String) (placed : Nat) : String :=
  "PC=" ++ Text.hex pc ++ ": " ++ text
    ++ if placesCounter op.byte then "  -> " ++ Text.hex placed else ""

theorem statusLine_inj {pc : Nat} {op : Opcode} {text text' : String} {placed : Nat} :
    statusLine pc op text placed = statusLine pc op text' placed ↔ text = text' := by
  rw [statusLine, statusLine, String.append_left_inj, String.append_right_inj]

variable {d d' : Debugger} {pc : Nat} {op : Opcode} {out : Option Output}

theorem text_executed (pc : Nat) (op : Opcode) (code : Disassembled) (placed : Nat) :
    (Status.executed pc code (if placesCounter op.byte then some placed else none)).text
      = statusLine pc op code.text placed := by
  rw [statusLine]
  generalize placesCounter op.byte = places
  cases places with
  | false => exact String.append_empty.symm
  | true =>
    show "PC=" ++ Text.hex pc ++ ": " ++ code.text ++ "  -> " ++ Text.hex placed = _
    rw [String.append_assoc]
    rfl

theorem step_eq_of_executed {m' : Machine} (h : d.machine.step = (.ok (.executed pc op out), m')) :
    ∃ console, d.step =
      { d with
        machine := m'
        status := .executed pc (disassembleAt m'.mem.toList pc)
          (if placesCounter op.byte then some m'.regs.pc else none)
        console } := by
  have hm := (Machine.cycle_of_step h).1
  rw [step, if_neg (ne_true_of_eq_false hm), h]
  exact ⟨_, rfl⟩

/-- The debugger's step is the machine's, and its status shows what the memory then holds. -/
theorem step_of_executed (h : d.machine.step.1 = .ok (.executed pc op out)) :
    d.step.machine = d.machine.step.2
      ∧ d.step.status.text = statusLine pc op
          (disassembleAt d.machine.step.2.mem.toList pc).text d.machine.step.2.regs.pc := by
  obtain ⟨console, hd⟩ := step_eq_of_executed (d := d) (Prod.ext h rfl)
  rw [hd]
  exact ⟨rfl, text_executed ..⟩

/-- Asked for or made by a tick, it is the same step. -/
theorem Steps.of_executed (hd : Steps d d') (h : d.machine.step.1 = .ok (.executed pc op out)) :
    d'.machine = d.machine.step.2
      ∧ d'.status.text = statusLine pc op
          (disassembleAt d.machine.step.2.mem.toList pc).text d.machine.step.2.regs.pc := by
  cases hd with
  | asked => exact step_of_executed h
  | ticked hrun hpc =>
    have hm := (Machine.cycle_of_ok h).1
    have htick : d.tick = d.forget.step := by
      have hspec := d.tick_spec
      generalize d.tick = d' at hspec ⊢
      cases hspec with
      | idle hidle => cases hrun.symm.trans hidle
      | finished _ hhalted => cases hm.symm.trans hhalted
      | paused _ _ hmem hresume => exact absurd (hpc hmem) hresume
      | stepped => rfl
    rw [htick]
    exact step_of_executed (d := d.forget) h

/-- **What a status line names.** After a step that executes an instruction the status line has its address, and
in place of its text the text for what stands there when the step is over. It is the line for the instruction
that was executed, with the operands that it was executed with, exactly if that instruction has not stored
another byte over one of its own; and only `ST`, `PUSH` and `CALL` can. -/
theorem status_names_executed_iff (hd : Steps d d')
    (h : d.machine.step.1 = .ok (.executed pc op out)) :
    ∃ i, d.machine.attempt.1.instruction = some i ∧ i.pc = pc ∧ i.opcode = op
      ∧ i.assembly = (disassembleAt d.machine.entry.mem.toList pc).text
      ∧ d'.status.text = statusLine pc op (disassembleAt d'.machine.mem.toList pc).text
          d'.machine.regs.pc
      ∧ (d'.status.text = statusLine pc op i.assembly d'.machine.regs.pc
          ↔ ¬ d.machine.OverwritesItself i)
      ∧ (op ≠ .st → op ≠ .push → op ≠ .call → ¬ d.machine.OverwritesItself i) := by
  obtain ⟨i, hi, rfl, rfl, hshown⟩ := Machine.shownAs_of_executed h
  obtain ⟨hmachine, hstatus⟩ := hd.of_executed h
  rw [← hmachine] at hstatus
  refine ⟨i, hi, rfl, rfl, hshown.text.symm, hstatus, ?_, Machine.not_overwritesItself h⟩
  rw [hstatus, statusLine_inj, ← hshown.text, hmachine]
  exact Machine.text_after_eq_iff h

/-- A debugger on a single `ST`, whose address register is zero: it stores a zero over its own opcode. -/
def storingOverItself : Debugger := start {} [Opcode.st.byte, 0, 1]

/-- A debugger on a `CALL` to the address that is in `R0`, which is zero. -/
def callingStart : Debugger := start {} [Opcode.call.byte, 0]

theorem status_names_executed_iff_storing :
    storingOverItself.machine.step.1 = .ok (.executed 0 .st none)
      ∧ storingOverItself.step.status.text ≠ statusLine 0 .st "ST R0,R1" 3
      ∧ callingStart.machine.step.1 = .ok (.executed 0 .call none)
      ∧ callingStart.step.status.text = statusLine 0 .call "CALL R0" 0 := by
  have hstore : storingOverItself.machine.step.1 = .ok (.executed 0 .st none) := by decide +kernel
  have hcall : callingStart.machine.step.1 = .ok (.executed 0 .call none) := by decide +kernel
  have hi : storingOverItself.machine.attempt.1.instruction = some ⟨0, .st, .store, 0, 1⟩ := by
    decide +kernel
  have hj : callingStart.machine.attempt.1.instruction = some ⟨0, .call, .call, 0, 0⟩ := by
    decide +kernel
  have hstored : storingOverItself.machine.stored? = some (0, 0) := by decide +kernel
  have hkept : callingStart.machine.stored? = some (0xF3, 2) := by decide +kernel
  obtain ⟨i, hi', -, -, -, -, hnamed, -⟩ := status_names_executed_iff .asked hstore
  obtain ⟨j, hj', -, -, -, -, hnamed', -⟩ := status_names_executed_iff .asked hcall
  obtain rfl := Option.some.inj (hi.symm.trans hi')
  obtain rfl := Option.some.inj (hj.symm.trans hj')
  have hnext : storingOverItself.step.machine.regs.pc = 3 := by decide +kernel
  have hplaced : callingStart.step.machine.regs.pc = 0 := by decide +kernel
  rw [hnext] at hnamed
  rw [hplaced] at hnamed'
  refine ⟨hstore, ?_, hcall, ?_⟩
  · refine mt hnamed.mp (not_not.mpr ?_)
    exact ⟨0, 0, hstored, le_rfl, Nat.zero_le _, by decide +kernel⟩
  · refine hnamed'.mpr ?_
    rintro ⟨address, value, hsame, -, hto, -⟩
    cases hkept.symm.trans hsame
    exact absurd hto (by decide)

/-- A status line does not always name what was executed: an instruction may overwrite itself. -/
theorem status_names_overwritten :
    ¬ ∀ config program d', Steps (start config program) d' →
      ∀ pc op out, (start config program).machine.step.1 = .ok (.executed pc op out) →
        ∀ i, (start config program).machine.attempt.1.instruction = some i →
          d'.status.text = statusLine pc op i.assembly d'.machine.regs.pc := by
  intro names
  have hline := names {} [Opcode.st.byte, 0, 1] _ .asked 0 .st none (by decide +kernel)
    ⟨0, .st, .store, 0, 1⟩ (by decide +kernel)
  exact absurd hline (by decide +kernel)

end Debugger

end EightBit
