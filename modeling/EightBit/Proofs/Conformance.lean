/-
# EightBit.Proofs.Conformance -- a step is a row of the table

When no interrupt is due, a step that succeeds is the row of the instruction at the program counter
and nothing else. `Updated` reads the machine after the step in full, the latch of the last read
apart, from the machine before it; it mentions neither the fetch nor the engine.

The rows are written with every reading taken before the instruction, so that no operand register is
too close to another, or to the stack pointer, for the row to hold.
-/
import EightBit.Proofs.Cycle

namespace EightBit

open RegisterIndex (named)

/-! ## What the rows say about control and long shifts -/

namespace Opcode

/-- Whether the instruction says itself where control goes on. -/
def transfers (op : Opcode) (fl : Flags) : Bool :=
  match op with
  | .call | .ret | .iret | .jmp => true
  | _ => op.takes fl

/-- Only an opcode that is marked as placing the counter is of an instruction that says so. -/
theorem transfers_of_not_places {op : Opcode} (h : placesCounter op.byte = false) (fl : Flags) :
    op.transfers fl = false := by
  cases op
  case call | ret | iret | jmp | jeq | jne | jgt | jlt | jle | jge => exact absurd h (by decide)
  all_goals rfl

/-- An instruction that does not say where control goes on has no target in its row. -/
theorem effect_target_eq_none {op : Opcode} {m : Machine} (h : op.transfers m.regs.fl = false)
    (a b : UInt8) : (op.effect a b m).target = none := by
  cases op
  case call | ret | iret | jmp => cases h
  case jeq | jne | jgt | jlt | jle | jge => exact if_neg (ne_true_of_eq_false h)
  all_goals rfl

/-- Eight places are enough to move every bit of a byte out of it. -/
theorem arith_shift_eq_zero {op : Opcode} (hop : op = .shl ∨ op = .shr) (x : UInt8) {y : Nat}
    (hy : 8 ≤ y) : UInt8.ofNat (op.arith x.toNat y) = 0 := by
  rcases hop with rfl | rfl
  · have hdvd : 2 ^ 8 ∣ x.toNat * 2 ^ y := Dvd.dvd.mul_left (pow_dvd_pow 2 hy) _
    rw [← UInt8.toNat_inj, UInt8.toNat_ofNat']
    exact Nat.mod_eq_zero_of_dvd hdvd
  · have hlt : x.toNat < 2 ^ y := Nat.lt_of_lt_of_le x.toNat_lt (Nat.pow_le_pow_right (by decide) hy)
    show UInt8.ofNat (x.toNat / 2 ^ y) = 0
    rw [Nat.div_eq_of_lt hlt]
    rfl

end Opcode

/-! ## Conformance -/

namespace Machine

/-- The machine `m'` is `m` updated by the row of `op` and by nothing else: what the row does not
name keeps its value. Only the latch of the last read is left open. -/
structure Updated (op : Opcode) (m m' : Machine) : Prop where
  register (i : RegisterIndex) :
    m'.regs.get i = ((m.effectOf op).registers i).getD (m.regs.get i)
  cell (a : UInt8) :
    m'.mem.cell a
      = (m.effectOf op).store.elim (m.mem.cell a) fun w => if w.1 = a then w.2 else m.mem.cell a
  flags : m'.regs.fl = (m.effectOf op).flags.getD m.regs.fl
  interrupts : m'.regs.interruptsEnabled = ((m.effectOf op).enables || m.regs.interruptsEnabled)
  counter :
    m'.regs.pc = (m.effectOf op).target.elim (m.regs.pc + 1 + op.declaredArity) UInt8.toNat
  ir : m'.regs.ir = op.byte
  cycles : m'.cycles.toNat = m.cycles.toNat + 1
  phase : m'.phase = if (m.effectOf op).halts then .halted else .running
  config : m'.config = m.config

namespace Updated

variable {op : Opcode} {m m' : Machine}

/-- The instruction's effect on the machine that has fetched it is its row, read before the fetch:
fetching changes nothing that a row reads. -/
theorem of_apply (hop : Opcode.ofByte? m.code = some op) (hcycles : m.cycles.toNat < 2 ^ 64 - 1) :
    Updated op m ((m.effectOf op).apply op.declaredArity m.fetched) where
  register i := Effect.apply_get ..
  cell a := Effect.apply_cell ..
  flags := rfl
  interrupts := rfl
  counter := rfl
  ir := (Opcode.byte_of_ofByte? hop).symm
  cycles := by
    show (m.cycles + 1).toNat = _
    rw [UInt64.toNat_add, UInt64.toNat_one, Nat.mod_eq_of_lt (by omega)]
  phase := rfl
  config := rfl

theorem counter_of_not_transfers (h : Updated op m m') (hop : op.transfers m.regs.fl = false) :
    m'.regs.pc = m.regs.pc + 1 + op.declaredArity := by
  rw [h.counter, effectOf, Opcode.effect_target_eq_none hop]
  rfl

theorem shift (h : Updated op m m') (hop : op = .shl ∨ op = .shr)
    (hlong : 8 ≤ (m.regs.get (named (m.operand 2))).toNat) :
    m'.regs.get (named (m.operand 1)) = 0 := by
  have hrow : (m.effectOf op).registers = Effect.only (named (m.operand 1)) (UInt8.ofNat
      (op.arith (m.regs.get (named (m.operand 1))).toNat
        (m.regs.get (named (m.operand 2))).toNat)) := by
    rcases hop with rfl | rfl <;> rfl
  rw [h.register, hrow, Effect.getD_only, if_pos rfl, Opcode.arith_shift_eq_zero hop _ hlong]

/-- Pushing the stack pointer stores it as it was before the push. -/
theorem push_stackPointer (h : Updated op m m') (hop : op = .push) (hsp : m.operand 1 = 7) :
    m'.mem.cell (m.regs.sp - 1) = m.regs.sp := by
  subst hop
  have hnamed : named (m.operand 1) = stackPointer := by rw [hsp]; rfl
  have hrow : (m.effectOf .push).store = some (m.regs.sp - 1, m.regs.sp) := by
    show some (_, m.regs.get (named (m.operand 1))) = _
    rw [hnamed]
    rfl
  rw [h.cell, hrow]
  exact if_pos rfl

/-- Popping into the stack pointer leaves the popped value there, and not the address above it. -/
theorem pop_stackPointer (h : Updated op m m') (hop : op = .pop) (hsp : m.operand 1 = 7) :
    m'.regs.sp = m.mem.cell m.regs.sp := by
  subst hop
  have hnamed : named (m.operand 1) = stackPointer := by rw [hsp]; rfl
  have hrow : (m.effectOf .pop).registers stackPointer = some (m.mem.cell m.regs.sp) := by
    show (if named (m.operand 1) = stackPointer then _ else _) = _
    rw [if_pos hnamed]
    rfl
  rw [Registers.sp, h.register, hrow]
  rfl

end Updated

/-- **Conformance.** With no interrupt due, a step that succeeds at a named instruction updates the
machine by that instruction's row of the table. Its register operands number registers; control goes
to the instruction's target or past its operands; a shift by eight or more gives zero; and the stack
pointer as an operand is the one before a push and the popped value after a pop. -/
theorem step_updated {m m' : Machine} {op : Opcode} {s : Step}
    (hquiet : m.regs.interruptsEnabled = false
      ∨ m.regs.get interruptMask &&& m.regs.get interruptStatus = 0)
    (hop : Opcode.ofByte? m.code = some op) (hcycles : m.cycles.toNat < 2 ^ 64 - 1)
    (hstep : m.step = (.ok s, m')) :
    s = .executed m.regs.pc op (m.effectOf op).output
      ∧ Updated op m m'
      ∧ (∀ r ∈ op.registerOperands (m.operand 1) (m.operand 2) m.regs.fl, r.toNat ≤ 7)
      ∧ (op.transfers m.regs.fl = false → m'.regs.pc = m.regs.pc + 1 + op.declaredArity)
      ∧ (op = .shl ∨ op = .shr → 8 ≤ (m.regs.get (named (m.operand 2))).toNat →
          m'.regs.get (named (m.operand 1)) = 0)
      ∧ (op = .push → m.operand 1 = 7 → m'.mem.cell (m.regs.sp - 1) = m.regs.sp)
      ∧ (op = .pop → m.operand 1 = 7 → m'.regs.sp = m.mem.cell m.regs.sp) := by
  obtain ⟨-, hcycle⟩ := cycle_of_step hstep
  have hentry : m.entry = m := entry_of_none (pendingInterrupt?_eq_none_iff.mpr hquiet)
  cases hcycle with
  | passed _ _ hop' =>
    rw [hentry, hop] at hop'
    cases hop'
  | executed _ hf hop' =>
    rw [hentry] at hf hop' ⊢
    obtain rfl := Option.some.inj (hop.symm.trans hop')
    have hu := Updated.of_apply hop hcycles
    obtain ⟨-, -, hgranted⟩ := (refusal_named_eq_none_iff hop).mp hf
    obtain ⟨hreg, -⟩ := Opcode.refusal_eq_none_iff.mp hgranted
    refine ⟨rfl, hu, ?_, hu.counter_of_not_transfers, hu.shift, hu.push_stackPointer,
      hu.pop_stackPointer⟩
    intro r hr
    exact Nat.not_lt.mp (hreg r hr)

/-- A machine about to pop `0x42` into its own stack pointer. -/
def poppingStackPointer : Machine :=
  { powerOn {} with
    mem := ((Memory.blank.setCell 0 Opcode.pop.byte).setCell 1 7).setCell stackTop 0x42 }

theorem step_updated_poppingStackPointer :
    poppingStackPointer.step.1 = .ok (.executed 0 .pop none)
      ∧ Updated .pop poppingStackPointer poppingStackPointer.step.2
      ∧ poppingStackPointer.step.2.regs.sp = 0x42 := by
  have hop : Opcode.ofByte? poppingStackPointer.code = some .pop := by decide
  have hstep : poppingStackPointer.step.1 = .ok (.executed 0 .pop none) := by decide
  obtain ⟨-, hu, -, -, -, -, hpop⟩ :=
    step_updated (.inr (by decide)) hop (by decide) (Prod.ext hstep rfl)
  exact ⟨hstep, hu, hpop rfl (by decide)⟩

end Machine

end EightBit
