/-
# EightBit.Proofs.Execution -- the engine is the instruction table

Executing an instruction and completing its cycle is one of two things. Either the instruction
refuses, and then the machine is the one it started from; or it does what its row of the table says.
Which of the two it is, and with which fault, the table says as well.

An action that faults keeps whatever it had changed before, so the first half is a statement about
the order of checks and writes inside every action.
-/
import EightBit.Proofs.Action

namespace EightBit

open RegisterIndex (named)

namespace Opcode

/-- The end of a cycle: past the instruction, unless it places the program counter itself. -/
def finish (op : Opcode) (m : Machine) : Machine :=
  (if placesCounter op.byte then m else m.advance op.arity).tally

/-! ## What is refused changes nothing -/

section Refused

variable {op : Opcode} {a b : UInt8} {m : Machine} {f : Fault}

theorem refusal_of_one {r : UInt8} (hl : op.registerOperands a b m.regs.fl = [r]) :
    op.refusal a b m
      = if 7 < r.toNat then some (.register ⟨r⟩) else op.ownRefusal a b m := by
  rw [refusal, hl]
  by_cases hr : 7 < r.toNat
  · rw [if_pos hr, List.find?_cons_of_pos (by simpa using hr)]
  · rw [if_neg hr, List.find?_cons_of_neg (by simpa using hr)]
    rfl

theorem refusal_of_two {r s : UInt8} (hl : op.registerOperands a b m.regs.fl = [r, s]) :
    op.refusal a b m
      = if 7 < r.toNat then some (.register ⟨r⟩)
        else if 7 < s.toNat then some (.register ⟨s⟩) else op.ownRefusal a b m := by
  rw [refusal, hl]
  by_cases hr : 7 < r.toNat
  · rw [if_pos hr, List.find?_cons_of_pos (by simpa using hr)]
  rw [if_neg hr, List.find?_cons_of_neg (by simpa using hr)]
  by_cases hs : 7 < s.toNat
  · rw [if_pos hs, List.find?_cons_of_pos (by simpa using hs)]
  · rw [if_neg hs, List.find?_cons_of_neg (by simpa using hs)]
    rfl

/-- One check of an action beside the same check of the table: if it does not fail, what is refused
is refused further on. -/
theorem error_of_check {c c' : Prop} [Decidable c] [Decidable c'] {g : Fault} {own : Option Fault}
    {rest : EStateM.Result Fault Machine (Option Output)} (hc' : c' ↔ c)
    (h : (if c then some g else own) = some f) (hrest : own = some f → rest = .error f m) :
    (if c' then .error g m else rest) = .error f m := by
  by_cases hc : c
  · rw [if_pos hc] at h
    rw [if_pos (hc'.mpr hc), Option.some.inj h]
  · rw [if_neg hc] at h
    rw [if_neg (mt hc'.mp hc), hrest h]

/-- A check of the table that refuses nothing does not hold. -/
theorem not_of_check {c : Prop} [Decidable c] {g : Fault}
    (h : (if c then some g else none) = none) : ¬ c := by
  intro hc
  rw [if_pos hc] at h
  cases h

/-- The two divisions refuse a zero once both their registers are known to be registers. -/
theorem refused_division {o : AluOp} (hact : op.action = .alu o) (ho : o = .div ∨ o = .mod)
    (hl : op.registerOperands a b m.regs.fl = [a, b])
    (hown : op.ownRefusal a b m
      = if m.regs.get (named b) = 0 then some (.alu .divisionByZero) else none)
    (h : op.refusal a b m = some f) : (op.action.execute a b).run m = .error f m := by
  have hbin : o.isBinary = true := by rcases ho with rfl | rfl <;> rfl
  rw [refusal_of_two hl, hown] at h
  rw [hact, Action.run_alu, hbin, if_pos rfl]
  refine error_of_check .rfl h fun h => error_of_check (and_iff_right rfl) h fun h => ?_
  by_cases hy : m.regs.get (named b) = 0
  · rw [if_pos hy] at h
    rw [hy, AluOp.apply_zero ho, ← Option.some.inj h]
  · rw [if_neg hy] at h
    cases h

/-- A conditional jump refuses only if it is taken. -/
theorem refused_jump {c : Condition} (hact : op.action = .jumpIf c)
    (hl : op.registerOperands a b m.regs.fl = if op.takes m.regs.fl then [a] else [])
    (hown : op.ownRefusal a b m = none) (hc : c.holds m.regs.fl = op.takes m.regs.fl)
    (h : op.refusal a b m = some f) : (op.action.execute a b).run m = .error f m := by
  rw [hact, Action.run_jumpIf, hc]
  cases ht : op.takes m.regs.fl with
  | false =>
    -- a jump that is not taken does not look at its operand, so it has nothing to refuse
    rw [refusal, hl, ht, if_neg Bool.false_ne_true, List.find?_nil, hown] at h
    cases h
  | true =>
    rw [ht, if_pos rfl] at hl
    rw [refusal_of_one hl, hown] at h
    exact error_of_check .rfl h fun h => by cases h

/-- **A refusal leaves no trace**: the action faults as the table says, with the machine as it
was. -/
theorem execute_refused (h : op.refusal a b m = some f) :
    (op.action.execute a b).run m = .error f m := by
  cases op
  case nop | hlt | ret | iret | jmp => cases h
  case ldi =>
    rw [refusal_of_one rfl] at h
    exact (Action.run_loadImmediate a b m).trans (error_of_check .rfl h nofun)
  case ld =>
    rw [refusal_of_two rfl] at h
    exact (Action.run_load a b m).trans (error_of_check .rfl h fun h => error_of_check .rfl h nofun)
  case st =>
    rw [refusal_of_two rfl] at h
    exact (Action.run_store a b m).trans (error_of_check .rfl h fun h => error_of_check .rfl h nofun)
  case push =>
    rw [refusal_of_one rfl] at h
    exact (Action.run_push a b m).trans (error_of_check .rfl h nofun)
  case pop =>
    rw [refusal_of_one rfl] at h
    exact (Action.run_pop a b m).trans (error_of_check .rfl h nofun)
  case prn =>
    rw [refusal_of_one rfl] at h
    exact (Action.run_printNumber a b m).trans (error_of_check .rfl h nofun)
  case pra =>
    rw [refusal_of_one rfl] at h
    exact (Action.run_printChar a b m).trans (error_of_check .rfl h nofun)
  case call =>
    rw [refusal_of_one rfl] at h
    exact (Action.run_call a b m).trans (error_of_check .rfl h fun h => error_of_check .rfl h nofun)
  case int =>
    rw [refusal_of_one rfl] at h
    exact (Action.run_raise a b m).trans (error_of_check .rfl h fun h => error_of_check .rfl h nofun)
  case jeq | jne | jgt | jlt | jle | jge =>
    exact refused_jump rfl rfl rfl rfl h
  case inc | dec | not =>
    rw [refusal_of_one rfl] at h
    exact (Action.run_alu a b m _).trans (error_of_check .rfl h nofun)
  case div => exact refused_division rfl (.inl rfl) rfl rfl h
  case mod => exact refused_division rfl (.inr rfl) rfl rfl h
  case add | sub | mul | cmp | and | or | xor | shl | shr =>
    rw [refusal_of_two rfl] at h
    refine (Action.run_alu a b m _).trans (error_of_check .rfl h fun h => ?_)
    exact error_of_check (and_iff_right rfl) h nofun

end Refused

/-! ## What is granted is the table -/

section Granted

variable {op : Opcode} {a b : UInt8} {m : Machine}

open Effect

theorem getD_pop (i j : RegisterIndex) (v w x : UInt8) :
    (if i = j then some v else only stackPointer w j).getD x
      = if i = j then v else if stackPointer = j then w else x := by
  by_cases h : i = j
  · rw [if_pos h, if_pos h]
    rfl
  · rw [if_neg h, if_neg h, getD_only]

/-- Below eight, the shift by which an interrupt is raised loses nothing. -/
theorem raised_bit {x : UInt8} (hx : ¬ 7 < x.toNat) : 1 <<< x = UInt8.ofNat (2 ^ x.toNat) := by
  have hlt : x < 8 := UInt8.lt_iff_toNat_lt.mpr (show x.toNat < 8 by omega)
  have h := AluOp.shl_eq 1 x
  rwa [if_pos hlt, UInt8.toNat_one, one_mul] at h

/-- Nine pops in a row, read as one row of the table. -/
theorem finish_iret (m : Machine) :
    finish .iret (let popped := Machine.popInto savedRegisters.reverse m
        (popped.pop.2.pop.2.jump popped.pop.2.pop.1).leaveHandler (Flags.ofByte popped.pop.1))
      = (effect .iret a b m).apply 0 m := by
  have hsp : (Machine.popInto savedRegisters.reverse m).regs.sp = m.regs.sp + 7 :=
    Machine.popInto_sp m _ (by decide)
  have hget : ∀ i, i ≠ stackPointer → (Machine.popInto savedRegisters.reverse m).regs.get i
      = m.mem.cell (m.regs.sp + UInt8.ofNat (6 - i.val)) := by
    intro i hi
    have hpos : ∀ i : RegisterIndex, i ≠ stackPointer →
        savedRegisters.reverse[6 - i.val]? = some i := by decide
    exact Machine.popInto_get m _ (by decide) (by decide) (hpos i hi)
  obtain ⟨gp, mdr, hpop⟩ := Machine.popInto_eq m savedRegisters.reverse
  rw [hpop] at hsp hget ⊢
  -- `p` has popped the registers; the flags and the way back are still on its stack
  set p : Machine := { m with regs := { m.regs with gp }, mem := { m.mem with mdr } }
  have hsp1 : p.pop.2.regs.sp = m.regs.sp + 8 := by
    rw [Machine.pop_sp, hsp, add_assoc]
    rfl
  refine eq_apply ?_ (fun _ => rfl) ?_
  · intro i
    show p.pop.2.pop.2.regs.get i = if i = stackPointer then m.regs.sp + 9 else _
    by_cases hi : i = stackPointer
    · rw [if_pos hi, hi]
      show p.pop.2.pop.2.regs.sp = _
      rw [Machine.pop_sp, hsp1, add_assoc]
      rfl
    · rw [if_neg hi, Machine.pop_get _ hi, Machine.pop_get _ hi, hget i hi]
      rfl
  · show ((m.mem.cell p.pop.2.regs.sp).toNat, _, Flags.ofByte (m.mem.cell p.regs.sp), _,
      m.mem.cell p.pop.2.regs.sp, _) = _
    rw [hsp1, hsp]
    rfl

/-- An instruction that computes a value writes it to its first register and nowhere else. -/
theorem granted_value {o : AluOp} (hact : op.action = .alu o) (hcmp : op ≠ .cmp)
    (heff : op.effect a b m =
      { registers := only (named a) (UInt8.ofNat
          (op.arith (m.regs.get (named a)).toNat (m.regs.get (named b)).toNat)) })
    (ha : ¬ 7 < a.toNat) (hb : o.isBinary → ¬ 7 < b.toNat)
    (hy : op = .div ∨ op = .mod → m.regs.get (named b) ≠ 0)
    (hplace : placesCounter op.byte = false) :
    ∃ m', (op.action.execute a b).run m = .ok (op.effect a b m).output m'
      ∧ op.finish m' = (op.effect a b m).apply op.declaredArity m := by
  refine ⟨_, (Action.run_value hact hcmp ha hb hy).trans (by rw [heff]), ?_⟩
  rw [heff, finish, hplace, if_neg Bool.false_ne_true, declaredArity_eq_arity]
  exact eq_apply (fun _ => get_set_only ..) (fun _ => rfl) rfl

/-- A conditional jump places the program counter, at its target or past its operand. -/
theorem granted_jump {c : Condition} (hact : op.action = .jumpIf c)
    (hl : op.registerOperands a b m.regs.fl = if op.takes m.regs.fl then [a] else [])
    (heff : op.effect a b m
      = { target := if op.takes m.regs.fl then some (m.regs.get (named a)) else none })
    (hc : c.holds m.regs.fl = op.takes m.regs.fl) (hplace : placesCounter op.byte = true)
    (harity : op.declaredArity = 1)
    (hreg : ∀ r ∈ op.registerOperands a b m.regs.fl, ¬ 7 < r.toNat) :
    ∃ m', (op.action.execute a b).run m = .ok (op.effect a b m).output m'
      ∧ op.finish m' = (op.effect a b m).apply op.declaredArity m := by
  have hfin : ∀ m', op.finish m' = m'.tally := by
    intro m'
    rw [finish, hplace, if_pos rfl]
  rw [hact, Action.run_jumpIf, hc, heff, harity]
  cases ht : op.takes m.regs.fl with
  | false => exact ⟨_, rfl, (hfin _).trans (eq_apply (fun _ => rfl) (fun _ => rfl) rfl)⟩
  | true =>
    have ha := hreg a (by rw [hl, ht]; exact .head _)
    exact ⟨_, if_neg ha, (hfin _).trans (eq_apply (fun _ => rfl) (fun _ => rfl) rfl)⟩

/-- **What is not refused is done**: the action gives the row's output, and the machine that it leaves
is, at the end of the cycle, the one that the row describes. -/
theorem execute_granted (h : op.refusal a b m = none) :
    ∃ m', (op.action.execute a b).run m = .ok (op.effect a b m).output m'
      ∧ op.finish m' = (op.effect a b m).apply op.declaredArity m := by
  obtain ⟨hreg, hown⟩ := refusal_eq_none_iff.mp h
  cases op
  case nop => exact ⟨m, rfl, eq_apply (fun _ => rfl) (fun _ => rfl) rfl⟩
  case hlt => exact ⟨{ m with phase := .halted }, rfl, eq_apply (fun _ => rfl) (fun _ => rfl) rfl⟩
  case ldi =>
    have ha := hreg a (.head _)
    exact ⟨_, (Action.run_loadImmediate a b m).trans (if_neg ha),
      eq_apply (fun _ => get_set_only ..) (fun _ => rfl) rfl⟩
  case ld =>
    have hb := hreg b (.head _)
    have ha := hreg a (.tail _ (.head _))
    refine ⟨_, (Action.run_load a b m).trans ((if_neg hb).trans (if_neg ha)), ?_⟩
    exact eq_apply (fun _ => get_set_only ..) (fun _ => rfl) rfl
  case st =>
    have ha := hreg a (.head _)
    have hb := hreg b (.tail _ (.head _))
    refine ⟨_, (Action.run_store a b m).trans ((if_neg ha).trans (if_neg hb)), ?_⟩
    exact eq_apply (fun _ => rfl) (fun _ => Memory.cell_setCell ..) rfl
  case push =>
    have ha := hreg a (.head _)
    refine ⟨_, (Action.run_push a b m).trans (if_neg ha), ?_⟩
    exact eq_apply (fun _ => get_set_only ..) (fun _ => Memory.cell_setCell ..) rfl
  case pop =>
    have ha := hreg a (.head _)
    refine ⟨_, (Action.run_pop a b m).trans (if_neg ha), ?_⟩
    -- if the two are one register, the popped value wins over the new stack pointer
    exact eq_apply (fun _ => (Machine.popOne_get ..).trans (getD_pop ..).symm) (fun _ => rfl) rfl
  case prn =>
    have ha := hreg a (.head _)
    exact ⟨m, (Action.run_printNumber a b m).trans (if_neg ha), eq_apply (fun _ => rfl) (fun _ => rfl) rfl⟩
  case pra =>
    have ha := hreg a (.head _)
    exact ⟨m, (Action.run_printChar a b m).trans (if_neg ha), eq_apply (fun _ => rfl) (fun _ => rfl) rfl⟩
  case call =>
    have ha := hreg a (.head _)
    have hback : ¬ 255 < m.regs.pc + 2 := not_of_check hown
    refine ⟨_, (Action.run_call a b m).trans ((if_neg ha).trans (if_neg hback)), ?_⟩
    exact eq_apply (fun _ => get_set_only ..) (fun _ => Memory.cell_setCell ..) rfl
  case ret =>
    refine ⟨_, Action.run_ret a b m, ?_⟩
    exact eq_apply (fun _ => get_set_only ..) (fun _ => rfl) rfl
  case int =>
    have ha := hreg a (.head _)
    have hlow : ¬ 7 < (m.regs.get (named a)).toNat := not_of_check hown
    refine ⟨_, (Action.run_raise a b m).trans ((if_neg ha).trans (if_neg hlow)), ?_⟩
    rw [raised_bit hlow]
    exact eq_apply (fun _ => get_set_only ..) (fun _ => rfl) rfl
  case iret =>
    exact ⟨_, Action.run_returnFromInterrupt a b m, finish_iret m⟩
  case jmp => exact ⟨_, Action.run_jump a b m, eq_apply (fun _ => rfl) (fun _ => rfl) rfl⟩
  case inc | dec | not =>
    have ha := hreg a (.head _)
    exact granted_value rfl (by decide) rfl ha nofun (by rintro (h | h) <;> cases h) rfl
  case add | sub | mul | and | or | xor | shl | shr =>
    have ha := hreg a (.head _)
    have hb := hreg b (.tail _ (.head _))
    exact granted_value rfl (by decide) rfl ha (fun _ => hb) (by rintro (h | h) <;> cases h) rfl
  case div | mod =>
    have ha := hreg a (.head _)
    have hb := hreg b (.tail _ (.head _))
    have hy : m.regs.get (named b) ≠ 0 := not_of_check hown
    exact granted_value rfl (by decide) rfl ha (fun _ => hb) (fun _ => hy) rfl
  case cmp =>
    have ha := hreg a (.head _)
    have hb := hreg b (.tail _ (.head _))
    exact ⟨_, Action.run_cmp ha hb, eq_apply (fun _ => rfl) (fun _ => rfl) rfl⟩
  case jeq | jne | jgt | jlt | jle | jge => exact granted_jump rfl rfl rfl rfl rfl rfl hreg

end Granted

end Opcode

/-! ## A cycle's instruction -/

namespace Machine

variable {op : Opcode} {a b : UInt8} {m : Machine} (pc : Nat)

theorem perform_refused {f : Fault} (h : op.refusal a b m = some f) :
    m.perform ⟨pc, op, op.action, a, b⟩ = (.error f, m) := by
  simp only [perform, Opcode.execute_refused h]

theorem perform_granted (h : op.refusal a b m = none) :
    m.perform ⟨pc, op, op.action, a, b⟩
      = (.ok (.executed pc op (op.effect a b m).output),
        (op.effect a b m).apply op.declaredArity m) := by
  obtain ⟨m', hrun, hfin⟩ := Opcode.execute_granted h
  simp only [perform, hrun, ← hfin]
  rfl

end Machine

end EightBit
