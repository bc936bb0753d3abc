/-
# EightBit.Proofs.Action -- each action in closed form

An action is a program in a monad that keeps the machine when it faults. Run on a machine it is a
chain of checks with one update at the end; the lemmas here say so, one for each action, and later
proofs open no action again. In each chain a check that fails leaves the machine `m` it was handed:
no write stands before a check.
-/
import EightBit.Proofs.Arithmetic

namespace EightBit

open RegisterIndex (named)

/-! ## The steps of an action -/

namespace Exec

variable {α : Type} (r : UInt8) (m : Machine)

/-- Naming a register is a check and nothing else. -/
theorem run_register :
    (register r).run m = if 7 < r.toNat then .error (.register ⟨r⟩) m else .ok (named r) m := by
  rw [register, RegisterIndex.ofByte]
  by_cases h : r.toNat < 8
  · have hi : (⟨r.toNat, h⟩ : RegisterIndex) = named r := Fin.ext (Nat.mod_eq_of_lt h).symm
    rw [dif_pos h, if_neg (by omega), hi]
    rfl
  · rw [dif_neg h, if_pos (by omega)]
    rfl

theorem run_register_bind (k : RegisterIndex → Exec α) :
    (register r >>= k).run m
      = if 7 < r.toNat then .error (.register ⟨r⟩) m else (k (named r)).run m := by
  rw [EStateM.run_bind, run_register]
  by_cases h : 7 < r.toNat
  · rw [if_pos h, if_pos h]
  · rw [if_neg h, if_neg h]

theorem run_readRegister_bind (k : UInt8 → Exec α) :
    (readRegister r >>= k).run m
      = if 7 < r.toNat then .error (.register ⟨r⟩) m
        else (k (m.regs.get (named r))).run m := by
  rw [readRegister, bind_assoc, run_register_bind]
  rfl

theorem run_writeRegister_bind (v : UInt8) (k : Unit → Exec α) :
    (writeRegister r v >>= k).run m
      = if 7 < r.toNat then .error (.register ⟨r⟩) m
        else (k ()).run (m.setRegister (named r) v) := by
  rw [writeRegister, bind_assoc, run_register_bind]
  rfl

/-- Running the arithmetic unit writes nothing unless both registers exist and the unit gives an
output. -/
theorem run_runAlu (op : AluOp) (a b : UInt8) :
    (runAlu op a b).run m
      = if 7 < a.toNat then .error (.register ⟨a⟩) m
        else if op.isBinary ∧ 7 < b.toNat then .error (.register ⟨b⟩) m
        else match op.apply (m.regs.get (named a))
            (if op.isBinary then m.regs.get (named b) else 0) with
          | .error cause => .error (.alu cause) m
          | .ok (.value v) => .ok () (m.setRegister (named a) v)
          | .ok (.flags fl) => .ok () { m with regs := { m.regs with fl } } := by
  rw [runAlu, run_register_bind, EStateM.run_bind, EStateM.run_get]
  cases hop : op.isBinary with
  | false =>
    simp only [Bool.false_eq_true, if_false, false_and, pure_bind]
    cases op.apply (m.regs.get (named a)) 0 with
    | error cause => rfl
    | ok out => cases out <;> rfl
  | true =>
    simp only [if_true, true_and]
    rw [run_readRegister_bind]
    cases op.apply (m.regs.get (named a)) (m.regs.get (named b)) with
    | error cause => rfl
    | ok out => cases out <;> rfl

end Exec

/-! ## Popping registers -/

namespace Machine

/-- The machine after popping the registers of a list in turn. -/
def popInto : List RegisterIndex → Machine → Machine
  | [], m => m
  | i :: is, m => popInto is (m.pop.2.setRegister i m.pop.1)

theorem run_popRegisters (is : List RegisterIndex) (m : Machine) :
    (Exec.popRegisters is).run m = .ok () (popInto is m) := by
  induction is generalizing m with
  | nil => rfl
  | cons i is ih => exact ih (m.pop.2.setRegister i m.pop.1)

variable (m : Machine)

theorem popOne_cell (i : RegisterIndex) (v a : UInt8) :
    (m.pop.2.setRegister i v).mem.cell a = m.mem.cell a := rfl

theorem popOne_get (i j : RegisterIndex) (v : UInt8) :
    (m.pop.2.setRegister i v).regs.get j
      = if i = j then v else if stackPointer = j then m.regs.sp + 1 else m.regs.get j := by
  show ((m.regs.setSp (m.regs.sp + 1)).set i v).get j = _
  rw [Registers.get_set, Registers.setSp, Registers.get_set]

/-- Popping a register moves the stack pointer up by one, if it is not the stack pointer that is
popped. -/
theorem popOne_sp {i : RegisterIndex} (hi : stackPointer ≠ i) (v : UInt8) :
    (m.pop.2.setRegister i v).regs.sp = m.regs.sp + 1 := by
  rw [Registers.sp, popOne_get, if_neg hi.symm, if_pos rfl]

/-- A register that is not popped keeps its value, the stack pointer apart. -/
theorem popInto_get_of_notMem (is : List RegisterIndex) {j : RegisterIndex} (hj : j ∉ is)
    (hsp : j ≠ stackPointer) : (popInto is m).regs.get j = m.regs.get j := by
  induction is generalizing m with
  | nil => rfl
  | cons i is ih =>
    rw [List.mem_cons, not_or] at hj
    rw [popInto, ih _ hj.2, popOne_get, if_neg (Ne.symm hj.1), if_neg hsp.symm]

theorem popInto_sp (is : List RegisterIndex) (hsp : stackPointer ∉ is) :
    (popInto is m).regs.sp = m.regs.sp + UInt8.ofNat is.length := by
  induction is generalizing m with
  | nil => exact (add_zero _).symm
  | cons i is ih =>
    rw [List.mem_cons, not_or] at hsp
    rw [popInto, ih _ hsp.2, popOne_sp m hsp.1, List.length_cons, UInt8.ofNat_add, add_assoc,
      add_comm (UInt8.ofNat is.length)]
    rfl

/-- **What popping gives.** The `k`-th register of the list gets the byte `k` above the stack
pointer, if no register is popped twice. -/
theorem popInto_get (is : List RegisterIndex) (hsp : stackPointer ∉ is) (hnd : is.Nodup) {k : Nat}
    {i : RegisterIndex} (hk : is[k]? = some i) :
    (popInto is m).regs.get i = m.mem.cell (m.regs.sp + UInt8.ofNat k) := by
  induction is generalizing m k with
  | nil => cases hk
  | cons j is ih =>
    rw [List.mem_cons, not_or] at hsp
    rw [List.nodup_cons] at hnd
    cases k with
    | zero =>
      -- later pops are of other registers and do not touch this one again
      obtain rfl : j = i := Option.some.inj hk
      rw [popInto, popInto_get_of_notMem _ is hnd.1 (Ne.symm hsp.1), popOne_get, if_pos rfl]
      exact congrArg m.mem.cell (add_zero _).symm
    | succ k =>
      rw [popInto, ih _ hsp.2 hnd.2 hk, popOne_cell, popOne_sp m hsp.1, UInt8.ofNat_add, add_assoc,
        add_comm (UInt8.ofNat k)]
      rfl

/-- Popping registers changes registers and the latch alone. -/
theorem popInto_eq (is : List RegisterIndex) :
    ∃ gp mdr, popInto is m
      = { m with regs := { m.regs with gp }, mem := { m.mem with mdr } } := by
  induction is generalizing m with
  | nil => exact ⟨m.regs.gp, m.mem.mdr, rfl⟩
  | cons i is ih =>
    obtain ⟨gp, mdr, h⟩ := ih (m.pop.2.setRegister i m.pop.1)
    exact ⟨gp, mdr, h⟩

end Machine

/-! ## The actions -/

namespace Action

variable (a b : UInt8) (m : Machine)

theorem run_loadImmediate :
    (loadImmediate.execute a b).run m
      = if 7 < a.toNat then .error (.register ⟨a⟩) m else .ok none (m.setRegister (named a) b) :=
  Exec.run_writeRegister_bind ..

theorem run_load :
    (load.execute a b).run m
      = if 7 < b.toNat then .error (.register ⟨b⟩) m
        else if 7 < a.toNat then .error (.register ⟨a⟩) m
        else .ok none ({ m with mem := m.mem.latch (m.regs.get (named b)) }.setRegister (named a)
          (m.mem.cell (m.regs.get (named b)))) := by
  show (Exec.readRegister b >>= _).run m = _
  rw [Exec.run_readRegister_bind, Exec.run_register_bind]
  rfl

theorem run_store :
    (store.execute a b).run m
      = if 7 < a.toNat then .error (.register ⟨a⟩) m
        else if 7 < b.toNat then .error (.register ⟨b⟩) m
        else .ok none { m with
          mem := m.mem.setCell (m.regs.get (named a)) (m.regs.get (named b)) } := by
  show (Exec.readRegister a >>= _).run m = _
  rw [Exec.run_readRegister_bind, Exec.run_readRegister_bind]
  rfl

theorem run_push :
    (push.execute a b).run m
      = if 7 < a.toNat then .error (.register ⟨a⟩) m
        else .ok none (m.push (m.regs.get (named a))) :=
  Exec.run_readRegister_bind ..

theorem run_pop :
    (pop.execute a b).run m
      = if 7 < a.toNat then .error (.register ⟨a⟩) m
        else .ok none (m.pop.2.setRegister (named a) m.pop.1) :=
  Exec.run_register_bind ..

theorem run_printNumber :
    (printNumber.execute a b).run m
      = if 7 < a.toNat then .error (.register ⟨a⟩) m
        else .ok (some (.number (m.regs.get (named a)))) m :=
  Exec.run_readRegister_bind ..

theorem run_printChar :
    (printChar.execute a b).run m
      = if 7 < a.toNat then .error (.register ⟨a⟩) m
        else .ok (some (.char (m.regs.get (named a)))) m :=
  Exec.run_readRegister_bind ..

theorem run_call :
    (call.execute a b).run m
      = if 7 < a.toNat then .error (.register ⟨a⟩) m
        else if 255 < m.regs.pc + 2 then .error (.memory ⟨m.regs.pc + 2⟩) m
        else .ok none ((m.push (UInt8.ofNat (m.regs.pc + 2))).jump (m.regs.get (named a))) := by
  show (Exec.readRegister a >>= _).run m = _
  rw [Exec.run_readRegister_bind]
  by_cases h : m.regs.pc + 2 < 256
  · rw [if_neg (show ¬ 255 < m.regs.pc + 2 by omega), EStateM.run_bind, EStateM.run_get]
    simp only [if_pos h]
    rfl
  · rw [if_pos (show 255 < m.regs.pc + 2 by omega), EStateM.run_bind, EStateM.run_get]
    simp only [if_neg h]
    rfl

theorem run_ret :
    (ret.execute a b).run m = .ok none (m.pop.2.jump m.pop.1) := rfl

theorem run_raise :
    (raise.execute a b).run m
      = if 7 < a.toNat then .error (.register ⟨a⟩) m
        else if 7 < (m.regs.get (named a)).toNat then
          .error (.invalidInterrupt (m.regs.get (named a))) m
        else .ok none ((m.setRegister interruptStatus
          (m.regs.get interruptStatus ||| 1 <<< m.regs.get (named a))).advance 1) := by
  show (Exec.readRegister a >>= _).run m = _
  rw [Exec.run_readRegister_bind]
  by_cases h : (m.regs.get (named a)).toNat < 8
  · rw [if_neg (show ¬ 7 < (m.regs.get (named a)).toNat by omega), if_pos h]
    rfl
  · rw [if_pos (show 7 < (m.regs.get (named a)).toNat by omega), if_neg h]
    rfl

theorem run_jump : (jump.execute a b).run m = .ok none (m.jump a) := rfl

theorem run_jumpIf (c : Condition) :
    ((jumpIf c).execute a b).run m
      = if c.holds m.regs.fl then
          if 7 < a.toNat then .error (.register ⟨a⟩) m
          else .ok none (m.jump (m.regs.get (named a)))
        else .ok none (m.advance 1) := by
  show (get >>= _ : Exec _).run m = _
  rw [EStateM.run_bind, EStateM.run_get]
  by_cases h : c.holds m.regs.fl
  · simp only [if_pos h]
    rw [Exec.run_readRegister_bind]
    rfl
  · simp only [if_neg h]
    rfl

/-- The return from an interrupt pops nine bytes and faults on none of them. -/
theorem run_returnFromInterrupt :
    (returnFromInterrupt.execute a b).run m
      = .ok none (let popped := Machine.popInto savedRegisters.reverse m
          (popped.pop.2.pop.2.jump popped.pop.2.pop.1).leaveHandler
            (Flags.ofByte popped.pop.1)) := by
  show (Exec.popRegisters savedRegisters.reverse >>= _).run m = _
  rw [EStateM.run_bind, Machine.run_popRegisters]
  rfl

theorem run_alu (op : AluOp) :
    ((alu op).execute a b).run m
      = if 7 < a.toNat then .error (.register ⟨a⟩) m
        else if op.isBinary ∧ 7 < b.toNat then .error (.register ⟨b⟩) m
        else match op.apply (m.regs.get (named a))
            (if op.isBinary then m.regs.get (named b) else 0) with
          | .error cause => .error (.alu cause) m
          | .ok (.value v) => .ok none (m.setRegister (named a) v)
          | .ok (.flags fl) => .ok none { m with regs := { m.regs with fl } } := by
  show (Exec.runAlu op a b >>= _).run m = _
  rw [EStateM.run_bind, Exec.run_runAlu]
  by_cases ha : 7 < a.toNat
  · rw [if_pos ha, if_pos ha]
  rw [if_neg ha, if_neg ha]
  by_cases hb : op.isBinary ∧ 7 < b.toNat
  · rw [if_pos hb, if_pos hb]
  rw [if_neg hb, if_neg hb]
  cases op.apply (m.regs.get (named a)) (if op.isBinary then m.regs.get (named b) else 0) with
  | error cause => rfl
  | ok out => cases out <;> rfl

variable {a b m} in
/-- An instruction that computes a value writes the table's value to its first register. -/
theorem run_value {op : Opcode} {o : AluOp} (hop : op.action = .alu o) (hcmp : op ≠ .cmp)
    (ha : ¬ 7 < a.toNat) (hb : o.isBinary → ¬ 7 < b.toNat)
    (hy : op = .div ∨ op = .mod → m.regs.get (named b) ≠ 0) :
    (op.action.execute a b).run m = .ok none (m.setRegister (named a)
      (UInt8.ofNat (op.arith (m.regs.get (named a)).toNat (m.regs.get (named b)).toNat))) := by
  rw [hop, run_alu, if_neg ha, if_neg fun h => hb h.1 h.2, AluOp.apply_eq_arith hop hcmp _ _ hy]

variable {a b m} in
theorem run_cmp (ha : ¬ 7 < a.toNat) (hb : ¬ 7 < b.toNat) :
    ((alu .cmp).execute a b).run m = .ok none { m with regs := { m.regs with
      fl := ⟨(m.regs.get (named a)).toNat = (m.regs.get (named b)).toNat,
        (m.regs.get (named b)).toNat < (m.regs.get (named a)).toNat,
        (m.regs.get (named a)).toNat < (m.regs.get (named b)).toNat⟩ } } := by
  rw [run_alu, if_neg ha, if_neg fun h => hb h.2, show AluOp.cmp.isBinary = true from rfl,
    if_pos rfl, AluOp.apply_cmp]

end Action

end EightBit
