/-
# EightBit.Proofs.Brackets -- the stack of a bracketed run

`PUSH` and `POP`, and `CALL` and `RET`, are brackets of two kinds. `Machine.opened` reads a run as a
string of them: it lists the steps whose brackets are open, and exists as long as every `POP` and every
`RET` finds its own partner open innermost. Everything else that a run does is left free.

If the stack pointer moves by the brackets alone and no `ST` overwrites an outstanding byte, the stack
is this list: the pointer is as far below where it began as the list is long, and each open step's byte
is still where the step put it. Distances are taken on bytes, so that the stack may go below address
zero, and even all the way round: the list may grow to 256, and not further.
-/
import EightBit.Proofs.Steps

namespace EightBit

open RegisterIndex (named)

/-! ## Brackets -/

/-- What an instruction is in a run that is read as a string of brackets. -/
inductive Bracket
  | neutral
  /-- It leaves a byte on the stack. -/
  | opening
  /-- It takes back the byte that an instruction `partner` has left. -/
  | closing (partner : Opcode)
deriving DecidableEq, Repr

/-- Where a bracket leaves the stack pointer. -/
def Bracket.move : Bracket → UInt8 → UInt8
  | .neutral, sp => sp
  | .opening, sp => sp - 1
  | .closing _, sp => sp + 1

namespace Opcode

def bracket : Opcode → Bracket
  | .push | .call => .opening
  | .pop => .closing .push
  | .ret => .closing .call
  | _ => .neutral

theorem bracket_opening {op : Opcode} (h : op.bracket = .opening) : op = .push ∨ op = .call := by
  cases op
  case push => exact .inl rfl
  case call => exact .inr rfl
  all_goals cases h

/-- The stack pointer is moved by the brackets alone. -/
theorem effect_sp {op : Opcode} {a : UInt8} (hdest : op.destination? a ≠ some stackPointer)
    (hret : op ≠ .iret) (b : UInt8) (m : Machine) :
    ((op.effect a b m).registers stackPointer).getD m.regs.sp = op.bracket.move m.regs.sp := by
  cases op
  case push | call | ret => rfl
  case pop =>
    have hnamed : named a ≠ stackPointer := fun h => hdest (congrArg some h)
    show (if named a = stackPointer then _ else _ : Option UInt8).getD _ = _
    rw [if_neg hnamed]
    rfl
  case iret => exact absurd rfl hret
  all_goals
    rw [effect_registers_eq_none hdest (by decide)]
    rfl

/-- Only `ST` and the opening brackets store a byte. -/
theorem effect_store_eq_none {op : Opcode} (hopen : op.bracket ≠ .opening) (hst : op ≠ .st)
    (a b : UInt8) (m : Machine) : (op.effect a b m).store = none := by
  cases op
  case push | call => exact absurd rfl hopen
  case st => exact absurd rfl hst
  all_goals rfl

end Opcode

namespace Machine

/-- The bracket that the step at `m` is. A step that executes no instruction is neutral. -/
def bracket (m : Machine) : Bracket := m.executed?.elim .neutral Opcode.bracket

variable {m : Machine}

theorem bracket_of_executed {op : Opcode} (h : m.executed? = some op) : m.bracket = op.bracket := by
  rw [bracket, h, Option.elim_some]

theorem executed_of_opening (h : m.bracket = .opening) :
    m.executed? = some .push ∨ m.executed? = some .call := by
  cases hop : m.executed? with
  | none =>
    rw [bracket, hop] at h
    cases h
  | some op =>
    rw [bracket_of_executed hop] at h
    exact (Opcode.bracket_opening h).imp (congrArg some) (congrArg some)

theorem step_sp (hd : m.delivered? = none) (hdest : m.destination? ≠ some stackPointer)
    (hret : m.executed? ≠ some .iret) : m.step.2.regs.sp = m.bracket.move m.regs.sp := by
  cases hop : m.executed? with
  | none =>
    rw [Registers.sp, (kept_of_not_executed hop).register, start_of_none hd, bracket, hop]
    rfl
  | some op =>
    obtain ⟨-, -, -, hstep⟩ := step_of_executed hop
    rw [destination?, hop, Option.bind_some, start_of_none hd] at hdest
    rw [Registers.sp, hstep, Effect.apply_get, start_of_none hd, bracket_of_executed hop]
    exact Opcode.effect_sp hdest (fun h => hret (hop.trans (congrArg some h))) _ m

/-! ## What brackets store -/

theorem stored_of_push (hd : m.delivered? = none) (hop : m.executed? = some .push) :
    m.stored? = some (m.regs.sp - 1, m.regs.get (named (m.operand 1))) := by
  rw [stored?, hop, start_of_none hd]
  rfl

theorem stored_of_call (hd : m.delivered? = none) (hop : m.executed? = some .call) :
    m.stored? = some (m.regs.sp - 1, UInt8.ofNat (m.regs.pc + 2)) := by
  rw [stored?, hop, start_of_none hd]
  rfl

/-- An opening bracket stores its byte just below the stack pointer. -/
theorem stored_of_opening (hd : m.delivered? = none) (h : m.bracket = .opening) :
    ∃ v, m.stored? = some (m.regs.sp - 1, v) := by
  obtain hpush | hcall := executed_of_opening h
  · exact ⟨_, stored_of_push hd hpush⟩
  · exact ⟨_, stored_of_call hd hcall⟩

/-- What stores a byte and is no opening bracket is an `ST`. -/
theorem executed_of_stored {w : UInt8 × UInt8} (h : m.stored? = some w)
    (hopen : m.bracket ≠ .opening) : m.executed? = some .st := by
  cases hop : m.executed? with
  | none =>
    rw [stored?, hop] at h
    cases h
  | some op =>
    by_contra hst
    rw [bracket_of_executed hop] at hopen
    rw [stored?, hop, Option.bind_some, effectOf,
      Opcode.effect_store_eq_none hopen fun h => hst (congrArg some h)] at h
    cases h

theorem stored_of_closing {partner : Opcode} (h : m.bracket = .closing partner) :
    m.stored? = none := by
  cases hw : m.stored? with
  | none => rfl
  | some w =>
    rw [bracket_of_executed (executed_of_stored hw (by rw [h]; nofun))] at h
    cases h

/-! ## What closing brackets read -/

theorem step_pop (hd : m.delivered? = none) (hop : m.executed? = some .pop) :
    m.step.2.regs.get (named (m.operand 1)) = m.mem.cell m.regs.sp := by
  obtain ⟨-, -, -, hstep⟩ := step_of_executed hop
  rw [hstep, Effect.apply_get, start_of_none hd]
  show (if named (m.operand 1) = named (m.operand 1) then _ else _ : Option UInt8).getD _ = _
  rw [if_pos rfl]
  rfl

theorem step_ret (hd : m.delivered? = none) (hop : m.executed? = some .ret) :
    m.step.2.regs.pc = (m.mem.cell m.regs.sp).toNat := by
  obtain ⟨-, -, -, hstep⟩ := step_of_executed hop
  rw [hstep, start_of_none hd]
  rfl

theorem pc_le_of_call (hd : m.delivered? = none) (hop : m.executed? = some .call) :
    m.regs.pc + 2 ≤ 255 := by
  obtain ⟨-, hgranted, hcode, -⟩ := step_of_executed hop
  rw [start_of_none hd] at hgranted hcode
  exact pc_le_of_granted_call hcode hgranted

/-! ## Open brackets -/

/-- The steps before the `k`-th whose brackets are open then, the innermost first. There is no such
list once a closing bracket has not found its partner open innermost. -/
def opened (m : Machine) : Nat → Option (List Nat)
  | 0 => some []
  | k + 1 =>
    (m.opened k).bind fun o =>
      match (m.after k).bracket, o with
      | .neutral, o => some o
      | .opening, o => some (k :: o)
      | .closing partner, j :: o => if (m.after j).executed? = some partner then some o else none
      | .closing _, [] => none

/-- The three ways in which the `k`-th step can go on from the open brackets. -/
inductive Brackets (m : Machine) (k : Nat) : List Nat → List Nat → Prop
  | neutral {o : List Nat} (hb : (m.after k).bracket = .neutral) : Brackets m k o o
  | opening {o : List Nat} (hb : (m.after k).bracket = .opening) : Brackets m k o (k :: o)
  | closing {j : Nat} {o : List Nat} {partner : Opcode}
    (hb : (m.after k).bracket = .closing partner) (hj : (m.after j).executed? = some partner) :
    Brackets m k (j :: o) o

theorem opened_succ {k : Nat} {o' : List Nat} (h : m.opened (k + 1) = some o') :
    ∃ o, m.opened k = some o ∧ Brackets m k o o' := by
  obtain ⟨o, ho, hway⟩ := Option.bind_eq_some_iff.mp h
  refine ⟨o, ho, ?_⟩
  cases hb : (m.after k).bracket with
  | neutral =>
    rw [hb] at hway
    obtain rfl := Option.some.inj hway
    exact .neutral hb
  | opening =>
    rw [hb] at hway
    obtain rfl := Option.some.inj hway
    exact .opening hb
  | closing partner =>
    rw [hb] at hway
    cases o with
    | nil => cases hway
    | cons j o =>
      obtain ⟨hj, ho'⟩ := Option.ite_none_right_eq_some.mp hway
      obtain rfl := Option.some.inj ho'
      exact .closing hb hj

/-- The brackets of a run that are read at its end can be read at every point of it. -/
theorem exists_opened {n : Nat} {o : List Nat} (h : m.opened n = some o) {i : Nat} (hi : i ≤ n) :
    ∃ o', m.opened i = some o' := by
  induction n generalizing o with
  | zero =>
    obtain rfl := Nat.le_zero.mp hi
    exact ⟨o, h⟩
  | succ n ih =>
    rcases Nat.le_succ_iff.mp hi with hi | rfl
    · obtain ⟨o', ho', -⟩ := opened_succ h
      exact ih ho' hi
    · exact ⟨o, h⟩

/-- The innermost open step opened its bracket with those open that are still open around it. -/
theorem opened_head {k j : Nat} {o : List Nat} (h : m.opened k = some (j :: o)) :
    j < k ∧ (m.after j).bracket = .opening ∧ m.opened j = some o := by
  -- strong induction: behind a closing bracket stands the list that its partner has found
  induction k using Nat.strongRecOn generalizing j o with
  | ind k ih =>
    cases k with
    | zero => cases h
    | succ k =>
      obtain ⟨o', ho', hway⟩ := opened_succ h
      cases hway with
      | neutral =>
        obtain ⟨hj, hopening, ho⟩ := ih k (Nat.lt_succ_self k) ho'
        exact ⟨Nat.lt_succ_of_lt hj, hopening, ho⟩
      | opening hb => exact ⟨Nat.lt_succ_self _, hb, ho'⟩
      | @closing i =>
        obtain ⟨hi, -, hi'⟩ := ih k (Nat.lt_succ_self k) ho'
        obtain ⟨hj, hopening, ho⟩ := ih i (Nat.lt_succ_of_lt hi) hi'
        exact ⟨by omega, hopening, ho⟩

theorem opened_mem {k j : Nat} {o : List Nat} (h : m.opened k = some o) (hj : j ∈ o) :
    j < k ∧ (m.after j).bracket = .opening
      ∧ ∃ o', m.opened j = some o' ∧ o'.length < o.length := by
  induction o generalizing k with
  | nil => cases hj
  | cons i o ih =>
    obtain ⟨hi, hopening, ho⟩ := opened_head h
    cases hj with
    | head => exact ⟨hi, hopening, o, ho, Nat.lt_succ_self _⟩
    | tail _ hj =>
      obtain ⟨hji, hopening', o', ho', hlen⟩ := ih ho hj
      exact ⟨hji.trans hi, hopening', o', ho', Nat.lt_succ_of_lt hlen⟩

/-- Step `i` closes the bracket that step `j` has opened: it is the innermost that is open, and around
it the same are open before and after. -/
def Closes (m : Machine) (i j : Nat) : Prop :=
  ∃ o, m.opened i = some (j :: o) ∧ m.opened j = some o ∧ m.opened (i + 1) = some o

theorem closes_of_closing {i : Nat} {o : List Nat} {partner : Opcode}
    (h : m.opened (i + 1) = some o) (hb : (m.after i).bracket = .closing partner) :
    ∃ j < i, Closes m i j ∧ (m.after j).executed? = some partner := by
  obtain ⟨o', ho', hway⟩ := opened_succ h
  cases hway with
  | neutral hb' | opening hb' =>
    rw [hb'] at hb
    cases hb
  | closing hb' hj =>
    rw [hb'] at hb
    cases hb
    obtain ⟨hji, -, ho⟩ := opened_head ho'
    exact ⟨_, hji, ⟨o, ho', ho, h⟩, hj⟩

/-- A bracket that was opened is open from then on, or has been closed. -/
theorem mem_or_closes {j k : Nat} (hjk : j < k) (hb : (m.after j).bracket = .opening)
    {o : List Nat} (ho : m.opened k = some o) : j ∈ o ∨ ∃ i < k, Closes m i j := by
  induction k, hjk using Nat.le_induction generalizing o with
  | base =>
    obtain ⟨o', -, hway⟩ := opened_succ ho
    cases hway with
    | opening => exact .inl List.mem_cons_self
    | neutral hb' | closing hb' =>
      rw [hb'] at hb
      cases hb
  | succ k _ ih =>
    obtain ⟨o', ho', hway⟩ := opened_succ ho
    obtain hmem | ⟨i, hi, hcloses⟩ := ih ho'
    · cases hway with
      | neutral => exact .inl hmem
      | opening => exact .inl (List.mem_cons_of_mem _ hmem)
      | closing =>
        cases hmem with
        | head => exact .inr ⟨k, Nat.lt_succ_self k, o, ho', (opened_head ho').2.2, ho⟩
        | tail _ hmem => exact .inl hmem
    · exact .inr ⟨i, Nat.lt_succ_of_lt hi, hcloses⟩

/-- If nothing is open at the end, every bracket that was opened has been closed. -/
theorem closes_of_opening {n j : Nat} (h : m.opened n = some []) (hj : j < n)
    (hb : (m.after j).bracket = .opening) : ∃ i < n, Closes m i j :=
  (mem_or_closes hj hb h).resolve_left List.not_mem_nil

/-! ## Disciplined runs -/

/-- The first `n` steps from `m` are bracketed, with at most 256 brackets open at a time. No interrupt
is delivered, nothing but the brackets moves the stack pointer, and no `ST` overwrites what an open
step has stored. -/
structure Disciplined (m : Machine) (n : Nat) : Prop where
  bracketed : m.opened n = some []
  bounded : ∀ i ≤ n, ∀ o ∈ m.opened i, o.length ≤ 256
  undelivered : ∀ i < n, (m.after i).delivered? = none
  noIret : ∀ i < n, (m.after i).executed? ≠ some .iret
  noMove : ∀ i < n, (m.after i).destination? ≠ some stackPointer
  spared : ∀ i < n, (m.after i).executed? = some .st → ∀ o ∈ m.opened i, ∀ j ∈ o,
    (m.after i).stored?.map Prod.fst ≠ (m.after j).stored?.map Prod.fst

namespace Disciplined

variable {n : Nat}

/-- The stack pointer is as far below where it began as there are open brackets. -/
theorem sp (h : Disciplined m n) {i : Nat} (hi : i ≤ n) {o : List Nat} (ho : m.opened i = some o) :
    (m.after i).regs.sp = m.regs.sp - UInt8.ofNat o.length := by
  induction i generalizing o with
  | zero =>
    obtain rfl := Option.some.inj ho
    exact (sub_zero _).symm
  | succ i ih =>
    obtain ⟨o', ho', hway⟩ := opened_succ ho
    have hbefore := ih (Nat.le_of_succ_le hi) ho'
    rw [after_succ', step_sp (h.undelivered i hi) (h.noMove i hi) (h.noIret i hi), hbefore]
    cases hway with
    | neutral hb =>
      rw [hb]
      rfl
    | opening hb =>
      rw [hb, List.length_cons, UInt8.ofNat_add, ← sub_sub]
      rfl
    | closing hb =>
      rw [hb, List.length_cons, UInt8.ofNat_add, ← sub_sub]
      exact sub_add_cancel _ _

/-- A bracket that is opened inside another puts its byte in another cell. -/
theorem cell_ne (h : Disciplined m n) {i j : Nat} (hi : i < n) {o o' : List Nat}
    (ho : m.opened i = some o) (ho' : m.opened j = some o') (hlt : o'.length < o.length)
    (hji : j < i) (hb : (m.after i).bracket = .opening) :
    (m.after i).regs.sp - 1 ≠ (m.after j).regs.sp - 1 := by
  -- the inner bracket is open after this step, one more than there are open now
  have hroom : o.length + 1 ≤ 256 := by
    refine h.bounded (i + 1) hi (i :: o) ?_
    rw [Option.mem_def, opened, ho, Option.bind_some, hb]
  have hlen : o.length < 256 := hroom
  rw [h.sp hi.le ho, h.sp (hji.trans hi).le ho', ne_eq, sub_left_inj, sub_right_inj,
    ← UInt8.toNat_inj, UInt8.toNat_ofNat_of_lt' hlen, UInt8.toNat_ofNat_of_lt' (hlt.trans hlen)]
  exact hlt.ne'

/-- The byte that an open step has stored is still where the step put it. -/
theorem cell (h : Disciplined m n) {i : Nat} (hi : i ≤ n) {o : List Nat} (ho : m.opened i = some o)
    {j : Nat} (hj : j ∈ o) {w : UInt8 × UInt8} (hw : (m.after j).stored? = some w) :
    (m.after i).mem.cell w.1 = w.2 := by
  -- by cases on what step `i` stores: an `ST` spares the cell, an inner bracket has its own
  induction i generalizing o with
  | zero =>
    obtain rfl := Option.some.inj ho
    cases hj
  | succ i ih =>
    obtain ⟨o', ho', hway⟩ := opened_succ ho
    have hbefore : j ∈ o' → (m.after i).mem.cell w.1 = w.2 := ih (Nat.le_of_succ_le hi) ho'
    rw [after_succ', step_cell, start_of_none (h.undelivered i hi)]
    cases hway with
    | neutral hb =>
      cases hs : (m.after i).stored? with
      | none => exact hbefore hj
      | some w' =>
        have hst := executed_of_stored hs (by rw [hb]; nofun)
        have hspared := h.spared i hi hst o ho' j hj
        rw [hs, hw] at hspared
        exact (if_neg fun heq => hspared (congrArg some heq)).trans (hbefore hj)
    | opening hb =>
      obtain ⟨v, hs⟩ := stored_of_opening (h.undelivered i hi) hb
      rw [hs, Option.elim_some]
      cases hj with
      | head =>
        obtain rfl := Option.some.inj (hs.symm.trans hw)
        exact if_pos rfl
      | tail _ hj =>
        obtain ⟨hji, hbj, o'', ho'', hlt⟩ := opened_mem ho' hj
        obtain ⟨v', hs'⟩ := stored_of_opening (h.undelivered j (hji.trans hi)) hbj
        obtain rfl := Option.some.inj (hs'.symm.trans hw)
        rw [if_neg (h.cell_ne hi ho' ho'' hlt hji hb)]
        exact hbefore hj
    | closing hb =>
      rw [stored_of_closing hb]
      exact hbefore (List.mem_cons_of_mem _ hj)

/-- On top of the stack lies what the innermost open step has stored. -/
theorem top (h : Disciplined m n) {i j : Nat} (hi : i ≤ n) {o : List Nat}
    (ho : m.opened i = some (j :: o)) {v : UInt8}
    (hw : (m.after j).stored? = some ((m.after j).regs.sp - 1, v)) :
    (m.after i).mem.cell (m.after i).regs.sp = v := by
  obtain ⟨hji, -, ho'⟩ := opened_head ho
  have hsp : (m.after i).regs.sp = (m.after j).regs.sp - 1 := by
    rw [h.sp hi ho, h.sp (hji.le.trans hi) ho', List.length_cons, UInt8.ofNat_add, ← sub_sub]
    rfl
  rw [hsp]
  exact h.cell hi ho List.mem_cons_self hw

/-- A `POP` takes back what its `PUSH` has pushed. -/
theorem popped (h : Disciplined m n) {i : Nat} (hi : i < n)
    (hop : (m.after i).executed? = some .pop) :
    ∃ j < i, Closes m i j ∧ (m.after j).executed? = some .push
      ∧ (m.after (i + 1)).regs.get (named ((m.after i).operand 1))
          = (m.after j).regs.get (named ((m.after j).operand 1)) := by
  obtain ⟨o, ho⟩ := exists_opened h.bracketed hi
  obtain ⟨j, hji, hcloses, hj⟩ := closes_of_closing ho (bracket_of_executed hop)
  refine ⟨j, hji, hcloses, hj, ?_⟩
  obtain ⟨o', ho', -, -⟩ := hcloses
  rw [after_succ', step_pop (h.undelivered i hi) hop]
  exact h.top hi.le ho' (stored_of_push (h.undelivered j (hji.trans hi)) hj)

/-- A `RET` goes back to just past its `CALL`. -/
theorem returned (h : Disciplined m n) {i : Nat} (hi : i < n)
    (hop : (m.after i).executed? = some .ret) :
    ∃ j < i, Closes m i j ∧ (m.after j).executed? = some .call
      ∧ (m.after (i + 1)).regs.pc = (m.after j).regs.pc + 2 := by
  obtain ⟨o, ho⟩ := exists_opened h.bracketed hi
  obtain ⟨j, hji, hcloses, hj⟩ := closes_of_closing ho (bracket_of_executed hop)
  refine ⟨j, hji, hcloses, hj, ?_⟩
  obtain ⟨o', ho', -, -⟩ := hcloses
  have hd := h.undelivered j (hji.trans hi)
  rw [after_succ', step_ret (h.undelivered i hi) hop, h.top hi.le ho' (stored_of_call hd hj)]
  exact UInt8.toNat_ofNat_of_lt' (Nat.lt_succ_of_le (pc_le_of_call hd hj))

end Disciplined

/-- **The discipline of the stack.** A disciplined run ends with the stack pointer where it began, and
at every point of it the pointer is below that by the number of open brackets. Every `POP` delivers the
value that its `PUSH` has pushed, and every `RET` goes back to just past its two-byte `CALL`. -/
theorem stack_discipline {n : Nat} (h : Disciplined m n) :
    (m.after n).regs.sp = m.regs.sp
      ∧ (∀ i ≤ n, ∃ o, m.opened i = some o
          ∧ (m.after i).regs.sp = m.regs.sp - UInt8.ofNat o.length)
      ∧ (∀ i < n, (m.after i).executed? = some .pop →
          ∃ j < i, Closes m i j ∧ (m.after j).executed? = some .push
            ∧ (m.after (i + 1)).regs.get (named ((m.after i).operand 1))
                = (m.after j).regs.get (named ((m.after j).operand 1)))
      ∧ (∀ i < n, (m.after i).executed? = some .ret →
          ∃ j < i, Closes m i j ∧ (m.after j).executed? = some .call
            ∧ (m.after (i + 1)).regs.pc = (m.after j).regs.pc + 2) := by
  refine ⟨?_, ?_, fun i => h.popped, fun i => h.returned⟩
  · rw [h.sp le_rfl h.bracketed]
    exact sub_zero _
  · intro i hi
    obtain ⟨o, ho⟩ := exists_opened h.bracketed hi
    exact ⟨o, ho, h.sp hi ho⟩

/-- A program at 0x20, and a subroutine at 0x30 that pushes and stores between its call and its
return. -/
def nestingCode : List (UInt8 × UInt8) :=
  [(0x20, Opcode.push.byte), (0x21, 0), (0x22, Opcode.call.byte), (0x23, 1),
    (0x24, Opcode.pop.byte), (0x25, 4),
    (0x30, Opcode.push.byte), (0x31, 2), (0x32, Opcode.st.byte), (0x33, 3), (0x34, 0),
    (0x35, Opcode.pop.byte), (0x36, 3), (0x37, Opcode.ret.byte)]

/-- A machine about to run that program. Its stack pointer is one, so that the stack goes below address
zero. -/
def nesting : Machine :=
  { powerOn {} with
    regs :=
      { (((((Registers.powerOn.set (named 0) 0x11).set (named 1) 0x30).set (named 2) 0x22).set
          (named 3) 0x80).setSp 1) with
        pc := 0x20 }
    mem := nestingCode.foldl (fun mem w => mem.setCell w.1 w.2) Memory.blank }

theorem stack_discipline_nesting :
    Disciplined nesting 7 ∧ nesting.opened 4 = some [2, 1, 0]
      ∧ (nesting.after 4).regs.sp = 254 ∧ (nesting.after 5).regs.get 3 = 0x22
      ∧ (nesting.after 6).regs.pc = 0x24 ∧ (nesting.after 7).regs.sp = 1 := by
  have hdisciplined : Disciplined nesting 7 :=
    ⟨by decide +kernel, by decide +kernel, by decide +kernel, by decide +kernel,
      by decide +kernel, by decide +kernel⟩
  have hopened₄ : nesting.opened 4 = some [2, 1, 0] := by decide +kernel
  have hopened₅ : nesting.opened 5 = some [1, 0] := by decide +kernel
  obtain ⟨hend, hsp, hpop, hret⟩ := stack_discipline hdisciplined
  refine ⟨hdisciplined, hopened₄, ?_, ?_, ?_, hend⟩
  · obtain ⟨o, ho, hsp₄⟩ := hsp 4 (by decide)
    obtain rfl := Option.some.inj (hopened₄.symm.trans ho)
    exact hsp₄
  · obtain ⟨j, -, ⟨o, ho, -, -⟩, -, hget⟩ := hpop 4 (by decide) (by decide +kernel)
    cases hopened₄.symm.trans ho
    exact hget.trans (by decide +kernel)
  · obtain ⟨j, -, ⟨o, ho, -, -⟩, -, hpc⟩ := hret 5 (by decide) (by decide +kernel)
    cases hopened₅.symm.trans ho
    exact hpc.trans (by decide +kernel)

end Machine

end EightBit
