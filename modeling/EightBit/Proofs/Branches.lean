/-
# EightBit.Proofs.Branches -- a conditional jump decides the comparison last made

A comparison and the jump that looks at it may stand far apart. Between them stand the flags, one of
which is raised for each way in which the operands can be ordered. Only a comparison and `IRET` write
the flags; a delivery pushes them and leaves them as they are. So a jump that comes after any other
cycles still finds what the comparison found, and its test of the flags is a test of how the operands,
as unsigned bytes, were ordered **then**; the registers may have changed since.

`IRET` takes the flags back from a byte of the stack that a handler may have written. It keeps the three
bits that are flags and drops the others.
-/
import EightBit.Proofs.Calls

namespace EightBit

open RegisterIndex (named)

/-! ## The flags of a comparison -/

/-- The flags after `x` has been compared with `y`. -/
def Flags.compared (x y : Nat) : Flags := ⟨x = y, y < x, x < y⟩

/-- Whether a conditional jump is to be taken once `x` has been compared with `y`; none for an
instruction that is no conditional jump. -/
def Opcode.branch? (op : Opcode) (x y : Nat) : Option Bool :=
  match op with
  | .jeq => some (x = y)
  | .jne => some (x ≠ y)
  | .jgt => some (x > y)
  | .jlt => some (x < y)
  | .jle => some (x ≤ y)
  | .jge => some (x ≥ y)
  | _ => none

namespace Opcode

variable {op : Opcode} {x y : Nat} {taken : Bool}

/-- **Six tests.** What a conditional jump looks for in the flags is there exactly if the operands are
ordered as it wants them. -/
theorem takes_compared (h : op.branch? x y = some taken) :
    op.takes (Flags.compared x y) = taken := by
  cases op
  case jeq | jne | jgt | jlt =>
    simp only [branch?, Option.some.injEq] at h
    simp [takes, Flags.compared, ← h]
  case jle | jge =>
    -- either of two flags will do
    simp only [branch?, Option.some.injEq] at h
    rw [← h, Bool.eq_iff_iff]
    simp only [takes, Flags.compared, Bool.or_eq_true, decide_eq_true_iff]
    omega
  all_goals cases h

/-- The row of a conditional jump: one operand byte, which is looked at only if the jump is taken. -/
theorem row_of_branch? (h : op.branch? x y = some taken) (a b : UInt8) (m : Machine) :
    op.effect a b m
        = { target := if op.takes m.regs.fl then some (m.regs.get (named a)) else none }
      ∧ op.declaredArity = 1
      ∧ op.registerOperands a b m.regs.fl = (if op.takes m.regs.fl then [a] else [])
      ∧ op.ownRefusal a b m = none := by
  cases op
  case jeq | jne | jgt | jlt | jle | jge => exact ⟨rfl, rfl, rfl, rfl⟩
  all_goals cases h

/-- No instruction writes the flags but a comparison and `IRET`. -/
theorem effect_flags_eq_none (hcmp : op ≠ .cmp) (hiret : op ≠ .iret) (a b : UInt8) (m : Machine) :
    (op.effect a b m).flags = none := by
  cases op
  case cmp => exact absurd rfl hcmp
  case iret => exact absurd rfl hiret
  all_goals rfl

end Opcode

/-! ## From the comparison to the jump -/

namespace Machine

theorem start_flags (m : Machine) : m.start.regs.fl = m.regs.fl := by
  cases h : m.delivered? with
  | none => rw [start_of_none h]
  | some n =>
    rw [start_of_delivered h]
    rfl

/-- The address that a step reports is the one at which its instruction has started. -/
theorem address_of_executed {m m' : Machine} {pc : Nat} {op : Opcode} {out : Option Output}
    (h : m.step = (.ok (.executed pc op out), m')) : pc = m.start.regs.pc := by
  obtain ⟨hm, hcycle⟩ := cycle_of_step h
  rw [← entry_eq_start hm]
  cases hcycle with
  | executed => rfl

/-- A comparison leaves the flags of its operands. -/
theorem flags_of_cmp {m : Machine} (h : m.executed? = some .cmp) :
    m.step.2.regs.fl = Flags.compared (m.start.regs.get (named (m.start.operand 1))).toNat
      (m.start.regs.get (named (m.start.operand 2))).toNat := by
  obtain ⟨-, -, -, hstep⟩ := step_of_executed h
  rw [hstep]
  rfl

/-- A step that executes neither a comparison nor `IRET` leaves the flags as they are, whatever else it
does. -/
theorem step_flags {m : Machine} (hcmp : m.executed? ≠ some .cmp)
    (hiret : m.executed? ≠ some .iret) : m.step.2.regs.fl = m.regs.fl := by
  cases hop : m.executed? with
  | none => rw [(kept_of_not_executed hop).flags, start_flags]
  | some op =>
    obtain ⟨-, -, -, hstep⟩ := step_of_executed hop
    rw [hop] at hcmp hiret
    have hnone : (m.start.effectOf op).flags = none :=
      Opcode.effect_flags_eq_none (by simpa using hcmp) (by simpa using hiret) _ _ _
    rw [hstep]
    show (m.start.effectOf op).flags.getD m.start.regs.fl = m.regs.fl
    rw [hnone, Option.getD_none, start_flags]

end Machine

/-- The flags are the same after any cycles that execute neither a comparison nor `IRET`. -/
theorem Trace.flags {m last : Machine} {t : List (Machine × Step)} (ht : Trace m t last)
    (h : ∀ c ∈ t, c.2.opcode? ≠ some .cmp ∧ c.2.opcode? ≠ some .iret) :
    last.regs.fl = m.regs.fl := by
  induction ht with
  | nil => rfl
  | @cons m m₁ last s t hstep _ ih =>
    rw [List.forall_mem_cons] at h
    have hexecuted : m.executed? = s.opcode? := by rw [Machine.executed?, hstep]
    have hone := Machine.step_flags (hexecuted ▸ h.1.1) (hexecuted ▸ h.1.2)
    rw [hstep] at hone
    rw [ih h.2, hone]

/-! ## The jump -/

namespace Machine

variable {m : Machine} {op : Opcode} {x y : Nat} {taken : Bool}

/-- A conditional jump that is executed goes to the address in its register or past its operand. -/
theorem counter_of_branch (hop : m.executed? = some op) (hb : op.branch? x y = some taken)
    (hfl : m.regs.fl = Flags.compared x y) :
    m.step.2.regs.pc
      = if taken then (m.start.regs.get (named (m.start.operand 1))).toNat
        else m.start.regs.pc + 2 := by
  obtain ⟨-, -, -, hstep⟩ := step_of_executed hop
  obtain ⟨heffect, harity, -, -⟩ :=
    Opcode.row_of_branch? hb (m.start.operand 1) (m.start.operand 2) m.start
  rw [start_flags, hfl, Opcode.takes_compared hb] at heffect
  rw [hstep, effectOf, heffect, harity]
  cases taken <;> rfl

/-- A machine of the full profile refuses no conditional jump that lies in memory and names a
register. -/
theorem step_of_branch (hprofile : m.config.profile = .full) (hm : m.isHalted = false)
    (hpc : m.regs.pc ≤ 255) (hop : Opcode.ofByte? m.start.code = some op)
    (hb : op.branch? x y = some taken) (hwhole : m.start.regs.pc + 1 ≤ 255)
    (hr : (m.start.operand 1).toNat ≤ 7) :
    m.step.1 = .ok (.executed m.start.regs.pc op none) := by
  obtain ⟨heffect, harity, hregisters, hown⟩ :=
    Opcode.row_of_branch? hb (m.start.operand 1) (m.start.operand 2) m.start
  rw [← entry_eq_start hm] at *
  have hgranted : m.entry.refusal = none := by
    rw [refusal_named_eq_none_iff hop, entry_config, hprofile, harity, Opcode.refusal_eq_none_iff]
    refine ⟨rfl, hwhole, ?_, hown⟩
    intro r hmem
    rw [hregisters] at hmem
    -- the register is looked at only if the jump is taken
    split at hmem
    · rw [List.mem_singleton.mp hmem]
      omega
    · cases hmem
  rw [step_of_named hm hpc hgranted hop, effectOf, heffect]

/-- A machine that executes a comparison has the full profile. -/
theorem full_of_cmp (h : m.executed? = some .cmp) : m.config.profile = .full := by
  obtain ⟨hm, hgranted, hop, -⟩ := step_of_executed h
  obtain ⟨himplements, -, -⟩ := (refusal_named_eq_none_iff hop).mp hgranted
  rw [← entry_eq_start hm, entry_config] at himplements
  cases hprofile : m.config.profile with
  | full => rfl
  | baseline =>
    rw [hprofile] at himplements
    cases himplements

end Machine

/-! ## The bits that are flags -/

/-- A byte taken back as flags keeps its low three bits. -/
theorem Flags.toByte_ofByte (byte : UInt8) : (Flags.ofByte byte).toByte = byte &&& 0b111 := by
  have hall : ∀ n < 256, (Flags.ofByte (UInt8.ofNat n)).toByte = UInt8.ofNat n &&& 0b111 := by
    decide +kernel
  simpa using hall byte.toNat byte.toNat_lt

theorem Flags.toByte_high (f : Flags) : f.toByte &&& 0b1111_1000 = 0 := by
  rcases f with ⟨_ | _, _ | _, _ | _⟩ <;> decide

namespace Machine

/-- `IRET` takes its flags from the low three bits of the byte that it pops for them. -/
theorem flags_of_iret {m : Machine} (h : m.executed? = some .iret) :
    m.step.2.regs.fl.toByte = m.start.mem.cell (m.start.regs.sp + 7) &&& 0b111 := by
  obtain ⟨-, -, -, hstep⟩ := step_of_executed h
  rw [hstep, ← Flags.toByte_ofByte]
  rfl

/-- **A conditional jump decides the comparison last made.** After a `CMP` and any cycles that execute
neither another one nor `IRET`, a conditional jump that is executed at `pc` goes to the address in its
register if the operands of the `CMP`, as they were then, stand as the jump wants them, and to `pc + 2`
if not; and it is executed if it lies in memory and names a register. Whatever is called on a machine,
no bit of its flags is set beside the three; of what `IRET` pops for them the others are dropped. -/
theorem branch_decides_last_comparison :
    (∀ (m last : Machine) (t : List (Machine × Step)),
      m.executed? = some .cmp → Trace m.step.2 t last →
      (∀ c ∈ t, c.2.opcode? ≠ some .cmp ∧ c.2.opcode? ≠ some .iret) →
      let x := (m.start.regs.get (named (m.start.operand 1))).toNat
      let y := (m.start.regs.get (named (m.start.operand 2))).toNat
      let r := last.start.operand 1
      ∀ op taken, op.branch? x y = some taken →
        (∀ pc out, last.step.1 = .ok (.executed pc op out) →
          pc = last.start.regs.pc ∧ last.step.2.regs.pc
            = if taken then (last.start.regs.get (named r)).toNat else pc + 2)
        ∧ (last.isHalted = false → last.regs.pc ≤ 255 →
            Opcode.ofByte? last.start.code = some op → last.start.regs.pc + 1 ≤ 255 → r.toNat ≤ 7 →
            last.step.1 = .ok (.executed last.start.regs.pc op none)))
    ∧ (∀ config calls, ((powerOn config).called calls).regs.fl.toByte &&& 0b1111_1000 = 0)
    ∧ ∀ m : Machine, m.executed? = some .iret →
        m.step.2.regs.fl.toByte = m.start.mem.cell (m.start.regs.sp + 7) &&& 0b111 := by
  refine ⟨?_, fun config calls => Flags.toByte_high _, fun m h => flags_of_iret h⟩
  intro m last t hcmp ht hkept x y r op taken hb
  have hfl : last.regs.fl = Flags.compared x y := (ht.flags hkept).trans (flags_of_cmp hcmp)
  constructor
  · intro pc out hstep
    have hop : last.executed? = some op := by
      rw [executed?, hstep]
      rfl
    have hpc : pc = last.start.regs.pc := address_of_executed (Prod.ext hstep rfl)
    refine ⟨hpc, ?_⟩
    rw [hpc]
    exact counter_of_branch hop hb hfl
  · intro hm hin hop hwhole hr
    apply step_of_branch _ hm hin hop hb hwhole hr
    rw [ht.config, step_config, full_of_cmp hcmp]

/-- A machine that compares 200 with 100, greater as unsigned bytes and less as signed ones. Then it
clears the first of the two registers and unmasks interrupt 0, which has been raised; the jump is the
first instruction of its handler. -/
def comparing : Machine :=
  { powerOn {} with
    regs := ((Registers.powerOn.set (named 0) 200).set (named 1) 100).set interruptStatus 1
    mem := ((((((((Memory.blank.setCell 0 Opcode.cmp.byte).setCell 2 1).setCell 3
      Opcode.ldi.byte).setCell 4 0).setCell 6 Opcode.ldi.byte).setCell 7 5).setCell 8 1).setCell
      vectorBase 0x40).setCell 0x40 Opcode.jgt.byte |>.setCell 0x41 1 }

theorem branch_decides_last_comparison_comparing :
    let last := comparing.after 3
    comparing.step.1 = .ok (.executed 0 .cmp none)
      ∧ last.delivered? = some 0
      ∧ last.step.1 = .ok (.executed 0x40 .jgt none)
      ∧ last.step.2.regs.pc = 100 := by
  intro last
  have hcmp : comparing.step.1 = .ok (.executed 0 .cmp none) := by decide +kernel
  have hldi : (comparing.after 1).step.1 = .ok (.executed 3 .ldi none) := by decide +kernel
  have hmask : (comparing.after 2).step.1 = .ok (.executed 6 .ldi none) := by decide +kernel
  have ht : Trace comparing.step.2 _ last :=
    .cons (Prod.ext hldi rfl) (.cons (Prod.ext hmask rfl) (.nil _))
  obtain ⟨hjump, -, -⟩ := branch_decides_last_comparison
  obtain ⟨hdecided, hexecuted⟩ :=
    hjump comparing last _ (by decide +kernel) ht (by decide) .jgt true (by decide +kernel)
  have hlast : last.step.1 = .ok (.executed 0x40 .jgt none) :=
    (hexecuted (by decide +kernel) (by decide +kernel) (by decide +kernel) (by decide +kernel)
      (by decide +kernel)).trans (by decide +kernel)
  refine ⟨hcmp, by decide +kernel, hlast, ?_⟩
  exact (hdecided _ _ hlast).2.trans (by decide +kernel)

end Machine

end EightBit
