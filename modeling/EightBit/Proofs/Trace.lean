/-
# EightBit.Proofs.Trace -- what runs of successful cycles keep

A trace is a run of cycles that all succeed, with the machine at which each of them starts. What one
cycle keeps is read off its four ways; what a trace keeps follows by induction on the trace.

The facts here are about a machine that takes no interrupts. Nothing but `IRET` turns interrupts on, so
while they are off and no `IRET` is executed there is no dispatch either, and the only cells that
change are those the executed instructions name.
-/
import EightBit.Proofs.Cycle

namespace EightBit

/-- The instruction that a step executed, if it executed one. -/
def Step.opcode? : Step → Option Opcode
  | .executed _ op _ => some op
  | .skipped _ _ => none

/-- The address at which a step ran an instruction or passed over a byte. -/
def Step.address : Step → Nat
  | .executed pc _ _ => pc
  | .skipped pc _ => pc

/-- Only `IRET` turns interrupts on. -/
theorem Opcode.effect_enables {op : Opcode} (hop : op ≠ .iret) (a b : UInt8) (m : Machine) :
    (op.effect a b m).enables = false := by
  cases op
  case iret => exact absurd rfl hop
  all_goals rfl

theorem Opcode.effect_halts_of_output {op : Opcode} {a b : UInt8} {m : Machine}
    (h : (op.effect a b m).output ≠ none) : (op.effect a b m).halts = false := by
  cases op
  case hlt => exact absurd rfl h
  all_goals rfl

namespace Machine

theorem entry_cycles (m : Machine) : m.entry.cycles = m.cycles := by
  rcases Nat.lt_or_ge 255 m.regs.pc with hpc | hpc
  · rw [entry_of_lt hpc]
  cases h : m.pendingInterrupt? with
  | none => rw [entry_of_none h]
  | some n =>
    obtain ⟨gp, cells, hd⟩ := m.dispatched_eq n
    rw [entry_of_pending h hpc, hd]

/-- The cell in which the instruction of the cycle at `m` stores a byte, if it stores one. -/
def written (m : Machine) : Option UInt8 :=
  match Opcode.ofByte? m.entry.code with
  | some op => (m.entry.effectOf op).store.map Prod.fst
  | none => none

end Machine

/-! ## One cycle -/

namespace Cycle

variable {m m' : Machine} {s : Step}

theorem config {r : Except Fault Step} (h : Cycle m r m') : m'.config = m.config := by
  cases h with
  | outside => rfl
  | refused | passed | executed => exact m.entry_config

/-- A cycle that succeeds is counted once, whether or not it begins with a dispatch. -/
theorem cycles (h : Cycle m (.ok s) m') : m'.cycles = m.cycles + 1 := by
  cases h with
  | passed => exact congrArg (· + 1) m.entry_cycles
  | executed => exact congrArg (· + 1) m.entry_cycles

/-- A cycle that fails is not counted, and is the last one. -/
theorem of_error {f : Fault} (h : Cycle m (.error f) m') :
    m'.isHalted = true ∧ m'.cycles = m.cycles := by
  cases h with
  | outside => exact ⟨rfl, rfl⟩
  | refused => exact ⟨rfl, m.entry_cycles⟩

/-- An instruction that writes to the console does not halt the machine. -/
theorem isHalted_of_output (h : Cycle m (.ok s) m') (hs : s.output ≠ none) :
    m'.isHalted = false := by
  cases h with
  | passed => rfl
  | @executed op _ _ hop =>
    have hhalts : (m.entry.effectOf op).halts = false := Opcode.effect_halts_of_output hs
    show ((if (m.entry.effectOf op).halts then Phase.halted else .running) == .halted) = false
    rw [hhalts]
    rfl

theorem interrupts (h : Cycle m (.ok s) m') (hs : s.opcode? ≠ some .iret) :
    m'.regs.interruptsEnabled = m.entry.regs.interruptsEnabled := by
  cases h with
  | passed => rfl
  | @executed op _ _ hop =>
    have hne : op ≠ .iret := fun h => hs (congrArg some h)
    show ((m.entry.effectOf op).enables || m.entry.regs.interruptsEnabled) = _
    rw [Machine.effectOf, Opcode.effect_enables hne, Bool.false_or]

/-- Past the dispatch, a cycle writes the cell that its instruction names and no other. -/
theorem cell (h : Cycle m (.ok s) m') {a : UInt8} (ha : m.written ≠ some a) :
    m'.mem.cell a = m.entry.mem.cell a := by
  cases h with
  | passed => rfl
  | @executed op _ _ hop =>
    rw [Machine.written, hop] at ha
    rw [Effect.apply_cell]
    cases hstore : (m.entry.effectOf op).store with
    | none => rfl
    | some w =>
      simp only [hstore] at ha
      exact if_neg fun h => ha (congrArg some h)

end Cycle

/-! ## Runs -/

/-- A run of cycles that all succeed: the machine that each starts at, and what it did. -/
inductive Trace : Machine → List (Machine × Step) → Machine → Prop
  | nil (m : Machine) : Trace m [] m
  | cons {m m₁ last : Machine} {s : Step} {t : List (Machine × Step)}
      (hstep : m.step = (.ok s, m₁)) (htail : Trace m₁ t last) : Trace m ((m, s) :: t) last

namespace Trace

variable {m last : Machine} {t : List (Machine × Step)}

theorem config (ht : Trace m t last) : last.config = m.config := by
  induction ht with
  | nil => rfl
  | cons hstep _ ih => exact ih.trans (Machine.cycle_of_step hstep).2.config

/-- Each cycle of a trace is counted once, as long as the counter can count them all. -/
theorem cycles (ht : Trace m t last) (hroom : m.cycles.toNat + t.length < UInt64.size) :
    last.cycles.toNat = m.cycles.toNat + t.length := by
  induction ht with
  | nil => rfl
  | @cons m m₁ last s t hstep _ ih =>
    rw [List.length_cons] at hroom
    have hone : m₁.cycles.toNat = m.cycles.toNat + 1 := by
      rw [(Machine.cycle_of_step hstep).2.cycles, UInt64.toNat_add, UInt64.toNat_one]
      exact Nat.mod_eq_of_lt (show m.cycles.toNat + 1 < UInt64.size by omega)
    rw [ih (by omega), hone, List.length_cons]
    omega

/-- A trace is cut in two at any of its cycles. -/
theorem of_append {t₁ t₂ : List (Machine × Step)} (ht : Trace m (t₁ ++ t₂) last) :
    ∃ mid, Trace m t₁ mid ∧ Trace mid t₂ last := by
  induction t₁ generalizing m with
  | nil => exact ⟨m, .nil m, ht⟩
  | cons c t₁ ih =>
    cases ht with
    | cons hstep htail =>
      obtain ⟨mid, h₁, h₂⟩ := ih htail
      exact ⟨mid, .cons hstep h₁, h₂⟩

theorem append {mid : Machine} {t₁ t₂ : List (Machine × Step)} (h₁ : Trace m t₁ mid)
    (h₂ : Trace mid t₂ last) : Trace m (t₁ ++ t₂) last := by
  induction h₁ with
  | nil => exact h₂
  | cons hstep _ ih => exact .cons hstep (ih h₂)

/-- **Inside a handler.** A run that starts with interrupts off and executes no `IRET` writes the
cells that its instructions name and no others. -/
theorem cell (ht : Trace m t last) (hoff : m.entry.regs.interruptsEnabled = false)
    (hret : ∀ c ∈ t, c.2.opcode? ≠ some .iret) {a : UInt8} (ha : ∀ c ∈ t, c.1.written ≠ some a) :
    last.entry.mem.cell a = m.entry.mem.cell a := by
  induction ht with
  | nil => rfl
  | @cons m m₁ last s t hstep _ ih =>
    rw [List.forall_mem_cons] at hret ha
    have hcycle := (Machine.cycle_of_step hstep).2
    have hoff₁ : m₁.regs.interruptsEnabled = false := (hcycle.interrupts hret.1).trans hoff
    -- with interrupts off the next cycle starts where this one ends
    have hentry : m₁.entry = m₁ :=
      Machine.entry_of_none (Machine.pendingInterrupt?_eq_none_iff.mpr (.inl hoff₁))
    rw [ih (by rwa [hentry]) hret.2 ha.2, hentry, hcycle.cell ha.1]

end Trace

end EightBit
