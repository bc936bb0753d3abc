/-
# EightBit.Proofs.Accounting -- no interrupt is lost, doubled or nested

What happens to interrupts in a run is kept here as a history: the deliveries and the executed `IRET`s,
in their order, a delivery before the instruction of the same step. From this history alone can be
told, at every boundary, whether interrupts are on; and since nothing is delivered while they are off,
the history alternates: after a delivery comes an `IRET` or nothing.

The status register is one that programs write. Its bits are lost in no other way: a bit goes when its
interrupt is delivered, when an instruction writes the register, or when `IRET` restores it.
-/
import EightBit.Proofs.Steps

namespace EightBit

/-- What an account of interrupts records. -/
inductive Event
  /-- An interrupt is delivered. -/
  | delivery (n : Fin 8)
  /-- `IRET` is executed. -/
  | iret
deriving DecidableEq, Repr

namespace Machine

/-! ## Where a run begins -/

/-- A machine that has not been stepped since it was built or reset. Programs may have been loaded. -/
inductive Fresh : Machine → Prop
  | powerOn (config : Configuration) : Fresh (powerOn config)
  | reset (m : Machine) : Fresh m.reset
  | load {m m' : Machine} {program : List UInt8} (hm : Fresh m)
      (hload : m.load program = .ok m') : Fresh m'

theorem Fresh.regs {m : Machine} (h : Fresh m) : m.regs = Registers.powerOn := by
  induction h with
  | powerOn => rfl
  | reset => rfl
  | @load m m' program _ hload ih =>
    rw [Machine.load] at hload
    cases hmem : m.mem.load program with
    | error f =>
      rw [hmem] at hload
      cases hload
    | ok mem =>
      rw [hmem] at hload
      cases hload
      exact ih

/-! ## The history -/

/-- The events of the step at `m`, in order. -/
def events (m : Machine) : List Event :=
  (m.delivered?.map Event.delivery).toList ++ if m.executed? = some .iret then [.iret] else []

/-- The events of the first `k` steps, in order. -/
def history (m : Machine) (k : Nat) : List Event :=
  (List.range k).flatMap fun i => (m.after i).events

theorem history_succ (m : Machine) (k : Nat) :
    m.history (k + 1) = m.history k ++ (m.after k).events := by
  rw [history, List.range_succ, List.flatMap_append, List.flatMap_singleton]
  rfl

variable {m : Machine}

theorem events_of_iret (h : m.executed? = some .iret) :
    m.events = (m.delivered?.map Event.delivery).toList ++ [.iret] := by
  rw [events, if_pos h]

theorem events_of_delivered {n : Fin 8} (h : m.executed? ≠ some .iret)
    (hd : m.delivered? = some n) : m.events = [.delivery n] := by
  rw [events, if_neg h, hd]
  rfl

theorem events_of_none (h : m.executed? ≠ some .iret) (hd : m.delivered? = none) :
    m.events = [] := by
  rw [events, if_neg h, hd]
  rfl

/-! ## Interrupts on and off -/

/-- Interrupts are on after an `IRET`, and otherwise as the instruction has found them. -/
theorem step_interrupts (m : Machine) :
    m.step.2.regs.interruptsEnabled
      = (decide (m.executed? = some .iret) || m.start.regs.interruptsEnabled) := by
  cases hop : m.executed? with
  | none => exact (kept_of_not_executed hop).interrupts
  | some op =>
    obtain ⟨-, -, -, hstep⟩ := step_of_executed hop
    rw [hstep]
    show ((m.start.effectOf op).enables || m.start.regs.interruptsEnabled) = _
    by_cases hret : op = .iret
    · subst hret
      rfl
    · rw [effectOf, Opcode.effect_enables hret, decide_eq_false fun h => hret (Option.some.inj h)]

/-- The step at `m` leaves interrupts off if its last event is a delivery, or if it has no event and
they were off before. -/
theorem step_off_iff (m : Machine) :
    m.step.2.regs.interruptsEnabled = false
      ↔ (∃ n, m.events.getLast? = some (.delivery n))
        ∨ (m.events = [] ∧ m.regs.interruptsEnabled = false) := by
  rw [step_interrupts]
  by_cases hret : m.executed? = some .iret
  · rw [events_of_iret hret, hret]
    simp
  rw [decide_eq_false hret, Bool.false_or]
  cases hd : m.delivered? with
  | none =>
    rw [events_of_none hret hd, start_of_none hd]
    simp
  | some n =>
    have hoff : m.start.regs.interruptsEnabled = false := by
      rw [start_of_delivered hd]
      rfl
    rw [events_of_delivered hret hd]
    simp [hoff]

/-- **The history knows.** If interrupts are on at first, then they are off exactly when the last event
was a delivery. -/
theorem off_iff_getLast? (hon : m.regs.interruptsEnabled = true) (k : Nat) :
    (m.after k).regs.interruptsEnabled = false
      ↔ ∃ n, (m.history k).getLast? = some (.delivery n) := by
  induction k with
  | zero =>
    show m.regs.interruptsEnabled = false ↔ _
    simp [hon, history]
  | succ k ih =>
    rw [after_succ', step_off_iff, history_succ, List.getLast?_append]
    cases hlast : (m.after k).events.getLast? with
    | none =>
      have hnone : (m.after k).events = [] := List.getLast?_eq_none_iff.mp hlast
      rw [Option.none_or, ← ih]
      simp [hnone]
    | some e =>
      have hsome : (m.after k).events ≠ [] := by
        intro h
        rw [h] at hlast
        cases hlast
      rw [Option.some_or]
      simp [hsome]

/-! ## No nesting -/

/-- After a delivery, the next event is an `IRET`. -/
def Alternates : List Event → Prop :=
  List.IsChain fun e e' => (∃ n, e = .delivery n) → e' = .iret

theorem alternates_events (m : Machine) : Alternates m.events := by
  by_cases hret : m.executed? = some .iret
  · rw [events_of_iret hret]
    cases m.delivered? with
    | none => exact List.isChain_singleton _
    | some n => exact List.isChain_pair.mpr fun _ => rfl
  · cases hd : m.delivered? with
    | none =>
      rw [events_of_none hret hd]
      exact List.isChain_nil
    | some n =>
      rw [events_of_delivered hret hd]
      exact List.isChain_singleton _

/-- A step whose first event is a delivery has found interrupts on. -/
theorem interruptsEnabled_of_head? {n : Fin 8} (h : m.events.head? = some (.delivery n)) :
    m.regs.interruptsEnabled = true := by
  cases hd : m.delivered? with
  | none =>
    rw [events, hd] at h
    split at h <;> cases h
  | some n' =>
    obtain ⟨-, -, hdue⟩ := pending_of_delivered hd
    exact (pendingInterrupt?_eq_some_iff.mp hdue).1

theorem alternates_history (hon : m.regs.interruptsEnabled = true) (k : Nat) :
    Alternates (m.history k) := by
  induction k with
  | zero => exact List.isChain_nil
  | succ k ih =>
    rw [history_succ]
    refine List.isChain_append.mpr ⟨ih, alternates_events _, ?_⟩
    intro e he e' he' hdelivery
    obtain ⟨n, rfl⟩ := hdelivery
    -- interrupts are off here, so the step cannot begin with another delivery
    have hoff := (off_iff_getLast? hon k).mpr ⟨n, he⟩
    cases e' with
    | iret => rfl
    | delivery n' =>
      rw [interruptsEnabled_of_head? he'] at hoff
      cases hoff

/-- Between two deliveries there is an `IRET`. -/
theorem Alternates.iret_mem {h₁ h₂ h₃ : List Event} {n n' : Fin 8}
    (h : Alternates (h₁ ++ .delivery n :: (h₂ ++ .delivery n' :: h₃))) : .iret ∈ h₂ := by
  have hright := List.IsChain.right_of_append h
  cases h₂ with
  | nil => cases (List.isChain_cons_cons.mp hright).1 ⟨n, rfl⟩
  | cons e h₂ =>
    obtain rfl := (List.isChain_cons_cons.mp hright).1 ⟨n, rfl⟩
    exact List.mem_cons_self

/-! ## Bits of the status register -/

/-- A delivery takes back its own interrupt and no other. -/
theorem Raised.start {n : Fin 8} (h : Raised m n) (hd : m.delivered? ≠ some n) :
    Raised m.start n := by
  cases hd' : m.delivered? with
  | none => rwa [start_of_none hd']
  | some k =>
    have hne : n ≠ k := fun hnk => hd (hnk ▸ hd')
    have hstatus : interruptStatus ≠ stackPointer := by decide
    rw [start_of_delivered hd', Raised, dispatched_get _ _ hstatus, if_pos rfl, testBit_clear]
    exact (Bool.and_eq_true _ _).mpr ⟨h, decide_eq_true hne⟩

/-- What a step keeps of the status register. -/
theorem Raised.step {n : Fin 8} (h : Raised m n) (hd : m.delivered? ≠ some n)
    (hdest : m.destination? ≠ some interruptStatus) (hret : m.executed? ≠ some .iret) :
    Raised m.step.2 n := by
  have hstart : Raised m.start n := h.start hd
  by_cases hint : m.executed? = some .int
  · -- `INT` raises another interrupt, and takes back none
    obtain ⟨-, -, -, hstep⟩ := step_of_executed hint
    rw [Raised, hstep, Effect.apply_get]
    show (m.start.regs.get interruptStatus ||| _).toNat.testBit n = true
    rw [UInt8.toNat_or, Nat.testBit_or]
    exact (Bool.or_eq_true _ _).mpr (.inl hstart)
  · rw [Raised, step_get hdest]
    · exact hstart
    · intro op hop
      rw [hop] at hint hret
      cases op
      case int => exact absurd rfl hint
      case iret => exact absurd rfl hret
      all_goals decide

theorem Raised.after {n : Fin 8} {i k : Nat} (hik : i ≤ k) (h : Raised (m.after i) n)
    (hkeep : ∀ j, i ≤ j → j < k → (m.after j).delivered? ≠ some n
      ∧ (m.after j).destination? ≠ some interruptStatus
      ∧ (m.after j).executed? ≠ some .iret) : Raised (m.after k) n := by
  induction k, hik using Nat.le_induction with
  | base => exact h
  | succ k hik ih =>
    have hbefore : Raised (m.after k) n :=
      ih fun j hj hjk => hkeep j hj (Nat.lt_succ_of_lt hjk)
    obtain ⟨hd, hdest, hret⟩ := hkeep k hik (Nat.lt_succ_self k)
    rw [after_succ']
    exact hbefore.step hd hdest hret

/-! ## The account -/

/-- Which interrupt a step delivers: one that is raised and not masked, and of these the lowest. -/
theorem attempt_dispatch_iff (hm : m.isHalted = false) (hpc : m.regs.pc ≤ 255) :
    (m.attempt.1.dispatch = none ↔ m.regs.interruptsEnabled = false
        ∨ m.regs.get interruptMask &&& m.regs.get interruptStatus = 0)
      ∧ ∀ d, m.attempt.1.dispatch = some d →
          IsLowestBit d.number (m.regs.get interruptMask &&& m.regs.get interruptStatus)
          ∧ (m.regs.get interruptMask).toNat.testBit d.number = true
          ∧ d.source = m.regs.pc
          ∧ d.target = m.mem.cell (vectorBase + UInt8.ofNat d.number) := by
  rw [attempt_dispatch_of_le hm hpc]
  constructor
  · rw [Option.map_eq_none_iff, pendingInterrupt?_eq_none_iff]
  · intro d hd
    obtain ⟨n, hn, rfl⟩ := Option.map_eq_some_iff.mp hd
    obtain ⟨-, hlow⟩ := pendingInterrupt?_eq_some_iff.mp hn
    have hboth := hlow.1
    rw [UInt8.toNat_and, Nat.testBit_and, Bool.and_eq_true] at hboth
    exact ⟨hlow, hboth.1, rfl, rfl⟩

/-- **Every interrupt is accounted for.** In a run from a machine that has not been stepped before, a
cycle delivers an interrupt exactly if interrupts are on and one is due, and then the lowest that is;
interrupts are off exactly if the last event was a delivery, so there is an `IRET` between any two; and
a bit of the status register stays until its interrupt is delivered, an instruction writes the register,
or `IRET` does. -/
theorem interrupts_accounted (hfresh : Fresh m) (k : Nat) :
    let x := m.after k
    (x.isHalted = false → x.regs.pc ≤ 255 →
      (x.attempt.1.dispatch ≠ none ↔ x.regs.interruptsEnabled = true
        ∧ x.regs.get interruptMask &&& x.regs.get interruptStatus ≠ 0)
      ∧ ∀ d, x.attempt.1.dispatch = some d →
          IsLowestBit d.number (x.regs.get interruptMask &&& x.regs.get interruptStatus)
          ∧ (x.regs.get interruptMask).toNat.testBit d.number = true
          ∧ d.source = x.regs.pc
          ∧ d.target = x.mem.cell (vectorBase + UInt8.ofNat d.number))
    ∧ (x.regs.interruptsEnabled = false ↔ ∃ n, (m.history k).getLast? = some (.delivery n))
    ∧ (∀ h₁ n h₂ n' h₃, m.history k = h₁ ++ .delivery n :: (h₂ ++ .delivery n' :: h₃) → .iret ∈ h₂)
    ∧ ∀ i ≤ k, ∀ n, Raised (m.after i) n →
        (∀ j, i ≤ j → j < k → (m.after j).delivered? ≠ some n
          ∧ (m.after j).destination? ≠ some interruptStatus
          ∧ (m.after j).executed? ≠ some .iret) → Raised x n := by
  intro x
  have hon : m.regs.interruptsEnabled = true := by
    rw [hfresh.regs]
    rfl
  refine ⟨?_, off_iff_getLast? hon k, ?_, fun i hik n h hkeep => h.after hik hkeep⟩
  · intro hm hpc
    obtain ⟨hnone, hsome⟩ := attempt_dispatch_iff hm hpc
    refine ⟨?_, hsome⟩
    rw [ne_eq, hnone, not_or, Bool.not_eq_false]
  · intro h₁ n h₂ n' h₃ hsplit
    have halternates := alternates_history hon k
    rw [hsplit] at halternates
    exact halternates.iret_mem

/-- A program that points the vectors of interrupts 0 and 1 to an `IRET`, and then raises and unmasks
both. -/
def twoRaising : List UInt8 :=
  [Opcode.ldi.byte, 0, 0xF8, Opcode.ldi.byte, 1, 22, Opcode.st.byte, 0, 1,
    Opcode.ldi.byte, 0, 0xF9, Opcode.st.byte, 0, 1,
    Opcode.ldi.byte, 6, 3, Opcode.ldi.byte, 5, 3, Opcode.hlt.byte, Opcode.iret.byte]

/-- A new machine with that program. -/
def twoRaised : Machine := ((powerOn {}).load twoRaising).toOption.getD (powerOn {})

theorem interrupts_accounted_twoRaised :
    Fresh twoRaised
      ∧ Raised (twoRaised.after 6) 1 ∧ Raised (twoRaised.after 7) 1
      ∧ (twoRaised.after 7).attempt.1.dispatch ≠ none
      ∧ twoRaised.history 9 = [.delivery 0, .iret, .delivery 1, .iret]
      ∧ (twoRaised.after 9).regs.interruptsEnabled = true := by
  have hload : (powerOn {}).load twoRaising = .ok twoRaised := rfl
  have hfresh : Fresh twoRaised := .load (.powerOn {}) hload
  have hraised : Raised (twoRaised.after 6) 1 := by decide +kernel
  have hhistory : twoRaised.history 9 = [.delivery 0, .iret, .delivery 1, .iret] := by
    decide +kernel
  obtain ⟨hdispatch, -, -, hkept⟩ := interrupts_accounted hfresh 7
  obtain ⟨-, hoff, -, -⟩ := interrupts_accounted hfresh 9
  refine ⟨hfresh, hraised, ?_, ?_, hhistory, ?_⟩
  · refine hkept 6 (by decide) 1 hraised ?_
    intro j hj hj7
    obtain rfl : j = 6 := by omega
    decide +kernel
  · exact (hdispatch (by decide +kernel) (by decide +kernel)).1.mpr (by decide +kernel)
  · rw [← Bool.not_eq_false, hoff, hhistory]
    rintro ⟨n, hn⟩
    cases hn

end Machine

end EightBit
