/-
# EightBit.Proofs.Reconfiguration -- the same machine under another configuration

A machine carries its configuration along and never changes it, and a cycle looks at it in one place
only: where it decides whether what it has fetched is refused. So a step is the same under another
configuration as long as the same is refused under it, and this is all that has to be shown of two
machines that differ in their configurations alone to have them run side by side.
-/
import EightBit.Proofs.Steps

namespace EightBit

namespace Machine

/-! ## Changing the configuration -/

/-- The machine with another configuration. -/
def withConfig (m : Machine) (c : Configuration) : Machine := { m with config := c }

variable (m : Machine) (c : Configuration)

theorem dispatched_withConfig (n : Fin 8) :
    (m.withConfig c).dispatched n = (m.dispatched n).withConfig c := rfl

theorem entry_withConfig : (m.withConfig c).entry = m.entry.withConfig c := by
  rcases Nat.lt_or_ge 255 m.regs.pc with hpc | hpc
  · rw [entry_of_lt hpc, entry_of_lt (m := m.withConfig c) hpc]
  · cases h : m.pendingInterrupt? with
    | none => rw [entry_of_none h, entry_of_none (m := m.withConfig c) h]
    | some n =>
      rw [entry_of_pending h hpc, entry_of_pending (m := m.withConfig c) h hpc,
        dispatched_withConfig]

theorem effectOf_withConfig (op : Opcode) : (m.withConfig c).effectOf op = m.effectOf op := by
  cases op <;> rfl

/-- What an instruction refuses on its own account has nothing to do with the configuration. -/
theorem refusal_row_withConfig (op : Opcode) (a b : UInt8) :
    op.refusal a b (m.withConfig c) = op.refusal a b m := by
  cases op <;> rfl

variable {m c}

/-- What is refused depends on the configuration in two ways: on whether it is strict, if the byte
names nothing, and on whether it implements the instruction, if the byte names one. -/
theorem refusal_withConfig
    (hstrict : Opcode.ofByte? m.code = none → c.strict = m.config.strict)
    (hprofile : ∀ op, Opcode.ofByte? m.code = some op →
      c.profile.implements op = m.config.profile.implements op) :
    (m.withConfig c).refusal = m.refusal := by
  cases hop : Opcode.ofByte? m.code with
  | none =>
    rw [refusal_unnamed hop, refusal_unnamed (m := m.withConfig c) hop, ← hstrict hop]
    rfl
  | some op =>
    rw [refusal_named hop, refusal_named (m := m.withConfig c) hop, refusal_row_withConfig,
      ← hprofile op hop]
    rfl

end Machine

/-- A cycle goes the same way under another configuration, if the same is refused under it. -/
theorem Cycle.withConfig {m m' : Machine} {r : Except Fault Step} (hc : Cycle m r m')
    {c : Configuration}
    (h : m.regs.pc ≤ 255 → (m.entry.withConfig c).refusal = m.entry.refusal) :
    Cycle (m.withConfig c) r (m'.withConfig c) := by
  have hentry : (m.withConfig c).entry = m.entry.withConfig c := m.entry_withConfig c
  have hrefusal (hpc : m.regs.pc ≤ 255) : (m.withConfig c).entry.refusal = m.entry.refusal := by
    rw [hentry, h hpc]
  cases hc with
  | outside hpc => exact .outside hpc
  | refused hpc hf =>
    have hc := Cycle.refused (m := m.withConfig c) hpc ((hrefusal hpc).trans hf)
    rwa [hentry] at hc
  | passed hpc hf hop =>
    have hc := Cycle.passed (m := m.withConfig c) hpc ((hrefusal hpc).trans hf) (by rwa [hentry])
    rwa [hentry] at hc
  | executed hpc hf hop =>
    have hc := Cycle.executed (m := m.withConfig c) hpc ((hrefusal hpc).trans hf)
      (by rwa [hentry])
    rwa [hentry, Machine.effectOf_withConfig] at hc

namespace Machine

/-- A step is the same under another configuration, if the same is refused under it. -/
theorem step_withConfig {m : Machine} {c : Configuration}
    (h : m.isHalted = false → m.regs.pc ≤ 255 →
      (m.entry.withConfig c).refusal = m.entry.refusal) :
    (m.withConfig c).step = (m.step.1, m.step.2.withConfig c) := by
  cases hm : m.isHalted with
  | true => rw [step_of_halted hm, step_of_halted (m := m.withConfig c) hm]
  | false => exact step_of_cycle hm ((step_cycle hm).withConfig (h hm))

/-! ## Side by side -/

/-- The first `k` steps from `x` and from `y` give the same results and the same output, and at every
boundary the machines differ in their configurations alone. -/
structure InStep (x y : Machine) (k : Nat) : Prop where
  state : ∀ i ≤ k, y.after i = (x.after i).withConfig y.config
  result : ∀ i < k, (y.after i).step.1 = (x.after i).step.1
  output : y.output k = x.output k

namespace InStep

variable {x y : Machine} {k : Nat}

theorem zero (h : y = x.withConfig y.config) : InStep x y 0 where
  state := by
    intro i hi
    obtain rfl := Nat.le_zero.mp hi
    exact h
  result := by
    intro i hi
    exact absurd hi (Nat.not_lt_zero i)
  output := rfl

/-- Two machines side by side stay so if the next step does not depend on the configuration. -/
theorem succ (h : InStep x y k)
    (hstep : ((x.after k).withConfig y.config).step
      = ((x.after k).step.1, (x.after k).step.2.withConfig y.config)) :
    InStep x y (k + 1) := by
  rw [← h.state k le_rfl] at hstep
  have hresult : (y.after k).step.1 = (x.after k).step.1 := by rw [hstep]
  refine ⟨?_, ?_, ?_⟩
  · intro i hi
    rcases Nat.le_succ_iff.mp hi with hi | rfl
    · exact h.state i hi
    · rw [after_succ', after_succ', hstep]
  · intro i hi
    rcases Nat.lt_succ_iff_lt_or_eq.mp hi with hi | rfl
    · exact h.result i hi
    · exact hresult
  · rw [output_add, output_add, h.output, output_one, output_one, hresult]

/-- Machines that differ in their configurations alone run side by side for as many steps as do not
depend on the configuration. -/
theorem of_steps (h : y = x.withConfig y.config)
    (hstep : ∀ i < k, ((x.after i).withConfig y.config).step
      = ((x.after i).step.1, (x.after i).step.2.withConfig y.config)) : InStep x y k := by
  induction k with
  | zero => exact .zero h
  | succ k ih =>
    have hbefore : InStep x y k := by
      apply ih
      intro i hi
      exact hstep i (by omega)
    exact hbefore.succ (hstep k (by omega))

end InStep

end Machine

end EightBit
