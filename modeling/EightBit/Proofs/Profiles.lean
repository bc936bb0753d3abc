/-
# EightBit.Proofs.Profiles -- the baseline profile refines the full one

The profile of a machine is looked at in one place only: a byte that names an instruction is checked
against it before anything else about the instruction is. So two machines that differ in nothing but
their profiles go in lockstep, and what parts them is a fetch of an instruction that one of them does
not implement; the machine without it refuses there, at the address from which both have fetched.

A change of profile is a change of configuration, and goes through a step as any other does
(`Machine.step_withConfig`); what holds of runs follows by induction on the number of steps.
-/
import EightBit.Proofs.Faults
import EightBit.Proofs.Reconfiguration

namespace EightBit

/-- The instructions of the baseline profile. -/
def Profile.basic : List Opcode := [.hlt, .ldi, .push, .pop, .prn, .mul, .jmp]

theorem Profile.implements_baseline (op : Opcode) :
    Profile.baseline.implements op = decide (op ∈ Profile.basic) := by
  cases op <;> rfl

namespace Machine

/-! ## Changing the profile -/

/-- The machine with another profile. -/
def withProfile (m : Machine) (p : Profile) : Machine :=
  { m with config := { m.config with profile := p } }

/-! ## One step -/

/-- The instruction that the step at `m` fetches: the one that the byte at the fetch address names, in
memory as a delivery leaves it. Nothing is fetched if the machine has halted, or if no cell has the
program counter's address. -/
def fetches? (m : Machine) : Option Opcode :=
  if m.isHalted = true ∨ 255 < m.regs.pc then none
  else Opcode.ofByte? (m.entry.mem.cell (UInt8.ofNat m.fetchAddress))

variable {m : Machine} {p : Profile}

theorem fetches?_of_le (hm : m.isHalted = false) (hpc : m.regs.pc ≤ 255) :
    m.fetches? = Opcode.ofByte? m.entry.code := by
  have hfetches : ¬ (m.isHalted = true ∨ 255 < m.regs.pc) :=
    not_or.mpr ⟨ne_true_of_eq_false hm, Nat.not_lt.mpr hpc⟩
  rw [fetches?, if_neg hfetches, ← entry_pc hpc]
  rfl

theorem running_of_fetches {op : Opcode} (h : m.fetches? = some op) :
    m.isHalted = false ∧ m.regs.pc ≤ 255 := by
  obtain ⟨hfetches, -⟩ := Option.ite_none_left_eq_some.mp h
  obtain ⟨hm, hpc⟩ := not_or.mp hfetches
  exact ⟨eq_false_of_ne_true hm, Nat.not_lt.mp hpc⟩

/-- Under a profile that implements what is fetched, if the machine's own does, the step is the same. -/
theorem step_withProfile
    (h : ∀ op, m.fetches? = some op → p.implements op = m.config.profile.implements op) :
    (m.withProfile p).step = (m.step.1, m.step.2.withProfile p) := by
  have hstep : (m.withProfile p).step
      = (m.step.1, m.step.2.withConfig { m.config with profile := p }) := by
    apply step_withConfig
    intro hm hpc
    apply refusal_withConfig
    · intro _
      rw [entry_config]
    · intro op hop
      rw [entry_config]
      exact h op ((fetches?_of_le hm hpc).trans hop)
  rw [hstep, withProfile, step_config]
  rfl

/-- Under a profile without what is fetched, the step refuses it, at the address fetched from. -/
theorem step_unimplemented {op : Opcode} (hop : m.fetches? = some op)
    (hp : p.implements op = false) :
    (m.withProfile p).step.1 = .error (.unimplemented op m.fetchAddress) := by
  obtain ⟨hm, hpc⟩ := running_of_fetches hop
  rw [fetches?_of_le hm hpc] at hop
  have hentry : (m.withProfile p).entry = m.entry.withConfig { m.config with profile := p } :=
    m.entry_withConfig _
  have hf : (m.withProfile p).entry.refusal = some (.unimplemented op m.fetchAddress) := by
    rw [hentry, refusal_named (m := m.entry.withConfig { m.config with profile := p }) hop]
    exact (if_pos hp).trans (by rw [← entry_pc hpc]; rfl)
  rw [step_of_refusal (m := m.withProfile p) hm hpc hf]

/-- Blank memory is all `NOP`s, which the baseline profile does not have. -/
example : ((powerOn {}).withProfile .baseline).step.1 = .error (.unimplemented .nop 0) := by
  decide

/-! ## Runs -/

/-- The first `k` steps from `x` and from `y` give the same results and the same output, and at every
boundary the machines differ in their profiles alone. -/
structure Lockstep (x y : Machine) (k : Nat) : Prop where
  state : ∀ i ≤ k, y.after i = (x.after i).withProfile y.config.profile
  result : ∀ i < k, (y.after i).step.1 = (x.after i).step.1
  output : y.output k = x.output k

/-- After `k` steps, `x` fetches an instruction that is not basic, and `y` refuses it where `x` fetches
it. -/
def Parts (x y : Machine) (k : Nat) : Prop :=
  ∃ op, op ∉ Profile.basic ∧ (x.after k).fetches? = some op
    ∧ (y.after k).step.1 = .error (.unimplemented op (x.after k).fetchAddress)

/-- Steps do not change the configuration, so neither is there a difference between changing the profile
of a later machine and giving it the configuration with the profile changed. -/
theorem withProfile_after (x : Machine) (p : Profile) (k : Nat) :
    (x.after k).withProfile p = (x.after k).withConfig (x.withProfile p).config := by
  rw [withProfile, after_config]
  rfl

namespace Lockstep

variable {x y : Machine} {k n : Nat}

theorem of_inStep {p : Profile} (h : InStep x (x.withProfile p) k) :
    Lockstep x (x.withProfile p) k where
  state i hi := (h.state i hi).trans (withProfile_after x p i).symm
  result := h.result
  output := h.output

/-- A machine that has failed prints nothing more. -/
theorem output_of_error (h : Lockstep x y k) (hkn : k ≤ n) {f : Fault}
    (hf : (y.after k).step.1 = .error f) : y.output n = x.output k := by
  obtain ⟨i, rfl⟩ := Nat.exists_eq_add_of_le hkn
  rw [output_add, Machine.output_of_error (Prod.ext hf rfl), List.append_nil, h.output]

end Lockstep

theorem inStep_or_parts {x : Machine} (hfull : x.config.profile = .full) (n : Nat) :
    ∃ k ≤ n, InStep x (x.withProfile .baseline) k
      ∧ (k = n ∨ Parts x (x.withProfile .baseline) k) := by
  induction n with
  | zero => exact ⟨0, le_rfl, .zero rfl, .inl rfl⟩
  | succ n ih =>
    -- the machines have come as far side by side as they could, or have parted before
    obtain ⟨k, hk, hboth, rfl | hparts⟩ := ih
    · by_cases hbasic : ∀ op, (x.after k).fetches? = some op → op ∈ Profile.basic
      · refine ⟨k + 1, le_rfl, hboth.succ ?_, .inl rfl⟩
        rw [← after_succ', ← withProfile_after, ← withProfile_after, after_succ']
        apply step_withProfile
        intro op hop
        rw [after_config, hfull]
        exact (Profile.implements_baseline op).trans (decide_eq_true (hbasic op hop))
      · push Not at hbasic
        obtain ⟨op, hop, hnot⟩ := hbasic
        refine ⟨k, Nat.le_succ k, hboth, .inr ⟨op, hnot, hop, ?_⟩⟩
        rw [hboth.state k le_rfl, ← withProfile_after]
        exact step_unimplemented hop ((Profile.implements_baseline op).trans (decide_eq_false hnot))
    · exact ⟨k, Nat.le_succ_of_le hk, hboth, .inr hparts⟩

/-- **The baseline profile refines the full one.** Of any machine, the steps under the two profiles give
the same results, the same output and, profiles apart, the same machines, all the way or up to a step
that fetches an instruction outside the baseline profile; there the baseline machine refuses it, at the
address at which it is fetched under the full profile too, and prints nothing more. As long as no such
instruction is fetched there is no difference. -/
theorem baseline_refines_full (m : Machine) (n : Nat) :
    let full := m.withProfile .full
    let base := m.withProfile .baseline
    ∃ k ≤ n, Lockstep full base k ∧ (k = n ∨ Parts full base k)
      ∧ base.output n = full.output k ∧ full.output k <+: full.output n
      ∧ ((∀ i < n, ∀ op, (full.after i).fetches? = some op → op ∈ Profile.basic) → k = n) := by
  intro full base
  obtain ⟨k, hkn, hboth, hend⟩ := inStep_or_parts (x := full) rfl n
  have hlock : Lockstep full base k := .of_inStep hboth
  refine ⟨k, hkn, hlock, hend, ?_, ?_, ?_⟩
  · obtain rfl | ⟨op, -, -, hrefused⟩ := hend
    · exact hlock.output
    · exact hlock.output_of_error hkn hrefused
  · obtain ⟨i, rfl⟩ := Nat.exists_eq_add_of_le hkn
    rw [output_add]
    exact List.prefix_append _ _
  · intro hbasic
    rcases hkn.lt_or_eq with hlt | rfl
    · obtain rfl | ⟨op, hnot, hop, -⟩ := hend
      · rfl
      · exact absurd (hbasic k hlt op hop) hnot
    · rfl

end Machine

end EightBit
