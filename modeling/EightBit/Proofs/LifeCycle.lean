/-
# EightBit.Proofs.LifeCycle -- ready, running, halted

A machine is ready, then running, then halted, and never goes back. What a step does to the phase and to
the count of cycles can be told from its result: an executed `HLT` halts and so does every fault, and a
cycle is counted if it succeeds. That a sink refuses output is no fault of a cycle and halts nothing.

Steps and runs may be called in any order; whatever is called, the machine goes through its steps one
after the other, so what holds between one step and the next holds all along. Once it has halted, no
call does anything.
-/
import EightBit.Proofs.Calls

namespace EightBit

/-! ## Phases -/

/-- The phase that follows a phase. -/
inductive Phase.Next : Phase → Phase → Prop
  | begun : Next .ready .running
  | ended : Next .running .halted

/-- The phase `q` is `p`, or comes after it. -/
abbrev Phase.Forward : Phase → Phase → Prop := Relation.ReflTransGen Phase.Next

theorem Phase.forward_running {p : Phase} (h : p ≠ .halted) : p.Forward .running := by
  cases p with
  | ready => exact .single .begun
  | running => exact .refl
  | halted => exact absurd rfl h

theorem Phase.forward_halted (p : Phase) : p.Forward .halted := by
  cases p with
  | ready => exact (Relation.ReflTransGen.single .begun).tail .ended
  | running => exact .single .ended
  | halted => exact .refl

/-- `HLT` is the one instruction that halts. -/
theorem Opcode.effect_halts (op : Opcode) (a b : UInt8) (m : Machine) :
    (op.effect a b m).halts = decide (op = .hlt) := by
  cases op <;> rfl

/-! ## One step -/

/-- The phase after a cycle that succeeds. -/
theorem Cycle.phase {m m' : Machine} {s : Step} (h : Cycle m (.ok s) m') :
    m'.phase = if s.opcode? = some .hlt then .halted else .running := by
  cases h with
  | passed => rfl
  | @executed op =>
    show (if (m.entry.effectOf op).halts then Phase.halted else .running) = _
    rw [Machine.effectOf, Opcode.effect_halts]
    simp [Step.opcode?]

namespace Machine

/-- What a step at `y` does to the phase and to the count of cycles. -/
structure StepLaw (y : Machine) : Prop where
  phase_of_ok {s : Step} : y.step.1 = .ok s →
    y.step.2.phase = if s.opcode? = some .hlt then .halted else .running
  phase_of_error {f : Fault} : y.step.1 = .error f → y.step.2.phase = .halted
  cycles_of_ok {s : Step} : y.step.1 = .ok s → y.cycles.toNat < 2 ^ 64 - 1 →
    y.step.2.cycles.toNat = y.cycles.toNat + 1
  cycles_of_error {f : Fault} : y.step.1 = .error f → y.step.2.cycles = y.cycles

variable {m : Machine} {s : Step} {f : Fault}

theorem step_cycles_of_error (h : m.step.1 = .error f) : m.step.2.cycles = m.cycles := by
  rcases cycle_of_error h with hsame | hcycle
  · rw [hsame]
  · exact hcycle.of_error.2

theorem stepLaw (y : Machine) : StepLaw y where
  phase_of_ok h := (cycle_of_ok h).2.phase
  phase_of_error h := isHalted_iff.mp (isHalted_of_step_error h)
  cycles_of_ok h hlt := by
    have hone : y.cycles.toNat + 1 < 2 ^ 64 := by omega
    rw [(cycle_of_ok h).2.cycles, UInt64.toNat_add, UInt64.toNat_one, Nat.mod_eq_of_lt hone]
  cycles_of_error h := step_cycles_of_error h

/-- A step does not go back. -/
theorem step_forward (m : Machine) : m.phase.Forward m.step.2.phase := by
  cases hstep : m.step.1 with
  | error f =>
    rw [m.stepLaw.phase_of_error hstep]
    exact Phase.forward_halted _
  | ok s =>
    rw [m.stepLaw.phase_of_ok hstep]
    split
    · exact Phase.forward_halted _
    · have hm := (cycle_of_ok hstep).1
      exact Phase.forward_running fun h => Bool.false_ne_true (hm.symm.trans (isHalted_iff.mpr h))

/-! ## Many steps -/

theorem after_forward (m : Machine) {i j : Nat} (hij : i ≤ j) :
    (m.after i).phase.Forward (m.after j).phase := by
  induction j, hij using Nat.le_induction with
  | base => exact .refl
  | succ j _ ih =>
    rw [after_succ']
    exact ih.trans (m.after j).step_forward

theorem path_isChain (m : Machine) (k : Nat) :
    (m.path (k + 1)).IsChain fun y z => y.step.2 = z := by
  rw [path, List.isChain_map, List.isChain_range_succ]
  intro i _
  exact (m.after_succ' i).symm

theorem path_pairwise (m : Machine) (k : Nat) :
    (m.path k).Pairwise fun y z => y.phase.Forward z.phase := by
  rw [path, List.pairwise_map]
  exact List.pairwise_lt_range.imp fun h => m.after_forward h.le

/-- As long as the counter does not overflow, it counts the cycles that succeed. -/
theorem after_cycles (m : Machine) (k : Nat)
    (h : m.cycles.toNat + (completed (m.path k)).length < 2 ^ 64) :
    (m.after k).cycles.toNat = m.cycles.toNat + (completed (m.path k)).length := by
  induction k with
  | zero => rfl
  | succ k ih =>
    rw [path_concat] at h ⊢
    rw [after_succ']
    cases hstep : (m.after k).step.1 with
    | error f =>
      rw [completed_concat_of_error hstep] at h ⊢
      rw [step_cycles_of_error hstep, ih h]
    | ok s =>
      rw [completed_concat_of_ok hstep, List.length_append, List.length_singleton] at h ⊢
      have hbefore := ih (by omega)
      rw [(m.after k).stepLaw.cycles_of_ok hstep (by omega), hbefore, Nat.add_assoc]

/-! ## The end -/

/-- No call does anything to `x`: a step fails, and a run succeeds at once, has counted nothing, and has
left machine, sink and observer as they were. -/
structure Ended (x : Machine) : Prop where
  step : x.step = (.error .notRunning, x)
  run (sink : Sink) : x.run sink = ⟨.ok (), x, sink, ()⟩ ∧ (x.run sink).result x = .ok 0
  runLimited (limit : Nat) (sink : Sink) : x.runLimited limit sink = ⟨.ok (), x, sink, ()⟩
    ∧ (x.runLimited limit sink).result x = .ok 0
  runObserved {σ : Type} (observe : Observer σ) (sink : Sink) (seen : σ) :
    x.runObserved observe sink seen = ⟨.ok (), x, sink, seen⟩
      ∧ (x.runObserved observe sink seen).result x = .ok 0
  driven (later : List Drive) : x.driven later = x

theorem result_of_unmoved {σ : Type} (x : Machine) (sink : Sink) (seen : σ) :
    (⟨.ok (), x, sink, seen⟩ : Run σ).result x = .ok 0 := by
  show Except.ok (x.cycles - x.cycles) = _
  rw [sub_self]

theorem ended_of_halted {x : Machine} (h : x.isHalted = true) : Ended x := by
  have hrun {σ : Type} (observe : Observer σ) (n : Nat) (sink : Sink) (seen : σ) :
      x.runFor observe n sink seen = ⟨.ok (), x, sink, seen⟩
        ∧ (x.runFor observe n sink seen).result x = .ok 0 := by
    rw [runFor_of_halted h]
    exact ⟨rfl, x.result_of_unmoved sink seen⟩
  refine ⟨step_of_halted h, fun sink => hrun .., fun limit sink => hrun ..,
    fun observe sink seen => hrun .., ?_⟩
  intro later
  have hafter (k : Nat) : x.after k = x := by
    refine Function.iterate_fixed ?_ k
    rw [step_of_halted h]
  obtain ⟨k, hk, -⟩ := x.driven_eq_after later
  rw [hk, hafter]

/-- **The life of a machine.** Whatever steps and runs are called, the machines at which cycles are tried
and the machine in the end are each what the step at the one before leaves, from the first on; their
phases only ever go forward; each step does to phase and counter what its result says; and the counter
has gone up by the number of cycles that have succeeded. Once the machine has halted, nothing that is
called does anything. -/
theorem life_cycle (m : Machine) (drives : List Drive) :
    let x := m.driven drives
    let tried := m.tried (drives.map .drive)
    (tried ++ [x]).head? = some m
    ∧ (tried ++ [x]).IsChain (fun y z => y.step.2 = z)
    ∧ (tried ++ [x]).Pairwise (fun y z => y.phase.Forward z.phase)
    ∧ (∀ y ∈ tried ++ [x], StepLaw y)
    ∧ (m.cycles.toNat + (completed tried).length < 2 ^ 64 →
        x.cycles.toNat = m.cycles.toNat + (completed tried).length)
    ∧ (x.phase = .halted → Ended x) := by
  intro x tried
  obtain ⟨k, hx, htried⟩ := m.driven_eq_after drives
  have hpath : tried ++ [x] = m.path (k + 1) := by
    rw [path_concat, ← hx, ← htried]
  refine ⟨?_, ?_, ?_, fun y _ => y.stepLaw, ?_, fun h => ended_of_halted (isHalted_iff.mpr h)⟩
  · rw [hpath, path_succ, List.head?_cons]
  · rw [hpath]
    exact m.path_isChain k
  · rw [hpath]
    exact m.path_pairwise (k + 1)
  · rw [show x = _ from hx, show tried = _ from htried]
    exact m.after_cycles k

/-- A new machine that prints a number and then halts. -/
def shortLived : Machine :=
  { powerOn {} with mem := (Memory.blank.setCell 0 Opcode.prn.byte).setCell 2 Opcode.hlt.byte }

/-- The first run stops because its sink has no room, and the second goes on to the end. -/
theorem life_cycle_shortLived :
    let drives := [Drive.run (.withRoom 0), .run .unbounded, .step]
    let x := shortLived.driven drives
    (shortLived.run (.withRoom 0)).outcome = .error (.output .full)
      ∧ (shortLived.tried (drives.map .drive)).map Machine.phase = [.ready, .running, .halted]
      ∧ x.phase = .halted ∧ x.cycles.toNat = 2 ∧ Ended x := by
  intro drives x
  have hphase : x.phase = .halted := by decide +kernel
  have hdone : (completed (shortLived.tried (drives.map .drive))).length = 2 := by decide +kernel
  obtain ⟨-, -, -, -, hcycles, hended⟩ := life_cycle shortLived drives
  rw [hdone] at hcycles
  exact ⟨by decide +kernel, by decide +kernel, hphase, hcycles (by decide), hended hphase⟩

end Machine

end EightBit
