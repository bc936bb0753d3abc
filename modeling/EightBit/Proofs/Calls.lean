/-
# EightBit.Proofs.Calls -- what can be asked of a machine, in any order

A machine is used through calls: steps and runs, which have it cycle; a program loaded, an operation of
the arithmetic unit, a register or a cell accessed, a field assigned from outside. Here they are put in
layers: `Drive` is what has a machine cycle and does nothing else, and `Call` is all of this but an
assignment of the program counter.

Whatever is asked of a machine only by way of driving it, the machine ends where a number of steps would
have taken it, and it has tried the cycles of these steps, in their order and no others. So a fact about
steps is a fact about steps and runs in any order, with any sinks and any observers.
-/
import EightBit.Proofs.Faults
import EightBit.Proofs.Steps

namespace EightBit

/-! ## Calls -/

/-- A call that has a machine cycle. -/
inductive Drive : Type 1
  | step
  | run (sink : Sink)
  | runLimited (limit : Nat) (sink : Sink)
  | runObserved {σ : Type} (observe : Observer σ) (sink : Sink) (seen : σ)

/-- An assignment of one of a machine's fields from outside, the program counter apart. -/
inductive Assignment
  | flags (fl : Flags)
  | interrupts (enabled : Bool)
  | phase (phase : Phase)
  | cycles (cycles : UInt64)

/-- A call of a machine. -/
inductive Call : Type 1
  | drive (d : Drive)
  | load (program : List UInt8)
  | alu (op : AluOp) (a b : UInt8)
  | writeRegister (r value : UInt8)
  | read (address : Nat)
  | write (address : Nat) (value : UInt8)
  | assign (a : Assignment)
  | reset

/-- The observer that keeps the machines at which cycles are tried, in order. -/
def Observer.record : Observer (List Machine) := fun seen m _ _ => seen ++ [m]

namespace Machine

/-- The machine after a call that has it cycle, whatever that call returns. -/
def drive (m : Machine) : Drive → Machine
  | .step => m.step.2
  | .run sink => (m.run sink).machine
  | .runLimited limit sink => (m.runLimited limit sink).machine
  | .runObserved observe sink seen => (m.runObserved observe sink seen).machine

/-- The machine after an assignment. -/
def assign (m : Machine) : Assignment → Machine
  | .flags fl => { m with regs := { m.regs with fl } }
  | .interrupts enabled => { m with regs := { m.regs with interruptsEnabled := enabled } }
  | .phase phase => { m with phase }
  | .cycles cycles => { m with cycles }

/-- The machine after an access that may be refused, and changes nothing if it is. -/
def orSame {ε : Type} (m : Machine) : Except ε Machine → Machine
  | .ok m' => m'
  | .error _ => m

/-- The machine after a call, whatever that call returns. -/
def call (m : Machine) : Call → Machine
  | .drive d => m.drive d
  | .load program => m.orSame (m.load program)
  | .alu op a b => (m.alu op a b).2
  | .writeRegister r value => m.orSame ((RegisterIndex.ofByte r).map fun i => m.setRegister i value)
  | .read address => m.orSame ((m.mem.read address).map fun r => { m with mem := r.2 })
  | .write address value => m.orSame ((m.mem.write address value).map fun mem => { m with mem })
  | .assign a => m.assign a
  | .reset => m.reset

/-- The machine after some calls. -/
def called (m : Machine) (calls : List Call) : Machine := calls.foldl call m

/-- The machine after some calls that have it cycle. -/
def driven (m : Machine) (drives : List Drive) : Machine := drives.foldl drive m

/-! ## Cycles that are tried -/

/-- The machines at which a call tries cycles, in order. -/
def attempts (m : Machine) : Call → List Machine
  | .drive .step => [m]
  | .drive (.run sink) => (m.runObserved Observer.record sink []).observed
  | .drive (.runLimited limit sink) =>
    (m.runFor Observer.record (m.allowance limit) sink []).observed
  | .drive (.runObserved _ sink _) => (m.runObserved Observer.record sink []).observed
  | _ => []

/-- The machines at which some calls try cycles, in order. -/
def tried (m : Machine) : List Call → List Machine
  | [] => []
  | c :: calls => m.attempts c ++ (m.call c).tried calls

/-- The machines before each of the first `k` steps. -/
def path (m : Machine) (k : Nat) : List Machine := (List.range k).map m.after

theorem after_mem_path (m : Machine) {i k : Nat} (h : i < k) : m.after i ∈ m.path k :=
  List.mem_map_of_mem (List.mem_range.mpr h)

theorem path_succ (m : Machine) (k : Nat) : m.path (k + 1) = m :: m.step.2.path k := by
  rw [path, List.range_succ_eq_map, List.map_cons, List.map_map]
  rfl

theorem path_add (m : Machine) (k i : Nat) : m.path (k + i) = m.path k ++ (m.after k).path i := by
  induction k generalizing m with
  | zero =>
    rw [Nat.zero_add]
    rfl
  | succ k ih =>
    rw [Nat.succ_add, path_succ, ih, path_succ]
    rfl

theorem path_concat (m : Machine) (k : Nat) : m.path (k + 1) = m.path k ++ [m.after k] :=
  m.path_add k 1

theorem after_add (m : Machine) (k i : Nat) : m.after (k + i) = (m.after k).after i := by
  induction k generalizing m with
  | zero =>
    rw [Nat.zero_add]
    rfl
  | succ k ih => rw [Nat.succ_add, after_succ, ih, after_succ]

/-- The cycles that succeed of those tried at some machines, in order. -/
def completed (xs : List Machine) : List Step := xs.filterMap fun x => x.step.1.toOption

theorem completed_concat_of_ok {m : Machine} {s : Step} (h : m.step.1 = .ok s)
    (xs : List Machine) : completed (xs ++ [m]) = completed xs ++ [s] := by
  simp [completed, h, Except.toOption]

theorem completed_concat_of_error {m : Machine} {f : Fault} (h : m.step.1 = .error f)
    (xs : List Machine) : completed (xs ++ [m]) = completed xs := by
  simp [completed, h, Except.toOption]

/-! ## Drives are steps -/

/-- A run ends where some of its steps lead, and an observer sees the machine before each of them.
How many they are depends on the sink, and not on the observer. -/
theorem runFor_steps (m : Machine) (n : Nat) (sink : Sink) :
    ∃ k ≤ n, ∀ (σ : Type) (observe : Observer σ) (seen : σ),
      (m.runFor observe n sink seen).machine = m.after k
      ∧ (m.runFor observe n sink seen).observed = (m.path k).foldl observe.see seen := by
  induction n generalizing m sink with
  | zero => exact ⟨0, le_rfl, fun σ observe seen => ⟨rfl, rfl⟩⟩
  | succ n ih =>
    cases hm : m.isHalted with
    | true =>
      refine ⟨0, Nat.zero_le _, ?_⟩
      intro σ observe seen
      rw [runFor_of_halted hm]
      exact ⟨rfl, rfl⟩
    | false =>
      rcases hstep : m.step with ⟨r, m₁⟩
      have hone : m.after 1 = m₁ := congrArg Prod.snd hstep
      cases r with
      | error f =>
        refine ⟨1, Nat.succ_pos n, ?_⟩
        intro σ observe seen
        rw [runFor_of_error hm hstep]
        exact ⟨hone.symm, rfl⟩
      | ok s =>
        rcases hwrite : sink.write s.bytes with ⟨r, sink₁⟩
        cases r with
        | error cause =>
          -- the cycle is complete, but its output was not taken
          refine ⟨1, Nat.succ_pos n, ?_⟩
          intro σ observe seen
          rw [runFor_of_ok hstep, hwrite]
          exact ⟨hone.symm, rfl⟩
        | ok =>
          obtain ⟨k, hk, hrest⟩ := ih m₁ sink₁
          refine ⟨k + 1, Nat.succ_le_succ hk, ?_⟩
          intro σ observe seen
          obtain ⟨hmachine, hobserved⟩ := hrest σ observe (observe.see seen m)
          rw [runFor_of_ok hstep, hwrite, path_succ, hstep, after_succ, hstep]
          exact ⟨hmachine, hobserved⟩

theorem foldl_record (xs seen : List Machine) :
    xs.foldl Observer.record.see seen = seen ++ xs := by
  show xs.foldl (fun seen m => seen ++ [m]) seen = _
  rw [List.foldl_append_eq_append, ← List.flatMap_def, List.flatMap_singleton']

/-- A call that has the machine cycle is some steps of it, and these are the cycles it tries. -/
theorem drive_eq_after (m : Machine) (d : Drive) :
    ∃ k, m.drive d = m.after k ∧ m.attempts (.drive d) = m.path k := by
  have hrecorded {k : Nat} : (m.path k).foldl Observer.record.see [] = m.path k := foldl_record _ []
  cases d with
  | step => exact ⟨1, rfl, rfl⟩
  | run sink =>
    obtain ⟨k, -, hk⟩ := m.runFor_steps (m.allowance m.configuredLimit) sink
    exact ⟨k, (hk _ _ ()).1, (hk _ _ []).2.trans hrecorded⟩
  | runLimited limit sink =>
    obtain ⟨k, -, hk⟩ := m.runFor_steps (m.allowance limit) sink
    exact ⟨k, (hk _ _ ()).1, (hk _ _ []).2.trans hrecorded⟩
  | runObserved observe sink seen =>
    obtain ⟨k, -, hk⟩ := m.runFor_steps (m.allowance m.configuredLimit) sink
    exact ⟨k, (hk _ observe seen).1, (hk _ _ []).2.trans hrecorded⟩

/-- **Driving a machine is stepping it.** After any calls that have it cycle, a machine is where some
number of steps lead, and the cycles tried are those of these steps. -/
theorem driven_eq_after (m : Machine) (drives : List Drive) :
    ∃ k, m.driven drives = m.after k ∧ m.tried (drives.map .drive) = m.path k := by
  induction drives generalizing m with
  | nil => exact ⟨0, rfl, rfl⟩
  | cons d drives ih =>
    obtain ⟨k, hmachine, hattempts⟩ := m.drive_eq_after d
    obtain ⟨i, hrest, htried⟩ := ih (m.drive d)
    refine ⟨k + i, ?_, ?_⟩
    · rw [after_add, ← hmachine]
      exact hrest
    · rw [path_add, ← hattempts, ← hmachine, ← htried]
      rfl

/-! ## The other calls -/

/-- The machine `m'` stands where `m` stands, with the same opcode fetched last and the same
configuration. -/
structure Aside (m m' : Machine) : Prop where
  counter : m'.regs.pc = m.regs.pc
  instruction : m'.regs.ir = m.regs.ir
  config : m'.config = m.config

variable {m : Machine}

theorem aside_orSame {ε α : Type} (r : Except ε α) {f : α → Machine} (h : ∀ x, Aside m (f x)) :
    Aside m (m.orSame (r.map f)) := by
  cases r with
  | error => exact ⟨rfl, rfl, rfl⟩
  | ok x => exact h x

theorem aside_alu (op : AluOp) (a b : UInt8) : Aside m (m.alu op a b).2 := by
  rw [Machine.alu, Exec.run_runAlu]
  by_cases ha : 7 < a.toNat
  · rw [if_pos ha]
    exact ⟨rfl, rfl, rfl⟩
  rw [if_neg ha]
  by_cases hb : op.isBinary = true ∧ 7 < b.toNat
  · rw [if_pos hb]
    exact ⟨rfl, rfl, rfl⟩
  rw [if_neg hb]
  generalize op.apply _ _ = result
  cases result with
  | error cause => exact ⟨rfl, rfl, rfl⟩
  | ok out => cases out <;> exact ⟨rfl, rfl, rfl⟩

/-- The three ways of a call: the machine that it leaves, and the machines at which it tries cycles. -/
inductive Outcome (m : Machine) : Call → Machine → List Machine → Prop
  /-- The machine is stepped. -/
  | cycled (d : Drive) (k : Nat) : Outcome m (.drive d) (m.after k) (m.path k)
  | reset : Outcome m .reset m.reset []
  /-- Something else about the machine is looked at or changed. -/
  | aside {c : Call} {m' : Machine} (h : Aside m m') : Outcome m c m' []

theorem call_spec (m : Machine) (c : Call) : Outcome m c (m.call c) (m.attempts c) := by
  cases c with
  | drive d =>
    obtain ⟨k, hmachine, hattempts⟩ := m.drive_eq_after d
    rw [show m.call (.drive d) = _ from hmachine, hattempts]
    exact .cycled d k
  | reset => exact .reset
  | load program => exact .aside (aside_orSame (m.mem.load program) fun _ => ⟨rfl, rfl, rfl⟩)
  | writeRegister r value => exact .aside (aside_orSame _ fun _ => ⟨rfl, rfl, rfl⟩)
  | read address => exact .aside (aside_orSame _ fun _ => ⟨rfl, rfl, rfl⟩)
  | write address value => exact .aside (aside_orSame _ fun _ => ⟨rfl, rfl, rfl⟩)
  | alu op a b => exact .aside (aside_alu op a b)
  | assign a => cases a <;> exact .aside ⟨rfl, rfl, rfl⟩

/-- No call changes the configuration. -/
theorem call_config (m : Machine) (c : Call) : (m.call c).config = m.config := by
  have hcall := m.call_spec c
  generalize m.call c = m' at hcall ⊢
  generalize m.attempts c = xs at hcall
  cases hcall with
  | cycled => exact m.after_config _
  | reset => rfl
  | aside h => exact h.config

/-! ## Invariants -/

/-- What a step keeps that is then recorded as tried, any number of steps keeps. -/
theorem after_induction {P : Machine → List Machine → Prop}
    (hstep : ∀ m xs, P m xs → P m.step.2 (xs ++ [m])) {m : Machine} {xs : List Machine} (h : P m xs)
    (k : Nat) : P (m.after k) (xs ++ m.path k) := by
  induction k generalizing m xs with
  | zero => rwa [show m.path 0 = [] from rfl, List.append_nil]
  | succ k ih =>
    have hrest := ih (hstep m xs h)
    rwa [List.append_assoc, List.singleton_append, ← path_succ] at hrest

/-- **Invariants of calls.** A property of a machine and of the cycles tried so far holds after any calls
if it holds before them and is kept by a step, which is then recorded as tried, by whatever leaves the
machine standing, and by a reset if there is one among the calls. -/
theorem called_induction {P : Machine → List Machine → Prop} {calls : List Call}
    (hstep : ∀ m xs, P m xs → P m.step.2 (xs ++ [m]))
    (haside : ∀ m m' xs, Aside m m' → P m xs → P m' xs)
    (hreset : .reset ∈ calls → ∀ m xs, P m xs → P m.reset xs) {m : Machine} {xs : List Machine}
    (h : P m xs) : P (m.called calls) (xs ++ m.tried calls) := by
  induction calls generalizing m xs with
  | nil => rwa [show m.tried [] = [] from rfl, List.append_nil]
  | cons c calls ih =>
    have hcall : P (m.call c) (xs ++ m.attempts c) := by
      have hspec := m.call_spec c
      generalize m.call c = m' at hspec ⊢
      generalize m.attempts c = ys at hspec ⊢
      cases hspec with
      | cycled d k => exact after_induction hstep h k
      | reset =>
        rw [List.append_nil]
        exact hreset List.mem_cons_self m xs h
      | aside hm' =>
        rw [List.append_nil]
        exact haside m m' xs hm' h
    have hrest := ih (fun hmem => hreset (List.mem_cons_of_mem c hmem)) hcall
    rwa [List.append_assoc] at hrest

end Machine

end EightBit
