/-
# EightBit.Proofs.StraightLine -- straight-line code comes to an end

A cycle **turns** if it delivers an interrupt or executes an instruction that places the program counter
itself. Any other cycle that succeeds moves the counter up: past its instruction, or past the byte that
it has passed over, and it has started in memory. So the distance from the counter to the end of memory
goes down with every such cycle, whatever the cells hold and whoever has written them; nothing is asked
of the code but that it does not turn.

That is a bound on stretches of successful cycles. On a machine that is stepped until it halts it is a
bound on the number of steps: past memory there is no cell to fetch from, so the last of them fails, if
no `HLT` has come before.
-/
import EightBit.Proofs.Conformance
import EightBit.Proofs.LifeCycle

namespace EightBit

open RegisterIndex (named)

/-! ## Cycles that do not turn -/

namespace Machine

/-- Whether the step at `m` delivers an interrupt, or executes an instruction that places the program
counter itself. -/
def turns (m : Machine) : Bool :=
  m.delivered?.isSome || m.executed?.any fun op => placesCounter op.byte

variable {m m' : Machine} {s : Step}

/-- **A cycle that does not turn moves on.** It starts in memory, and leaves the counter further up. -/
theorem counter_lt_of_not_turns (hstep : m.step = (.ok s, m')) (h : m.turns = false) :
    m.regs.pc ≤ 255 ∧ m.regs.pc < m'.regs.pc := by
  rw [turns, Bool.or_eq_false_iff, Option.isSome_eq_false_iff, Option.isNone_iff_eq_none] at h
  obtain ⟨hquiet, honward⟩ := h
  obtain ⟨hm, hcycle⟩ := cycle_of_step hstep
  -- nothing is delivered, so the cycle fetches where the counter stands
  have hentry : m.entry = m := (entry_eq_start hm).trans (start_of_none hquiet)
  rw [executed?, hstep] at honward
  cases hcycle with
  | passed hpc =>
    refine ⟨hpc, ?_⟩
    show m.regs.pc < m.entry.regs.pc + 1 + operandCount m.entry.code
    rw [hentry]
    omega
  | @executed op hpc =>
    refine ⟨hpc, ?_⟩
    show m.regs.pc
      < (m.entry.effectOf op).target.elim (m.entry.regs.pc + 1 + op.declaredArity) UInt8.toNat
    rw [effectOf, Opcode.effect_target_eq_none (Opcode.transfers_of_not_places honward _),
      Option.elim_none, hentry]
    omega

end Machine

/-! ## Stretches of cycles -/

namespace Trace

variable {m last : Machine} {t : List (Machine × Step)}

/-- The program counters before each cycle of a trace, and after the last of them. -/
def counters (t : List (Machine × Step)) (last : Machine) : List Nat :=
  t.map (fun c => c.1.regs.pc) ++ [last.regs.pc]

theorem head?_counters (ht : Trace m t last) : (counters t last).head? = some m.regs.pc := by
  cases ht <;> rfl

/-- A trace that does not turn goes up through memory. -/
theorem isChain_counters (ht : Trace m t last) (h : ∀ c ∈ t, c.1.turns = false) :
    (counters t last).IsChain (· < ·) := by
  induction ht with
  | nil => simp [counters]
  | @cons m m₁ last s t hstep htail ih =>
    rw [List.forall_mem_cons] at h
    obtain ⟨-, hlt⟩ := Machine.counter_lt_of_not_turns hstep h.1
    show (m.regs.pc :: counters t last).IsChain (· < ·)
    rw [List.isChain_cons, htail.head?_counters]
    exact ⟨by simpa using hlt, ih h.2⟩

/-- **The measure.** A trace that does not turn has no more cycles than there are cells from where it
starts to the end of memory. -/
theorem length_le (ht : Trace m t last) (h : ∀ c ∈ t, c.1.turns = false) :
    t.length ≤ 256 - m.regs.pc := by
  induction ht with
  | nil => exact Nat.zero_le _
  | cons hstep _ ih =>
    rw [List.forall_mem_cons] at h
    obtain ⟨hin, hlt⟩ := Machine.counter_lt_of_not_turns hstep h.1
    have hrest := ih h.2
    rw [List.length_cons]
    omega

/-- A stretch that is longer than memory turns somewhere. -/
theorem exists_turns (ht : Trace m t last) {w : List (Machine × Step)} (hw : w <:+: t)
    (hlong : 256 < w.length) : ∃ c ∈ w, c.1.turns = true := by
  obtain ⟨t₁, t₂, rfl⟩ := hw
  obtain ⟨_, hfirst, -⟩ := ht.of_append
  obtain ⟨_, -, hmid⟩ := hfirst.of_append
  by_contra hnone
  have hle := hmid.length_le (by simpa using hnone)
  omega

end Trace

/-- A sink without a bound refuses nothing, and stays without one. -/
theorem Sink.eq_ok_of_write {sink sink' : Sink} {bytes : List UInt8} {r : Except SinkError Unit}
    (hwrite : sink.write bytes = (r, sink')) (hroom : sink.room = none) :
    r = .ok () ∧ sink'.room = none := by
  rw [Sink.write, hroom] at hwrite
  cases hwrite
  exact ⟨rfl, rfl⟩

/-! ## Steps until the machine halts -/

namespace Machine

/-- The steps from `m` come to an end after `k` that go on: these succeed and execute no `HLT`, and the
one after them finds the machine running, executes `HLT` or fails, and leaves it halted. -/
structure EndsAfter (m : Machine) (k : Nat) : Prop where
  before : ∀ i < k, ∃ s, (m.after i).step.1 = .ok s ∧ s.opcode? ≠ some .hlt
  running : (m.after k).isHalted = false
  ending : (m.after k).executed? = some .hlt ∨ ∃ f, (m.after k).step.1 = .error f
  halted : (m.after (k + 1)).isHalted = true

variable {m : Machine} {s : Step} {k n : Nat}

theorem EndsAfter.of_error {f : Fault} (hm : m.isHalted = false) (h : m.step.1 = .error f) :
    EndsAfter m 0 where
  before i hi := absurd hi (Nat.not_lt_zero i)
  running := hm
  ending := .inr ⟨f, h⟩
  halted := isHalted_of_step_error h

theorem EndsAfter.of_hlt (h : m.step.1 = .ok s) (hs : s.opcode? = some .hlt) : EndsAfter m 0 where
  before i hi := absurd hi (Nat.not_lt_zero i)
  running := (cycle_of_ok h).1
  ending := by
    left
    show m.executed? = _
    rw [executed?, h]
    exact hs
  halted := by
    show m.step.2.isHalted = true
    rw [isHalted_iff, m.stepLaw.phase_of_ok h, if_pos hs]

theorem EndsAfter.succ (h : m.step.1 = .ok s) (hs : s.opcode? ≠ some .hlt)
    (hrest : EndsAfter m.step.2 k) : EndsAfter m (k + 1) where
  before i hi := by
    cases i with
    | zero => exact ⟨s, h, hs⟩
    | succ i => exact hrest.before i (Nat.lt_of_succ_lt_succ hi)
  running := hrest.running
  ending := hrest.ending
  halted := hrest.halted

/-- A machine whose steps do not turn comes to an end before it has gone through memory. -/
theorem exists_endsAfter (hm : m.isHalted = false) (hn : 256 - m.regs.pc ≤ n)
    (h : ∀ i ≤ n, (m.after i).turns = false) : ∃ k ≤ n, EndsAfter m k := by
  -- the induction is on what is left of memory
  induction n generalizing m with
  | zero =>
    have hpast : 255 < m.regs.pc := by omega
    exact ⟨0, le_rfl, .of_error hm (congrArg Prod.fst (step_of_lt hm hpast))⟩
  | succ n ih =>
    cases hstep : m.step.1 with
    | error f => exact ⟨0, Nat.zero_le _, .of_error hm hstep⟩
    | ok s =>
      by_cases hs : s.opcode? = some .hlt
      · exact ⟨0, Nat.zero_le _, .of_hlt hstep hs⟩
      have hwhole : m.step = (.ok s, m.step.2) := Prod.ext hstep rfl
      obtain ⟨hin, hlt⟩ := counter_lt_of_not_turns hwhole (h 0 n.succ.zero_le)
      have hrunning : m.step.2.isHalted = false := by
        rw [isHalted, m.stepLaw.phase_of_ok hstep, if_neg hs]
        rfl
      have hleft : 256 - m.step.2.regs.pc ≤ n := by omega
      obtain ⟨k, hk, hends⟩ := ih hrunning hleft fun i hi => h (i + 1) (Nat.succ_le_succ hi)
      exact ⟨k + 1, Nat.succ_le_succ hk, hends.succ hstep hs⟩

/-! ## Runs -/

/-- How a run from `m` that may make `n` cycles has ended, where the steps from `m` end after `k` that go
on: where the steps end, with the fault of the last of them or without one; or sooner, because `n` is
used up, or because a sink with a bounded room has refused output. -/
inductive RunEnds {σ : Type} (m : Machine) (k n : Nat) (sink : Sink) (r : Run σ) : Prop
  | steps (hn : k < n) (hmachine : r.machine = m.after (k + 1))
    (houtcome : r.outcome = (m.after k).step.1.map fun _ => ())
  | allowance (hn : n ≤ k) (hmachine : r.machine = m.after n) (houtcome : r.outcome = .ok ())
  | refused (hroom : sink.room ≠ none) {j : Nat} (hj : j ≤ k) (hmachine : r.machine = m.after (j + 1))
    {cause : SinkError} (houtcome : r.outcome = .error (.output cause))

/-- A run that goes on after its first step ends as the rest of it does. -/
theorem RunEnds.succ {σ : Type} {sink sink' : Sink} {r : Run σ} (h : RunEnds m.step.2 k n sink' r)
    (hroom : sink.room = none → sink'.room = none) : RunEnds m (k + 1) (n + 1) sink r := by
  cases h with
  | steps hn hmachine houtcome => exact .steps (Nat.succ_lt_succ hn) hmachine houtcome
  | allowance hn hmachine houtcome => exact .allowance (Nat.succ_le_succ hn) hmachine houtcome
  | refused hbounded hj hmachine houtcome =>
    exact .refused (fun hnone => hbounded (hroom hnone)) (Nat.succ_le_succ hj) hmachine houtcome

/-- **A run ends where the steps end**, if nothing stops it before. -/
theorem EndsAfter.runEnds {σ : Type} (h : EndsAfter m k) (observe : Observer σ) (n : Nat) (sink : Sink)
    (seen : σ) : RunEnds m k n sink (m.runFor observe n sink seen) := by
  -- the induction is on the steps; the run makes one of them in each of its cycles
  induction k generalizing m n sink seen with
  | zero =>
    have hm : m.isHalted = false := h.running
    have hhalted : m.step.2.isHalted = true := h.halted
    cases n with
    | zero => exact .allowance le_rfl rfl rfl
    | succ n =>
      cases hstep : m.step.1 with
      | error f =>
        rw [runFor_of_error hm (Prod.ext hstep rfl)]
        exact .steps n.succ_pos rfl (congrArg (Except.map fun _ => ()) hstep).symm
      | ok s =>
        rw [runFor_of_ok (Prod.ext hstep rfl)]
        rcases hwrite : sink.write s.bytes with ⟨cause | _, sink'⟩
        · refine .refused ?_ le_rfl rfl rfl
          intro hroom
          cases (Sink.eq_ok_of_write hwrite hroom).1
        · -- the machine is halted, so the run ends by itself
          show RunEnds m 0 (n + 1) sink (m.step.2.runFor observe n sink' (observe.see seen m))
          rw [runFor_of_halted hhalted]
          exact .steps n.succ_pos rfl (congrArg (Except.map fun _ => ()) hstep).symm
  | succ k ih =>
    obtain ⟨s, hs, -⟩ := h.before 0 k.succ_pos
    have hstep : m.step = (.ok s, m.step.2) := Prod.ext hs rfl
    have hrest : EndsAfter m.step.2 k :=
      ⟨fun i hi => h.before (i + 1) (Nat.succ_lt_succ hi), h.running, h.ending, h.halted⟩
    cases n with
    | zero => exact .allowance (Nat.zero_le _) rfl rfl
    | succ n =>
      rw [runFor_of_ok hstep]
      rcases hwrite : sink.write s.bytes with ⟨cause | _, sink'⟩
      · refine .refused ?_ (Nat.zero_le _) rfl rfl
        intro hroom
        cases (Sink.eq_ok_of_write hwrite hroom).1
      · exact (ih hrest n sink' _).succ fun hroom => (Sink.eq_ok_of_write hwrite hroom).2

/-- **Straight-line code cannot run forever.** Cycles in a row that do not turn are no more than there
are cells from the program counter on, and the counter goes up from each to the next; so in every run a
stretch of 257 cycles turns somewhere. A machine whose steps do not turn executes `HLT` or fails after no
more steps than there are cells left, and ends there. So does a run of it without a cycle limit, unless
its sink refuses output first, or the 64-bit counter cannot count that far. -/
theorem straight_line_ends (m : Machine) :
    (∀ t last, Trace m t last →
        ((∀ c ∈ t, c.1.turns = false) →
          t.length ≤ 256 - m.regs.pc ∧ (Trace.counters t last).Pairwise (· < ·))
        ∧ ∀ w, w <:+: t → w.length = 257 → ∃ c ∈ w, c.1.turns = true)
    ∧ (m.isHalted = false → (∀ i ≤ 256 - m.regs.pc, (m.after i).turns = false) →
        ∃ k ≤ 256 - m.regs.pc, EndsAfter m k
          ∧ (m.config.maxCycles = none →
              ∀ (σ : Type) (observe : Observer σ) (sink : Sink) (seen : σ),
                RunEnds m k (maxCount - m.cycles.toNat) sink
                  (m.runObserved observe sink seen))) := by
  constructor
  · intro t last ht
    refine ⟨fun h => ⟨ht.length_le h, (ht.isChain_counters h).pairwise⟩, ?_⟩
    intro w hw hlong
    exact ht.exists_turns hw (by omega)
  · intro hm hturns
    obtain ⟨k, hk, hends⟩ := exists_endsAfter hm le_rfl hturns
    refine ⟨k, hk, hends, ?_⟩
    intro hlimit σ observe sink seen
    have hallowance : m.allowance m.configuredLimit = maxCount - m.cycles.toNat := by
      simp only [configuredLimit, hlimit, allowance]
      omega
    rw [runObserved, hallowance]
    exact hends.runEnds observe _ sink seen

/-- A machine near the end of memory that stores a byte in its own way: the byte names nothing and
announces three operands, so the machine passes over it and is past memory then. -/
def runningOut : Machine :=
  { powerOn {} with
    regs :=
      { (Registers.powerOn.set (named 1) 0xFD).set (named 2) 0xFF with pc := 0xFA }
    mem := ((Memory.blank.setCell 0xFA Opcode.st.byte).setCell 0xFB 1).setCell 0xFC 2 }

theorem straight_line_ends_runningOut :
    runningOut.step.1 = .ok (.executed 0xFA .st none)
      ∧ (runningOut.after 1).step.1 = .ok (.skipped 0xFD 0xFF)
      ∧ EndsAfter runningOut 2
      ∧ (runningOut.run Sink.unbounded).outcome = .error (.memory ⟨0x101⟩)
      ∧ (Trace.counters [(runningOut, .executed 0xFA .st none),
            (runningOut.after 1, .skipped 0xFD 0xFF)] (runningOut.after 2)).Pairwise (· < ·) := by
  have hstore : runningOut.step.1 = .ok (.executed 0xFA .st none) := by decide +kernel
  have hskip : (runningOut.after 1).step.1 = .ok (.skipped 0xFD 0xFF) := by decide +kernel
  have hfault : (runningOut.after 2).step.1 = .error (.memory ⟨0x101⟩) := by decide +kernel
  obtain ⟨hstretch, hend⟩ := straight_line_ends runningOut
  obtain ⟨k, hk, hends, hrun⟩ := hend (by decide) (by decide +kernel)
  obtain rfl : k = 2 := by
    rcases Nat.lt_trichotomy k 2 with hlt | htwo | hgt
    · have hgoing : ∀ k < 2, (runningOut.after (k + 1)).isHalted = false := by decide +kernel
      have hhalted := hends.halted
      rw [hgoing k hlt] at hhalted
      cases hhalted
    · exact htwo
    · obtain ⟨s, hs, -⟩ := hends.before 2 hgt
      cases hfault.symm.trans hs
  have ht := Trace.cons (Prod.ext hstore rfl) (.cons (Prod.ext hskip rfl) (.nil _))
  obtain ⟨hgoes, -⟩ := hstretch _ _ ht
  refine ⟨hstore, hskip, hends, ?_, (hgoes (by decide +kernel)).2⟩
  cases hrun rfl Unit Observer.blind Sink.unbounded () with
  | steps _ _ houtcome => rwa [hfault] at houtcome
  | allowance hn => exact absurd hn (by decide)
  | refused hroom => exact absurd rfl hroom

end Machine

end EightBit
