/-
# EightBit.Proofs.Run -- what a run of cycles is

A run tries cycles in turn. Here it is taken apart into what it does **to the machine**, which is a
trace of cycles that succeed and one way of ending, and what it does **to the sink**, which is to write
the output of these cycles in their order. `Course` is the first half: it mentions no sink and no
observer, so neither of them can have a say in it.

The limit of a run counts cycles, but the program only knows its cycle counter, a 64-bit word. That the
two agree, that the counter does not overflow and that a run may be cut in two, all follow from one
fact about the course: each of its cycles is counted once.
-/
import EightBit.Machine.Run
import EightBit.Proofs.Trace

namespace EightBit

/-! ## Output -/

/-- The bytes that a step writes to the console. -/
def Step.bytes (s : Step) : List UInt8 := s.output.elim [] Output.bytes

/-- The bytes that cycles write to the console, in the order of the cycles. -/
def printed (t : List (Machine × Step)) : List UInt8 := t.flatMap fun c => c.2.bytes

theorem printed_append (t₁ t₂ : List (Machine × Step)) :
    printed (t₁ ++ t₂) = printed t₁ ++ printed t₂ :=
  List.flatMap_append

theorem printed_singleton (x : Machine) (s : Step) : printed [(x, s)] = s.bytes :=
  List.append_nil _

theorem printed_concat (t : List (Machine × Step)) (x : Machine) (s : Step) :
    printed (t ++ [(x, s)]) = printed t ++ s.bytes := by
  rw [printed_append, printed_singleton]

namespace Sink

theorem write_nil (s : Sink) : s.write [] = (.ok (), s) := by
  obtain ⟨room, written⟩ := s
  cases room with
  | none => simp [write]
  | some room => simp [write]

theorem write_of_unbounded (written : Array UInt8) (bytes : List UInt8) :
    write ⟨none, written⟩ bytes = (.ok (), ⟨none, written ++ bytes⟩) := rfl

theorem write_unbounded (bytes : List UInt8) :
    unbounded.write bytes = (.ok (), ⟨none, bytes.toArray⟩) := by
  rw [unbounded, write_of_unbounded, List.toArray_appendList, List.nil_append]

/-- Writing in two parts is writing the whole, and the second part is not tried if the first is
refused. -/
theorem write_append (s : Sink) (xs ys : List UInt8) :
    s.write (xs ++ ys) = match s.write xs with
      | (.ok (), s) => s.write ys
      | (.error cause, s) => (.error cause, s) := by
  obtain ⟨room, written⟩ := s
  have hassoc : ∀ zs : List UInt8, written ++ (xs ++ zs) = written ++ xs ++ zs := by
    intro zs
    exact Array.ext' (by simp)
  cases room with
  | none => simp only [write_of_unbounded, hassoc]
  | some room =>
    rcases Nat.lt_or_ge room xs.length with h | h
    · have hall : ¬ (xs ++ ys).length ≤ room := by
        rw [List.length_append]
        omega
      simp only [write, if_neg hall, if_neg (Nat.not_le.mpr h),
        List.take_append_of_le_length h.le]
      rw [List.length_append, Nat.sub_eq_zero_of_le (by omega), Nat.sub_eq_zero_of_le (by omega)]
    · have hall : xs.length + ys.length ≤ room ↔ ys.length ≤ room - xs.length := by omega
      simp only [write, if_pos h, hall, List.take_append, List.take_of_length_le h, hassoc,
        List.length_append, Nat.sub_sub]

end Sink

/-! ## One attempt of a run -/

/-- An observer's state after the attempt at a machine. -/
def Observer.see {σ : Type} (observe : Observer σ) (seen : σ) (m : Machine) : σ :=
  observe seen m m.attempt.1 m.attempt.2

namespace Machine

variable {σ : Type} {observe : Observer σ} {m m' : Machine}

theorem attempt_of_step {r : Except Fault Step} (h : m.step = (r, m')) :
    m.attempt.1.outcome = r ∧ m.attempt.2 = m' :=
  ⟨congrArg Prod.fst h, congrArg Prod.snd h⟩

theorem runFor_of_halted (h : m.isHalted = true) (n : Nat) (sink : Sink) (seen : σ) :
    m.runFor observe n sink seen = ⟨.ok (), m, sink, seen⟩ := by
  cases n with
  | zero => rfl
  | succ n => rw [runFor, if_pos h]

theorem runFor_of_error {f : Fault} (hm : m.isHalted = false) (h : m.step = (.error f, m'))
    (n : Nat) (sink : Sink) (seen : σ) :
    m.runFor observe (n + 1) sink seen = ⟨.error f, m', sink, observe.see seen m⟩ := by
  obtain ⟨houtcome, hafter⟩ := attempt_of_step h
  rw [runFor, if_neg (ne_true_of_eq_false hm)]
  simp only [houtcome, hafter, Observer.see]

/-- A step that succeeds writes its output, and if the sink takes it the run goes on. -/
theorem runFor_of_ok {s : Step} (h : m.step = (.ok s, m')) (n : Nat) (sink : Sink) (seen : σ) :
    m.runFor observe (n + 1) sink seen = match sink.write s.bytes with
      | (.ok (), sink) => m'.runFor observe n sink (observe.see seen m)
      | (.error cause, sink) => ⟨.error (.output cause), m', sink, observe.see seen m⟩ := by
  obtain ⟨houtcome, hafter⟩ := attempt_of_step h
  rw [runFor, if_neg (ne_true_of_eq_false (cycle_of_step h).1)]
  simp only [houtcome, hafter, Observer.see, Step.bytes]
  cases s.output with
  | none => rw [Option.elim_none, Sink.write_nil]
  | some output => rfl

end Machine

namespace Machine

variable {σ : Type} (observe : Observer σ)

/-- An observer sees a run and changes nothing about it, whatever the sink does. -/
theorem runFor_blind (m : Machine) (n : Nat) (sink : Sink) (seen : σ) :
    let observed := m.runFor observe n sink seen
    let plain := m.runFor Observer.blind n sink ()
    observed.outcome = plain.outcome ∧ observed.machine = plain.machine
      ∧ observed.sink = plain.sink := by
  induction n generalizing m sink seen with
  | zero => exact ⟨rfl, rfl, rfl⟩
  | succ n ih =>
    cases hm : m.isHalted with
    | true =>
      rw [runFor_of_halted hm, runFor_of_halted hm]
      exact ⟨rfl, rfl, rfl⟩
    | false =>
      rcases hstep : m.step with ⟨r, m₁⟩
      cases r with
      | error f =>
        rw [runFor_of_error hm hstep, runFor_of_error hm hstep]
        exact ⟨rfl, rfl, rfl⟩
      | ok s =>
        rw [runFor_of_ok hstep, runFor_of_ok hstep]
        rcases sink.write s.bytes with ⟨r, sink₁⟩
        cases r with
        | error cause => exact ⟨rfl, rfl, rfl⟩
        | ok => exact ih m₁ sink₁ (observe.see seen m)

end Machine

/-! ## The course of a run -/

/-- How a run of at most `n` cycles ends, if `t` are the cycles that it has completed and `last` is the
machine after them: with an outcome and at a machine. -/
inductive Ending (n : Nat) (t : List (Machine × Step)) (last : Machine) :
    Except Fault Unit → Machine → Prop
  /-- The machine has halted. -/
  | halted (h : last.isHalted = true) : Ending n t last (.ok ()) last
  /-- No cycle is left. -/
  | spent (h : t.length = n) : Ending n t last (.ok ()) last
  /-- One more cycle is tried, and it fails. -/
  | failed {f : Fault} {m' : Machine} (hrun : last.isHalted = false) (hleft : t.length < n)
      (h : last.step = (.error f, m')) : Ending n t last (.error f) m'

/-- What a run of at most `n` cycles does to a machine: it completes the cycles `t`, which lead to
`last`, and ends there. -/
structure Course (n : Nat) (m : Machine) (t : List (Machine × Step)) (last : Machine)
    (outcome : Except Fault Unit) (m' : Machine) : Prop where
  trace : Trace m t last
  within : t.length ≤ n
  ending : Ending n t last outcome m'

/-- The machines at which a run has tried a cycle, in order; a run that has failed has tried one more
than it has completed. -/
def attempted (t : List (Machine × Step)) (last : Machine) : Except Fault Unit → List Machine
  | .ok () => t.map Prod.fst
  | .error _ => t.map Prod.fst ++ [last]

namespace Machine

variable {σ : Type} {observe : Observer σ} {m m' last : Machine} {t : List (Machine × Step)}
  {outcome : Except Fault Unit} {n : Nat}

/-- Every machine has a course, for every number of cycles. -/
theorem exists_course (m : Machine) (n : Nat) :
    ∃ t last outcome m', Course n m t last outcome m' := by
  induction n generalizing m with
  | zero => exact ⟨[], m, .ok (), m, .nil m, le_rfl, .spent rfl⟩
  | succ n ih =>
    cases hm : m.isHalted with
    | true => exact ⟨[], m, .ok (), m, .nil m, Nat.zero_le _, .halted hm⟩
    | false =>
      rcases hstep : m.step with ⟨r, m₁⟩
      cases r with
      | error f => exact ⟨[], m, .error f, m₁, .nil m, Nat.zero_le _, .failed hm n.succ_pos hstep⟩
      | ok s =>
        obtain ⟨t, last, outcome, m', htrace, hwithin, hending⟩ := ih m₁
        refine ⟨(m, s) :: t, last, outcome, m', .cons hstep htrace, Nat.succ_le_succ hwithin, ?_⟩
        cases hending with
        | halted h => exact .halted h
        | spent h => exact .spent (congrArg Nat.succ h)
        | failed hrun hleft h => exact .failed hrun (Nat.succ_lt_succ hleft) h

/-- A run goes through a trace whose output the sink takes. -/
theorem runFor_of_trace (ht : Trace m t last) {sink sink' : Sink}
    (hfit : sink.write (printed t) = (.ok (), sink')) (n : Nat) (seen : σ) :
    m.runFor observe (t.length + n) sink seen
      = last.runFor observe n sink' ((t.map Prod.fst).foldl observe.see seen) := by
  induction ht generalizing sink seen with
  | nil =>
    rw [show printed [] = [] from rfl, Sink.write_nil] at hfit
    obtain rfl : sink = sink' := congrArg Prod.snd hfit
    rw [List.length_nil, Nat.zero_add]
    rfl
  | @cons m m₁ last s t hstep _ ih =>
    rw [show printed ((m, s) :: t) = s.bytes ++ printed t from rfl, Sink.write_append] at hfit
    rw [List.length_cons, Nat.add_right_comm, runFor_of_ok hstep]
    rcases hwrite : sink.write s.bytes with ⟨r, sink₁⟩
    rw [hwrite] at hfit
    cases r with
    | error cause => cases hfit
    | ok => exact ih hfit (observe.see seen m)

/-- **A run is its course**, and the output of its cycles one after the other: if the sink takes this
output, the run ends as the course does. -/
theorem runFor_of_course (hc : Course n m t last outcome m') {sink sink' : Sink}
    (hfit : sink.write (printed t) = (.ok (), sink')) (seen : σ) :
    m.runFor observe n sink seen
      = ⟨outcome, m', sink', (attempted t last outcome).foldl observe.see seen⟩ := by
  obtain ⟨htrace, hwithin, hending⟩ := hc
  obtain ⟨k, rfl⟩ := Nat.exists_eq_add_of_le hwithin
  rw [runFor_of_trace htrace hfit]
  cases hending with
  | halted h => exact runFor_of_halted h ..
  | spent h =>
    obtain rfl : k = 0 := by omega
    rfl
  | failed hrun hleft h =>
    obtain ⟨k, rfl⟩ : ∃ j, k = j + 1 := Nat.exists_eq_succ_of_ne_zero (by omega)
    rw [runFor_of_error hrun h, attempted, List.foldl_concat]

/-- A run is resumed, after the cycles of a trace, by a run into a fresh sink. -/
theorem runFor_resume (observe : Observer σ) (ht : Trace m t last) (n : Nat) (seen : σ) :
    let whole := m.runFor observe (t.length + n) Sink.unbounded seen
    let later := last.runFor observe n Sink.unbounded ((t.map Prod.fst).foldl observe.see seen)
    later.outcome = whole.outcome ∧ later.machine = whole.machine ∧ later.observed = whole.observed
      ∧ whole.sink.written.toList = printed t ++ later.sink.written.toList := by
  obtain ⟨t', last', outcome, m', hc⟩ := exists_course last n
  intro whole later
  have hwhole : whole = ⟨outcome, m', ⟨none, (printed t).toArray ++ printed t'⟩, _⟩ :=
    (runFor_of_trace ht (Sink.write_unbounded (printed t)) n seen).trans
      (runFor_of_course hc (Sink.write_of_unbounded ..) _)
  have hlater : later = ⟨outcome, m', ⟨none, (printed t').toArray⟩, _⟩ :=
    runFor_of_course hc (Sink.write_unbounded (printed t')) _
  rw [hwhole, hlater]
  exact ⟨rfl, rfl, rfl, Array.toList_appendList⟩

end Machine

/-! ## Counting -/

/-- The counter counts the cycles of a course, if it can count as many as the course may have. -/
theorem Course.cycles {n : Nat} {m last m' : Machine} {t : List (Machine × Step)}
    {outcome : Except Fault Unit} (hc : Course n m t last outcome m')
    (hn : m.cycles.toNat + n < UInt64.size) : m'.cycles.toNat = m.cycles.toNat + t.length := by
  obtain ⟨htrace, hwithin, hending⟩ := hc
  have hlast : last.cycles.toNat = m.cycles.toNat + t.length := htrace.cycles (by omega)
  cases hending with
  | halted => exact hlast
  | spent => exact hlast
  | failed hrun _ h =>
    have hcycle := Machine.step_cycle hrun
    rw [h] at hcycle
    rw [hcycle.of_error.2, hlast]

theorem Run.toNat_count {σ : Type} {r : Run σ} {m : Machine} {k : Nat}
    (h : r.machine.cycles.toNat = m.cycles.toNat + k) : (r.count m).toNat = k := by
  have hle : m.cycles ≤ r.machine.cycles := by
    rw [UInt64.le_iff_toNat_le]
    omega
  rw [Run.count, UInt64.toNat_sub_of_le _ _ hle, h, Nat.add_sub_cancel_left]

theorem Run.result_eq_ok_iff {σ : Type} {r : Run σ} {m : Machine} {c : UInt64} :
    r.result m = .ok c ↔ r.outcome = .ok () ∧ r.count m = c := by
  rw [Run.result]
  cases r.outcome with
  | error f => exact ⟨fun h => (nomatch h), fun h => (nomatch h.1)⟩
  | ok => exact ⟨fun h => ⟨rfl, Except.ok.inj h⟩, fun h => congrArg Except.ok h.2⟩

/-! ## The law of a run -/

/-- The run `r` of at most `n` cycles from `m` into a sink that refuses nothing: it completes the
cycles `t`, up to `last`; it writes what they print; the counter counts them, so that it has not
overflowed; and the result is their number, or the fault of the cycle that has failed. -/
structure Lawful {σ : Type} (n : Nat) (m : Machine) (sink : Sink) (t : List (Machine × Step))
    (last : Machine) (r : Run σ) : Prop where
  course : Course n m t last r.outcome r.machine
  sink : r.sink = { sink with written := sink.written ++ printed t }
  cycles : r.machine.cycles.toNat = m.cycles.toNat + t.length
  result : r.result m = r.outcome.map fun () => UInt64.ofNat t.length

namespace Machine

variable {σ : Type} {m : Machine} {sink : Sink}

theorem allowance_lt (m : Machine) (limit : Nat) :
    m.cycles.toNat + m.allowance limit < UInt64.size := by
  have hcycles := m.cycles.toNat_lt
  have hmax : maxCount = 2 ^ 64 - 1 := rfl
  have hsize : UInt64.size = 2 ^ 64 := rfl
  rw [allowance]
  omega

/-- A run is lawful, and the observer has seen every attempt once and in order. -/
theorem runFor_lawful (hroom : sink.room = none) {n : Nat}
    (hn : m.cycles.toNat + n < UInt64.size) (observe : Observer σ) (seen : σ) :
    ∃ t last, Lawful n m sink t last (m.runFor observe n sink seen)
      ∧ (m.runFor observe n sink seen).observed
        = (attempted t last (m.runFor observe n sink seen).outcome).foldl observe.see seen := by
  obtain ⟨room, written⟩ := sink
  obtain rfl : room = none := hroom
  obtain ⟨t, last, outcome, m', hc⟩ := exists_course m n
  have hcycles := hc.cycles hn
  rw [runFor_of_course hc (Sink.write_of_unbounded written (printed t))]
  refine ⟨t, last, ⟨hc, rfl, hcycles, ?_⟩, rfl⟩
  rw [Run.result]
  have hcount : ∀ r : Run σ, r.machine = m' → r.count m = UInt64.ofNat t.length := by
    rintro r rfl
    rw [← Run.toNat_count hcycles, UInt64.ofNat_toNat]
  rw [hcount _ rfl]

/-- The cycles that are left after `k` of them. -/
theorem allowance_of_cycles {m' : Machine} {k : Nat}
    (h : m'.cycles.toNat = m.cycles.toNat + k) (limit : Nat) :
    m'.allowance limit = min limit (maxCount - m.cycles.toNat - k) := by
  rw [allowance, h, Nat.sub_sub]

/-- **A run may be cut in two.** If a run does not fail, going on from where it has stopped is the
same as having gone on at once. -/
theorem runLimited_add (hroom : sink.room = none) {a : Nat}
    (hok : (m.runLimited a sink).outcome = .ok ()) (b : Nat) :
    m.runLimited (min (a + b) maxCount) sink
      = (m.runLimited a sink).machine.runLimited b (m.runLimited a sink).sink := by
  obtain ⟨room, written⟩ := sink
  obtain rfl : room = none := hroom
  obtain ⟨t, last, outcome, m', hc⟩ := exists_course m (m.allowance a)
  have hwrite := Sink.write_of_unbounded written (printed t)
  have hfirst : m.runLimited a ⟨none, written⟩ = ⟨outcome, m', ⟨none, written ++ printed t⟩, ()⟩ :=
    runFor_of_course hc hwrite ()
  rw [hfirst] at hok ⊢
  obtain rfl : outcome = .ok () := hok
  have hwithin := hc.within
  obtain ⟨k, hk⟩ : ∃ k, m.allowance (min (a + b) maxCount) = t.length + k := by
    apply Nat.exists_eq_add_of_le
    rw [allowance] at hwithin ⊢
    omega
  have hwhole : m.runLimited (min (a + b) maxCount) ⟨none, written⟩
      = last.runFor Observer.blind k ⟨none, written ++ printed t⟩ () := by
    rw [runLimited, hk, runFor_of_trace hc.trace hwrite]
  have hlt := m.allowance_lt a
  have hlast := hc.trace.cycles (show m.cycles.toNat + t.length < UInt64.size by omega)
  cases hc.ending with
  | halted h =>
    -- however many cycles are left, the machine makes none of them
    rw [hwhole, runFor_of_halted h]
    exact (runFor_of_halted h ..).symm
  | spent h =>
    have hleft : last.allowance b = k := by
      rw [allowance_of_cycles hlast]
      rw [allowance] at h hk
      omega
    rw [hwhole, runLimited, hleft]

/-- The counts of the two parts add up to the count of the whole, without overflow. -/
theorem count_runLimited_add (hroom : sink.room = none) (a b : Nat) :
    let first := m.runLimited a sink
    let second := first.machine.runLimited b first.sink
    second.count m = first.count m + second.count first.machine
      ∧ (second.count m).toNat = (first.count m).toNat + (second.count first.machine).toNat := by
  intro first second
  obtain ⟨t₁, last₁, h₁, -⟩ :=
    runFor_lawful hroom (m.allowance_lt a) Observer.blind ()
  have hroom₁ : first.sink.room = none := (congrArg Sink.room h₁.sink).trans hroom
  obtain ⟨t₂, last₂, h₂, -⟩ :=
    runFor_lawful hroom₁ (first.machine.allowance_lt b) Observer.blind ()
  have hfirst : first.machine.cycles.toNat = m.cycles.toNat + t₁.length := h₁.cycles
  have hsecond : second.machine.cycles.toNat = first.machine.cycles.toNat + t₂.length := h₂.cycles
  have hwhole : second.machine.cycles.toNat = m.cycles.toNat + (t₁.length + t₂.length) := by
    rw [hsecond, hfirst, Nat.add_assoc]
  refine ⟨(sub_add_sub_cancel' ..).symm, ?_⟩
  rw [Run.toNat_count hwhole, Run.toNat_count hfirst, Run.toNat_count hsecond]

/-- A machine whose counter can count two more cycles. It prints in both of them, and would go on. -/
def counterNearTop : Machine :=
  { powerOn {} with
    mem := (Memory.blank.setCell 0 Opcode.prn.byte).setCell 2 Opcode.prn.byte
    cycles := 0xFFFFFFFFFFFFFFFD }

end Machine

end EightBit
