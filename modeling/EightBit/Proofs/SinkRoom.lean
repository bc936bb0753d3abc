/-
# EightBit.Proofs.SinkRoom -- a run into a sink that fills up

The same run, once into a sink that takes everything and once into a sink with room for `k` bytes. If
the output fits, the two are the same run. Otherwise the second stops at the first cycle whose output
no longer fits, and it stops **between** two cycles: that cycle is complete, it is counted, and the
machine has not halted. What is lost is the rest of that cycle's output and nothing else, since a run
that goes on from there goes on as the first one does.
-/
import EightBit.Proofs.Run

namespace EightBit

/-! ## Where the room ends -/

namespace Sink

variable {bytes : List UInt8} {k : Nat}

theorem write_withRoom_of_le (h : bytes.length ≤ k) :
    (withRoom k).write bytes = (.ok (), ⟨some (k - bytes.length), bytes.toArray⟩) := by
  simp only [write, withRoom, if_pos h, List.take_of_length_le h, List.toArray_appendList,
    List.nil_append]

theorem write_withRoom_of_lt (h : k < bytes.length) :
    (withRoom k).write bytes = (.error .full, ⟨some 0, (bytes.take k).toArray⟩) := by
  simp only [write, withRoom, if_neg (Nat.not_le.mpr h), Nat.sub_eq_zero_of_le h.le,
    List.toArray_appendList, List.nil_append]

end Sink

/-- If the output of some cycles does not fit, there is a first cycle whose output does not. -/
theorem exists_overflow {t : List (Machine × Step)} {k : Nat} (h : k < (printed t).length) :
    ∃ t₁ c t₂, t = t₁ ++ c :: t₂ ∧ (printed t₁).length ≤ k
      ∧ k < (printed (t₁ ++ [c])).length := by
  induction t using List.reverseRecOn with
  | nil => exact absurd h (Nat.not_lt_zero k)
  | append_singleton t c ih =>
    rcases Nat.lt_or_ge k (printed t).length with hk | hk
    · obtain ⟨t₁, x, t₂, rfl, hfits, hover⟩ := ih hk
      exact ⟨t₁, x, t₂ ++ [c], by rw [List.append_assoc, List.cons_append], hfits, hover⟩
    · exact ⟨t, c, [], rfl, hk, h⟩

/-! ## Stopping for want of room -/

/-- The run `cut` has stopped for want of room, where the run `whole` goes on. It has completed the
cycles `t`, whose output fits, and the cycle at `x`, whose output `s` does not. -/
structure CutShort {σ : Type} (observe : Observer σ) (m : Machine) (limit k : Nat) (whole cut : Run σ)
    (t : List (Machine × Step)) (x : Machine) (s : Step) : Prop where
  outcome : cut.outcome = .error (.output .full)
  written : cut.sink.written.toList = whole.sink.written.toList.take k
  trace : Trace m (t ++ [(x, s)]) cut.machine
  fits : (printed t).length ≤ k
  overflows : k < (printed (t ++ [(x, s)])).length
  running : cut.machine.isHalted = false
  cycles : cut.machine.cycles.toNat = m.cycles.toNat + (t.length + 1)
  /-- Into a fresh sink, what is left of the limit is the rest of the run. -/
  resumed :
    let later := cut.machine.runFor observe (cut.machine.allowance (limit - (t.length + 1)))
      Sink.unbounded cut.observed
    later.outcome = whole.outcome ∧ later.machine = whole.machine ∧ later.observed = whole.observed
      ∧ whole.sink.written.toList = cut.sink.written.toList
          ++ s.bytes.drop (k - (printed t).length) ++ later.sink.written.toList

namespace Machine

variable {σ : Type} {observe : Observer σ} {m x m' : Machine} {t : List (Machine × Step)} {s : Step}

/-- The run into a sink that has no room for the output of the cycle at `x`. -/
theorem runFor_of_overflow (observe : Observer σ) (ht : Trace m t x)
    (hstep : x.step = (.ok s, m')) {k : Nat} (hfits : (printed t).length ≤ k)
    (hover : k < (printed (t ++ [(x, s)])).length) (n : Nat) (seen : σ) :
    m.runFor observe (t.length + (n + 1)) (Sink.withRoom k) seen
      = ⟨.error (.output .full), m', ⟨some 0, ((printed (t ++ [(x, s)])).take k).toArray⟩,
        ((t ++ [(x, s)]).map Prod.fst).foldl observe.see seen⟩ := by
  have hrefused : Sink.write ⟨some (k - (printed t).length), (printed t).toArray⟩ s.bytes
      = (.error .full, ⟨some 0, ((printed (t ++ [(x, s)])).take k).toArray⟩) := by
    have hboth := Sink.write_append (Sink.withRoom k) (printed t) s.bytes
    rw [← printed_concat t x s, Sink.write_withRoom_of_lt hover,
      Sink.write_withRoom_of_le hfits] at hboth
    exact hboth.symm
  rw [runFor_of_trace ht (Sink.write_withRoom_of_le hfits), runFor_of_ok hstep, hrefused,
    List.map_append, List.foldl_append]
  rfl

/-- A cycle that does not fit has written something, and so it has not halted the machine. -/
theorem isHalted_of_overflow (hstep : x.step = (.ok s, m')) {k : Nat}
    (hfits : (printed t).length ≤ k) (hover : k < (printed (t ++ [(x, s)])).length) :
    m'.isHalted = false := by
  refine (cycle_of_step hstep).2.isHalted_of_output ?_
  intro hnone
  have hbytes : s.bytes = [] := by
    rw [Step.bytes, hnone]
    rfl
  rw [printed_concat, hbytes, List.append_nil] at hover
  omega

/-- The run that the sink cuts short, beside the run that it does not. -/
theorem cutShort_of_overflow {m : Machine} {limit k n : Nat} (ht : Trace m t x)
    (hstep : x.step = (.ok s, m')) (hfits : (printed t).length ≤ k)
    (hover : k < (printed (t ++ [(x, s)])).length) (hn : m.allowance limit = t.length + (n + 1))
    (seen : σ) :
    CutShort observe m limit k (m.runFor observe (m.allowance limit) Sink.unbounded seen)
      (m.runFor observe (m.allowance limit) (Sink.withRoom k) seen) t x s := by
  have htrace : Trace m (t ++ [(x, s)]) m' := ht.append (.cons hstep (.nil m'))
  have hlength : (t ++ [(x, s)]).length = t.length + 1 := List.length_append
  have hcycles : m'.cycles.toNat = m.cycles.toNat + (t.length + 1) := by
    have hlt := m.allowance_lt limit
    rw [← hlength]
    exact htrace.cycles (by omega)
  have hleft : m'.allowance (limit - (t.length + 1)) = n := by
    rw [allowance_of_cycles hcycles]
    rw [allowance] at hn
    omega
  obtain ⟨houtcome, hmachine, hobserved, hwritten⟩ := runFor_resume observe htrace n seen
  rw [hlength, Nat.add_right_comm, Nat.add_assoc, ← hn] at houtcome hmachine hobserved hwritten
  have hcut := runFor_of_overflow observe ht hstep hfits hover n seen
  rw [← hn] at hcut
  rw [hcut]
  refine ⟨rfl, ?_, htrace, hfits, hover, isHalted_of_overflow hstep hfits hover, hcycles, ?_⟩
  · rw [hwritten, List.take_append_of_le_length hover.le]
  · rw [hleft]
    refine ⟨houtcome, hmachine, hobserved, hwritten.trans ?_⟩
    congr 1
    rw [printed_concat, List.take_append, List.take_of_length_le hfits, List.append_assoc,
      List.take_append_drop]

/-- **A sink that fills up.** If the output of a run fits into the room, the sink makes no difference.
If it does not, the run is cut short at the first cycle whose output does not fit, and can be resumed
from there. With the observer and the limit left open, `runLimited`, `runObserved` and `run` are all of
this form. -/
theorem run_withRoom (observe : Observer σ) (seen : σ) (m : Machine) (limit k : Nat) :
    let whole := m.runFor observe (m.allowance limit) Sink.unbounded seen
    let cut := m.runFor observe (m.allowance limit) (Sink.withRoom k) seen
    (whole.sink.written.size ≤ k →
      cut.outcome = whole.outcome ∧ cut.machine = whole.machine ∧ cut.observed = whole.observed
        ∧ cut.sink.written = whole.sink.written)
    ∧ (k < whole.sink.written.size →
      ∃ t x s, CutShort observe m limit k whole cut t x s) := by
  intro whole cut
  obtain ⟨t, last, outcome, m', hc⟩ := exists_course m (m.allowance limit)
  have hwhole : whole = ⟨outcome, m', ⟨none, (printed t).toArray⟩, _⟩ :=
    runFor_of_course hc (Sink.write_unbounded (printed t)) seen
  have hsize : whole.sink.written.size = (printed t).length := by
    rw [hwhole]
    exact List.size_toArray
  rw [hsize]
  constructor
  · intro hk
    have hcut : cut = ⟨outcome, m', _, _⟩ := runFor_of_course hc (Sink.write_withRoom_of_le hk) seen
    rw [hcut, hwhole]
    exact ⟨rfl, rfl, rfl, rfl⟩
  · intro hk
    obtain ⟨t₁, ⟨x, s⟩, t₂, rfl, hfits, hover⟩ := exists_overflow hk
    obtain ⟨_, htrace, hrest⟩ := hc.trace.of_append
    have hwithin := hc.within
    rw [List.length_append, List.length_cons] at hwithin
    cases hrest with
    | cons hstep _ =>
      obtain ⟨n, hn⟩ : ∃ n, m.allowance limit = t₁.length + (n + 1) :=
        ⟨m.allowance limit - t₁.length - 1, by omega⟩
      exact ⟨t₁, x, s, cutShort_of_overflow htrace hstep hfits hover hn seen⟩

/-- A machine that prints `200` on a line, then the character of that code, which takes two bytes, and
halts. -/
def printing : Machine :=
  { powerOn {} with
    regs := Registers.powerOn.set ⟨0, by decide⟩ 200
    mem := ((Memory.blank.setCell 0 Opcode.prn.byte).setCell 2 Opcode.pra.byte).setCell 4
      Opcode.hlt.byte }

theorem run_withRoom_printing :
    let whole := printing.runFor Observer.blind (printing.allowance 9) Sink.unbounded ()
    let cut (k : Nat) := printing.runFor Observer.blind (printing.allowance 9) (Sink.withRoom k) ()
    whole.sink.written.size ≤ 6 ∧ (cut 6).outcome = .ok ()
      ∧ 5 < whole.sink.written.size ∧ (cut 5).outcome = .error (.output .full)
      ∧ (cut 5).sink.written.toList = [50, 48, 48, 10, 195] ∧ (cut 5).machine.isHalted = false := by
  intro whole cut
  have hsize : whole.sink.written.size = 6 := by decide
  obtain ⟨houtcome, -⟩ := (run_withRoom Observer.blind () printing 9 6).1 hsize.le
  obtain ⟨t, x, s, h⟩ := (run_withRoom Observer.blind () printing 9 5).2 (by rw [hsize]; decide)
  refine ⟨hsize.le, houtcome.trans (by decide), by rw [hsize]; decide, h.outcome, ?_, h.running⟩
  exact h.written.trans (by decide)

end Machine

end EightBit
