/-
# EightBit.Proofs.RoundTrip -- from an interrupt to its return

A dispatch and the `IRET` that ends the handler stand far apart, and anything may run in between. They
fit together if the handler gives back the stack pointer and leaves the frame alone: then everything
that the interrupted program can see is as it was, but for the status bit of the interrupt and the
cells that the handler has written.

The frame is read back from the other end: the `k`-th byte that `IRET` pops lies `8 - k` below the old
stack pointer. Both distances are taken on bytes, so a frame that goes below address zero needs no
case of its own.
-/
import EightBit.Proofs.Trace

namespace EightBit

namespace Machine

/-! ## Reading the frame back -/

/-- From the bottom of a frame up, the cells are those from the stack pointer down, backwards. -/
theorem frame_address (sp : UInt8) {k : Nat} (hk : k ≤ 8) :
    sp - 9 + UInt8.ofNat k = below sp (8 - k) := by
  have hsp := sp.toNat_lt
  rw [below, ← UInt8.toNat_inj]
  simp only [UInt8.toNat_add, UInt8.toNat_sub, UInt8.toNat_ofNat', UInt8.toNat_one]
  have h9 : (9 : UInt8).toNat = 9 := rfl
  omega

variable {m x : Machine} {n : Fin 8}

/-- The `k`-th byte that a dispatch pushes is the `k`-th below the old stack pointer. -/
theorem dispatched_below {k : Nat} (hk : k < 9) :
    (m.frame n)[k]? = some ((m.dispatched n).mem.cell (below m.regs.sp k)) := by
  rw [dispatched_cell, depth_below _ (by omega), List.getElem?_eq_getElem hk]
  rfl

/-- The frame that a dispatch of interrupt `n` at `m` has pushed is on top of the stack of `x`. -/
structure HasFrame (m : Machine) (n : Fin 8) (x : Machine) : Prop where
  sp : x.regs.sp = (m.dispatched n).regs.sp
  cell : ∀ k < 9, x.mem.cell (below m.regs.sp k) = (m.dispatched n).mem.cell (below m.regs.sp k)

/-- What `IRET` finds `k` cells up from the stack pointer. -/
theorem HasFrame.popped (h : HasFrame m n x) {k : Nat} (hk : k ≤ 8) {v : UInt8}
    (hv : (m.frame n)[8 - k]? = some v) : x.mem.cell (x.regs.sp + UInt8.ofNat k) = v := by
  rw [dispatched_below (by omega)] at hv
  rw [h.sp, dispatched_sp, frame_address _ hk, h.cell _ (by omega)]
  exact Option.some.inj hv

/-- The frame holds the registers, and the status register with the interrupt's bit cleared. -/
theorem frame_register {i : RegisterIndex} (hi : i ≠ stackPointer) :
    (m.frame n)[8 - (6 - i.val)]?
      = some (if i = interruptStatus then m.regs.get interruptStatus &&& ~~~bit n
          else m.regs.get i) := by
  fin_cases i
  case «7» => exact absurd rfl hi
  all_goals rfl

/-! ## Returning -/

/-- The machine `m'` is `m` as the delivery of interrupt `n` found it, but for its bit of the status
register and for memory. -/
structure Resumed (n : Fin 8) (m m' : Machine) : Prop where
  register {i : RegisterIndex} (hi : i ≠ interruptStatus) : m'.regs.get i = m.regs.get i
  status : m'.regs.get interruptStatus = m.regs.get interruptStatus &&& ~~~bit n
  flags : m'.regs.fl = m.regs.fl
  counter : m'.regs.pc = m.regs.pc
  interrupts : m'.regs.interruptsEnabled = true

/-- `IRET` at a frame undoes the dispatch that has pushed it. -/
theorem HasFrame.resumed (h : HasFrame m n x) (hpc : m.regs.pc ≤ 255) (y : Machine) :
    Resumed n m ((x.effectOf .iret).apply 0 y) := by
  have hget : ∀ i : RegisterIndex, ((x.effectOf .iret).apply 0 y).regs.get i
      = if i = stackPointer then x.regs.sp + 9
        else x.mem.cell (x.regs.sp + UInt8.ofNat (6 - i.val)) := by
    intro i
    exact Effect.apply_get ..
  have hreg : ∀ {i : RegisterIndex}, i ≠ stackPointer → ((x.effectOf .iret).apply 0 y).regs.get i
      = if i = interruptStatus then m.regs.get interruptStatus &&& ~~~bit n
        else m.regs.get i := by
    intro i hi
    rw [hget, if_neg hi, h.popped (by omega) (frame_register hi)]
  refine ⟨?_, ?_, ?_, ?_, rfl⟩
  · intro i hi
    by_cases hsp : i = stackPointer
    · subst hsp
      rw [hget, if_pos rfl, h.sp, dispatched_sp, sub_add_cancel]
      rfl
    · rw [hreg hsp, if_neg hi]
  · rw [hreg (by decide), if_pos rfl]
  · show Flags.ofByte (x.mem.cell (x.regs.sp + 7)) = _
    rw [show (7 : UInt8) = UInt8.ofNat 7 from rfl, h.popped (by decide) rfl, Flags.ofByte_toByte]
  · show (x.mem.cell (x.regs.sp + 8)).toNat = _
    rw [show (8 : UInt8) = UInt8.ofNat 8 from rfl, h.popped (by decide) rfl,
      UInt8.toNat_ofNat_of_lt' (Nat.lt_succ_of_le hpc)]

/-- A machine of the full profile never refuses `IRET`. -/
theorem refusal_iret (hprofile : x.config.profile = .full) (hpc : x.regs.pc ≤ 255)
    (hop : Opcode.ofByte? x.code = some .iret) : x.refusal = none := by
  refine (refusal_named_eq_none_iff hop).mpr ⟨?_, hpc, rfl⟩
  rw [hprofile]
  rfl

/-- **The round trip of an interrupt.** Interrupt `n` is delivered, and `t` are the cycles from that
one on, none of them an `IRET`; there may be no such cycle, if the handler starts with its `IRET`. An
`IRET` that then finds the frame on top of the stack succeeds, and the program that was interrupted
goes on as it was. Of its memory, only the nine cells of the frame and those that the handler has
written can differ. -/
theorem interrupt_round_trip {last : Machine} {t : List (Machine × Step)}
    (hprofile : m.config.profile = .full) (hon : m.regs.interruptsEnabled = true)
    (hn : IsLowestBit n (m.regs.get interruptMask &&& m.regs.get interruptStatus))
    (hpc : m.regs.pc ≤ 255) (ht : Trace m t last) (hret : ∀ c ∈ t, c.2.opcode? ≠ some .iret)
    (hlast : last.isHalted = false) (hlastpc : last.regs.pc ≤ 255)
    (hop : Opcode.ofByte? last.entry.code = some .iret) (hframe : HasFrame m n last.entry) :
    ∃ m', last.step = (.ok (.executed last.entry.regs.pc .iret none), m')
      ∧ Resumed n m m'
      ∧ ∀ a, (∀ k < 9, a ≠ below m.regs.sp k) → (∀ c ∈ t, c.1.written ≠ some a) →
          m'.mem.cell a = m.mem.cell a := by
  have hentry : m.entry = m.dispatched n :=
    entry_of_pending (pendingInterrupt?_eq_some_iff.mpr ⟨hon, hn⟩) hpc
  have hoff : m.entry.regs.interruptsEnabled = false := by
    rw [hentry]
    rfl
  have hgranted : last.entry.refusal = none := by
    refine refusal_iret ?_ (entry_pc_le hlastpc) hop
    rw [entry_config, ht.config, hprofile]
  refine ⟨_, step_of_named hlast hlastpc hgranted hop, hframe.resumed hpc _, ?_⟩
  intro a ha hw
  have hdeep : ¬ depth m.regs.sp a < 9 := by
    intro h
    exact ha _ h (below_depth m.regs.sp a).symm
  calc
    _ = last.entry.mem.cell a := Effect.apply_cell ..
    _ = (m.dispatched n).mem.cell a := by rw [ht.cell hoff hret hw, hentry]
    _ = m.mem.cell a := by
      rw [dispatched_cell, List.getElem?_eq_none (Nat.not_lt.mp hdeep)]
      rfl

/-- A machine whose stack pointer is four when interrupt 0 is due, so that the frame goes below
address zero. Its handler raises an interrupt, changes a register and returns. -/
def interrupted : Machine :=
  { powerOn {} with
    regs :=
      { ((Registers.powerOn.set interruptMask 1).set interruptStatus 1).setSp 4 with pc := 0x20 }
    mem :=
      (((Memory.blank.setCell vectorBase 0x10).setCell 0x10 Opcode.int.byte).setCell 0x12
        Opcode.inc.byte).setCell 0x14 Opcode.iret.byte }

theorem interrupt_round_trip_interrupted :
    let m' := interrupted.step.2.step.2.step.2
    Resumed 0 interrupted m' ∧ m'.mem.cell 0xFA = interrupted.mem.cell 0xFA := by
  have hn : IsLowestBit 0
      (interrupted.regs.get interruptMask &&& interrupted.regs.get interruptStatus) :=
    ⟨by decide, fun k hk => absurd hk (Fin.not_lt_zero k)⟩
  have hint : interrupted.step.1 = .ok (.executed 0x10 .int none) := by decide
  have hinc : interrupted.step.2.step.1 = .ok (.executed 0x12 .inc none) := by decide
  have ht := Trace.cons (Prod.ext hint rfl) (.cons (Prod.ext hinc rfl) (.nil _))
  obtain ⟨m', hstep, hresumed, hcell⟩ := interrupt_round_trip rfl rfl hn (by decide) ht (by decide)
    (by decide) (by decide) (by decide) ⟨by decide, by decide⟩
  obtain rfl : interrupted.step.2.step.2.step.2 = m' := congrArg Prod.snd hstep
  exact ⟨hresumed, hcell 0xFA (by decide) (by decide)⟩

end Machine

end EightBit
