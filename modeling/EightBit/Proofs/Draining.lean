/-
# EightBit.Proofs.Draining -- interrupts that are due together

Several interrupts may be due at once. If the handler of each is a single `IRET`, every step delivers
the lowest of them and returns from it, and the next step finds one less: the frame that is popped has
the interrupt's bit already cleared, so none comes twice, and the other bits as they were, so none is
lost. When all have been delivered, the program that was interrupted is where it was.

A delivery pushes nine bytes, and it pushes them wherever the stack pointer is. Here it is asked that
they spare the vectors and the handlers. The program they need not spare: what the following step runs
stands at the right address, but it is the interrupted instruction only if the frame does not cover it.
-/
import EightBit.Proofs.RoundTrip
import EightBit.Proofs.Steps

namespace EightBit

namespace Machine

/-! ## The interrupts that are due -/

/-- The interrupts that are raised and not masked, the lowest first. -/
def due (m : Machine) : List (Fin 8) :=
  (List.finRange 8).filter fun n =>
    (m.regs.get interruptMask &&& m.regs.get interruptStatus).toNat.testBit n

/-- Where the vector of interrupt `n` points. -/
def vector (m : Machine) (n : Fin 8) : UInt8 := m.mem.cell (vectorBase + UInt8.ofNat n)

variable {m m' : Machine} {n : Fin 8} {S : List (Fin 8)}

theorem due_pairwise (m : Machine) : m.due.Pairwise (· < ·) :=
  (List.pairwise_lt_finRange 8).filter _

/-- The interrupt that is delivered next is the first of those that are due. -/
theorem pendingInterrupt?_eq_head? (hon : m.regs.interruptsEnabled = true) :
    m.pendingInterrupt? = m.due.head? := by
  rw [pendingInterrupt?, if_pos hon, lowestBit?, due, List.head?_filter]
  congr 1
  funext k
  rw [Bool.eq_iff_iff, bne_iff_ne, and_bit_ne_zero_iff]

/-- Once the first of them has been handled, the others are due. -/
theorem Resumed.due (h : Resumed n m m') (hS : m.due = n :: S) : m'.due = S := by
  have hmask : m'.regs.get interruptMask = m.regs.get interruptMask := h.register (by decide)
  have hpairs := m.due_pairwise
  rw [hS, List.pairwise_cons] at hpairs
  -- the bit of the first is cleared, and the list, being sorted, does not name it again
  calc
    m'.due = m.due.filter fun k => decide (k ≠ n) := by
      rw [Machine.due, Machine.due, List.filter_filter]
      congr 1
      funext k
      rw [hmask, h.status, UInt8.toNat_and, Nat.testBit_and, testBit_clear, UInt8.toNat_and,
        Nat.testBit_and, ← Bool.and_assoc, Bool.and_comm]
    _ = S := by
      rw [hS, List.filter_cons_of_neg (by simp), List.filter_eq_self]
      intro k hk
      exact decide_eq_true (hpairs.1 k hk).ne'

/-! ## One of them -/

/-- Every interrupt that is due is handled by a single `IRET`, and the frame that a delivery pushes
spares its vector and this `IRET`. -/
structure QuicklyHandled (m : Machine) : Prop where
  handler : ∀ n ∈ m.due, m.mem.cell (m.vector n) = Opcode.iret.byte
  vector_spared : ∀ n ∈ m.due, ∀ k < 9, vectorBase + UInt8.ofNat n ≠ below m.regs.sp k
  handler_spared : ∀ n ∈ m.due, ∀ k < 9, m.vector n ≠ below m.regs.sp k

/-- Outside the frame, a delivery changes no cell. -/
theorem dispatched_cell_of_ne (m : Machine) (n : Fin 8) {a : UInt8}
    (ha : ∀ k < 9, a ≠ below m.regs.sp k) : (m.dispatched n).mem.cell a = m.mem.cell a := by
  have hdeep : ¬ depth m.regs.sp a < 9 := by
    intro h
    exact ha _ h (below_depth m.regs.sp a).symm
  rw [dispatched_cell, List.getElem?_eq_none (Nat.not_lt.mp hdeep)]
  rfl

/-- A machine that can go on from one interrupt to the next. -/
structure Ready (m : Machine) : Prop where
  running : m.isHalted = false
  full : m.config.profile = .full
  on : m.regs.interruptsEnabled = true
  inMemory : m.regs.pc ≤ 255
  handled : QuicklyHandled m

/-- **One interrupt.** The step delivers the first interrupt that is due and executes the `IRET` that
handles it. -/
theorem Ready.step (h : Ready m) (hS : m.due = n :: S) :
    m.step.1 = .ok (.executed (m.vector n).toNat .iret none) ∧ Resumed n m m.step.2
      ∧ m.step.2.isHalted = false ∧ m.step.2.config = m.config
      ∧ ∀ a, (∀ k < 9, a ≠ below m.regs.sp k) → m.step.2.mem.cell a = m.mem.cell a := by
  have hn : n ∈ m.due := hS ▸ List.mem_cons_self
  have hpending : m.pendingInterrupt? = some n := by
    rw [pendingInterrupt?_eq_head? h.on, hS, List.head?_cons]
  have hentry : m.entry = m.dispatched n := entry_of_pending hpending h.inMemory
  have hpc : m.entry.regs.pc = (m.vector n).toNat := by
    rw [hentry]
    rfl
  have hop : Opcode.ofByte? m.entry.code = some .iret := by
    rw [code, hpc, UInt8.ofNat_toNat, hentry,
      dispatched_cell_of_ne m n (h.handled.handler_spared n hn), h.handled.handler n hn]
    exact Opcode.ofByte?_byte .iret
  have hgranted : m.entry.refusal = none :=
    refusal_iret (m.entry_config ▸ h.full) (entry_pc_le h.inMemory) hop
  -- the `IRET` comes at once, so the frame is still as the delivery has pushed it
  have hframe : HasFrame m n m.entry := by
    rw [hentry]
    exact ⟨rfl, fun _ _ => rfl⟩
  rw [step_of_named h.running h.inMemory hgranted hop, hpc]
  refine ⟨rfl, hframe.resumed h.inMemory _, rfl, m.entry_config, ?_⟩
  intro a ha
  calc
    _ = m.entry.mem.cell a := Effect.apply_cell ..
    _ = m.mem.cell a := by rw [hentry, dispatched_cell_of_ne m n ha]

/-- After the first interrupt the machine is ready for the others, whose vectors are as before. -/
theorem Ready.next (h : Ready m) (hS : m.due = n :: S) :
    Ready m.step.2 ∧ m.step.2.due = S ∧ ∀ k ∈ S, m.step.2.vector k = m.vector k := by
  obtain ⟨-, hresumed, hrunning, hconfig, hcell⟩ := h.step hS
  have hdue : m.step.2.due = S := hresumed.due hS
  have hsub : ∀ k ∈ S, k ∈ m.due := by
    intro k hk
    rw [hS]
    exact List.mem_cons_of_mem n hk
  have hvector : ∀ k ∈ S, m.step.2.vector k = m.vector k :=
    fun k hk => hcell _ (h.handled.vector_spared k (hsub k hk))
  have hsp : m.step.2.regs.sp = m.regs.sp := hresumed.register (by decide)
  refine ⟨⟨hrunning, hconfig ▸ h.full, hresumed.interrupts, ?_, ?_, ?_, ?_⟩, hdue, hvector⟩
  · rw [hresumed.counter]
    exact h.inMemory
  · intro k hk
    rw [hdue] at hk
    rw [hvector k hk, hcell _ (h.handled.handler_spared k (hsub k hk))]
    exact h.handled.handler k (hsub k hk)
  · intro k hk
    rw [hdue] at hk
    rw [hsp]
    exact h.handled.vector_spared k (hsub k hk)
  · intro k hk
    rw [hdue] at hk
    rw [hvector k hk, hsp]
    exact h.handled.handler_spared k (hsub k hk)

/-! ## All of them -/

/-- The machine `m'` is `m` once the interrupts `S` have been handled: nothing is changed but their bits
of the status register and the cells of the frame. -/
structure Drained (S : List (Fin 8)) (m m' : Machine) : Prop where
  register {i : RegisterIndex} (hi : i ≠ interruptStatus) : m'.regs.get i = m.regs.get i
  status (n : Fin 8) : Raised m' n ↔ Raised m n ∧ n ∉ S
  flags : m'.regs.fl = m.regs.fl
  counter : m'.regs.pc = m.regs.pc
  interrupts : m'.regs.interruptsEnabled = m.regs.interruptsEnabled
  cell {a : UInt8} (ha : ∀ k < 9, a ≠ below m.regs.sp k) : m'.mem.cell a = m.mem.cell a

theorem Drained.refl (m : Machine) : Drained [] m m :=
  ⟨fun _ => rfl, fun _ => (and_iff_left List.not_mem_nil).symm, rfl, rfl, rfl, fun _ => rfl⟩

/-- Handling one interrupt and then the others is handling them all. -/
theorem Drained.cons {m₁ : Machine} (hon : m.regs.interruptsEnabled = true)
    (hfirst : Resumed n m m₁)
    (hcell : ∀ a, (∀ k < 9, a ≠ below m.regs.sp k) → m₁.mem.cell a = m.mem.cell a)
    (hrest : Drained S m₁ m') : Drained (n :: S) m m' where
  register hi := (hrest.register hi).trans (hfirst.register hi)
  status k := by
    rw [hrest.status, Raised, hfirst.status, testBit_clear, Bool.and_eq_true, decide_eq_true_iff,
      List.mem_cons, not_or, and_assoc, Raised]
  flags := hrest.flags.trans hfirst.flags
  counter := hrest.counter.trans hfirst.counter
  interrupts := by rw [hrest.interrupts, hfirst.interrupts, hon]
  cell {a} ha := by
    have hsp : m₁.regs.sp = m.regs.sp := hfirst.register (by decide)
    rw [hrest.cell (hsp.symm ▸ ha), hcell a ha]

/-- The steps that drain the interrupts `S`, and what they leave. -/
theorem Ready.drain (h : Ready m) (hS : m.due = S) :
    (∀ i (hi : i < S.length),
        (m.after i).step.1 = .ok (.executed (m.vector S[i]).toNat .iret none))
      ∧ Ready (m.after S.length) ∧ (m.after S.length).due = [] ∧ Drained S m (m.after S.length) := by
  -- the machine after the first step is ready with a shorter list
  induction S generalizing m with
  | nil => exact ⟨fun i hi => absurd hi (Nat.not_lt_zero i), h, hS, .refl m⟩
  | cons n S ih =>
    obtain ⟨hfirst, hresumed, -, -, hcell⟩ := h.step hS
    obtain ⟨hready, hdue, hvector⟩ := h.next hS
    obtain ⟨hsteps, hready', hempty, hdrained⟩ := ih hready hdue
    refine ⟨?_, hready', hempty, .cons h.on hresumed hcell hdrained⟩
    intro i hi
    cases i with
    | zero => exact hfirst
    | succ i =>
      have hi' : i < S.length := Nat.lt_of_succ_lt_succ hi
      rw [List.getElem_cons_succ, ← hvector _ (List.getElem_mem hi')]
      exact hsteps i hi'

/-! ## The step after them -/

/-- The step at `x` delivers nothing and runs the instruction at address `pc` that begins with `code`:
it executes it or, if the byte names none, passes over it; or it fails because the instruction is
refused. -/
def Runs (x : Machine) (pc : Nat) (code : UInt8) : Prop :=
  x.delivered? = none
    ∧ ((∃ s, x.step.1 = .ok s ∧ s.address = pc ∧ s.opcode? = Opcode.ofByte? code)
      ∨ ∃ f, x.refusal = some f ∧ x.step.1 = .error f)

theorem runs_of_quiet (hm : m.isHalted = false) (hpc : m.regs.pc ≤ 255)
    (hquiet : m.pendingInterrupt? = none) : Runs m m.regs.pc m.code := by
  refine ⟨(delivered?_of_le hm hpc).trans hquiet, ?_⟩
  have hcycle := step_cycle hm
  have hentry : m.entry = m := entry_of_none hquiet
  generalize m.step.2 = m' at hcycle
  generalize m.step.1 = r at hcycle ⊢
  cases hcycle with
  | outside hlt => exact absurd hlt (Nat.not_lt.mpr hpc)
  | refused _ hf => exact .inr ⟨_, hentry ▸ hf, rfl⟩
  | passed _ _ hop =>
    rw [hentry] at hop ⊢
    exact .inl ⟨_, rfl, rfl, hop.symm⟩
  | executed _ _ hop =>
    rw [hentry] at hop ⊢
    exact .inl ⟨_, rfl, rfl, hop.symm⟩

/-- **Interrupts that are due together are handled one by one**, the lowest first and each of them once:
as many steps as there are interrupts succeed, and each executes the `IRET` to which the vector of its
interrupt points. Then all is as it was, their bits of the status register and the cells of the frame
apart. The step after them starts where the program was interrupted; what it runs there is the
interrupted instruction, operands and all, unless a byte of it lies in the frame. -/
theorem due_drain (hm : m.isHalted = false) (hprofile : m.config.profile = .full)
    (hon : m.regs.interruptsEnabled = true) (hpc : m.regs.pc ≤ 255) (hhandled : QuicklyHandled m) :
    let last := m.after m.due.length
    (∀ i (hi : i < m.due.length),
        (m.after i).step.1 = .ok (.executed (m.vector m.due[i]).toNat .iret none))
      ∧ Drained m.due m last
      ∧ Runs last m.regs.pc last.code
      ∧ ((∀ j ≤ operandCount m.code, ∀ k < 9, UInt8.ofNat (m.regs.pc + j) ≠ below m.regs.sp k) →
          Runs last m.regs.pc m.code ∧ ∀ j ≤ operandCount m.code, last.operand j = m.operand j) := by
  intro last
  obtain ⟨hsteps, hready, hempty, hdrained⟩ := Ready.drain ⟨hm, hprofile, hon, hpc, hhandled⟩ rfl
  have hruns : Runs last m.regs.pc last.code := by
    have hquiet : last.pendingInterrupt? = none := by
      rw [pendingInterrupt?_eq_head? hready.on, hempty, List.head?_nil]
    have h := runs_of_quiet hready.running hready.inMemory hquiet
    rwa [hdrained.counter] at h
  refine ⟨hsteps, hdrained, hruns, ?_⟩
  intro hspared
  have hbytes : ∀ j ≤ operandCount m.code, last.operand j = m.operand j := by
    intro j hj
    rw [operand, hdrained.counter, hdrained.cell (hspared j hj)]
    rfl
  have hcode : last.code = m.code := hbytes 0 (Nat.zero_le _)
  exact ⟨hcode ▸ hruns, hbytes⟩

/-- A machine with interrupts 0 and 2 due, and interrupt 1 raised but masked. Its stack pointer is four,
so that the frame goes below address zero, down to the vectors; of these it spares the two that
count. -/
def twoDue : Machine :=
  { powerOn {} with
    regs :=
      { ((Registers.powerOn.set interruptMask 5).set interruptStatus 7).setSp 4 with pc := 0x20 }
    mem :=
      (((Memory.blank.setCell vectorBase 0x10).setCell 0x10 Opcode.iret.byte).setCell 0xFA
        0x12).setCell 0x12 Opcode.iret.byte }

theorem due_drain_twoDue :
    twoDue.due = [0, 2] ∧ QuicklyHandled twoDue
      ∧ twoDue.step.1 = .ok (.executed 0x10 .iret none)
      ∧ twoDue.step.2.step.1 = .ok (.executed 0x12 .iret none)
      ∧ Drained [0, 2] twoDue twoDue.step.2.step.2
      ∧ Runs twoDue.step.2.step.2 0x20 Opcode.nop.byte := by
  have hdue : twoDue.due = [0, 2] := by decide +kernel
  have hhandled : QuicklyHandled twoDue :=
    ⟨by decide +kernel, by decide +kernel, by decide +kernel⟩
  obtain ⟨hsteps, hdrained, -, hruns⟩ := due_drain (by decide) rfl rfl (by decide) hhandled
  have hspared : ∀ j ≤ operandCount twoDue.code, ∀ k < 9,
      UInt8.ofNat (twoDue.regs.pc + j) ≠ below twoDue.regs.sp k := by decide +kernel
  have hrunsNop := (hruns hspared).1
  rw [hdue] at hdrained hrunsNop
  exact ⟨hdue, hhandled, hsteps 0 (by decide +kernel), hsteps 1 (by decide +kernel), hdrained,
    hrunsNop⟩

/-- A machine about to run a `NOP` at 0xF0, with interrupt 0 due. The frame covers that address, and
puts register 1 there. -/
def underFrame : Machine :=
  { powerOn {} with
    regs :=
      { ((Registers.powerOn.set (RegisterIndex.named 1) Opcode.hlt.byte).set interruptMask 1).set
          interruptStatus 1 with
        pc := 0xF0 }
    mem := (Memory.blank.setCell vectorBase 0x10).setCell 0x10 Opcode.iret.byte }

/-- The step after the handlers does not always run the interrupted instruction: the frame may have
overwritten it. Here a `HLT` is executed for a `NOP`. -/
theorem interrupted_instruction_overwritten :
    ¬ ∀ m : Machine, m.isHalted = false → m.config.profile = .full →
      m.regs.interruptsEnabled = true → m.regs.pc ≤ 255 → m.due ≠ [] → QuicklyHandled m →
      Runs (m.after m.due.length) m.regs.pc m.code := by
  intro h
  have hhandled : QuicklyHandled underFrame :=
    ⟨by decide +kernel, by decide +kernel, by decide +kernel⟩
  have hhlt : (underFrame.after underFrame.due.length).step.1
      = .ok (.executed 0xF0 .hlt none) := by decide +kernel
  obtain ⟨-, ⟨s, hs, -, hop⟩ | ⟨f, hf, -⟩⟩ :=
    h underFrame (by decide) rfl rfl (by decide) (by decide +kernel) hhandled
  · obtain rfl := Except.ok.inj (hhlt.symm.trans hs)
    exact absurd hop (by decide)
  · have hgranted : (underFrame.after underFrame.due.length).refusal = none := by
      decide +kernel
    rw [hgranted] at hf
    cases hf

end Machine

end EightBit
