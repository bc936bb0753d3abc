/-
# EightBit.Proofs.Footprint -- the cells that a cycle depends on

A cycle reads more than it needs: two bytes after the opcode, however many operands there are. What it
depends on is its **footprint**, which is the opcode byte, as many bytes after it as the opcode announces
operands, and the cells that the instruction loads. Of two machines that are the same outside memory and
agree on the footprint, a cycle gives the same result, and it leaves them the same outside memory; it
parts no two cells that were equal.

There are three steps to it, and each is about one part of the cycle: what is refused depends on opcode,
operands and registers alone; so does the row of an instruction, but for the cells that it loads; and
applying a row is the same store, or none, in both memories. The latch of the last read is left out of
the comparison, since the bytes read in advance do end up there.
-/
import EightBit.Proofs.Steps

namespace EightBit

open RegisterIndex (named)

/-! ## Bytes that are fetched in advance -/

/-- The bytes after the opcode that it does not announce make no difference to decoding, be they there
or not. -/
theorem Fetched.decode_beyond {f : Fetched} {first second : Option UInt8}
    (h1 : 1 ≤ operandCount f.code → first = f.first)
    (h2 : 2 ≤ operandCount f.code → second = f.second) (config : Configuration) :
    ({ f with first, second } : Fetched).decode config = f.decode config := by
  have hoperand : ∀ {k : Nat} {byte byte' : Option UInt8},
      (k ≤ operandCount f.code → byte = byte') →
      ({ f with first, second } : Fetched).operand k byte = f.operand k byte' := by
    intro k byte byte' h
    unfold Fetched.operand
    by_cases hk : operandCount f.code < k
    · simp [hk]
    · rw [h (Nat.not_lt.mp hk)]
  unfold Fetched.decode
  simp only [hoperand h1, hoperand h2]

namespace Machine

/-! ## Footprints -/

/-- The cells that the instruction `op` loads at `m`, its operands apart. -/
def loads (m : Machine) (op : Opcode) : List UInt8 :=
  match op with
  | .ld => [m.regs.get (named (m.operand 2))]
  | .pop | .ret => [m.regs.sp]
  | .iret => (List.range 9).map fun k => m.regs.sp + UInt8.ofNat k
  | _ => []

/-- The memories of `x` and `y` agree on the footprint of the cycle at `x`. An instruction that is
refused loads nothing. -/
structure SameFootprint (x y : Machine) : Prop where
  code : y.code = x.code
  operand {k : Nat} (hk : 1 ≤ k) (hcount : k ≤ operandCount x.code) (hin : x.regs.pc + k ≤ 255) :
    y.operand k = x.operand k
  loaded {op : Opcode} (hop : Opcode.ofByte? x.code = some op) (hf : x.refusal = none) :
    ∀ a ∈ x.loads op, y.mem.cell a = x.mem.cell a

/-- The machines `x` and `y` are the same but for memory. -/
structure SameOutside (x y : Machine) : Prop where
  regs : y.regs = x.regs
  phase : y.phase = x.phase
  cycles : y.cycles = x.cycles
  config : y.config = x.config

variable {x y : Machine}

/-! ## What is refused -/

/-- The row of refusals looks at registers alone. -/
theorem refusal_row_of_regs (h : y.regs = x.regs) (op : Opcode) (a b : UInt8) :
    op.refusal a b y = op.refusal a b x := by
  obtain ⟨regs, mem, phase, cycles, config⟩ := x
  obtain rfl : y.regs = regs := h
  cases op <;> rfl

/-- Operands that both memories have are the same in both. -/
theorem SameFootprint.operand_of_whole (h : SameFootprint x y) {op : Opcode}
    (hop : Opcode.ofByte? x.code = some op) (hwhole : x.regs.pc + op.declaredArity ≤ 255) {k : Nat}
    (hk : 1 ≤ k) (harity : k ≤ op.declaredArity) : y.operand k = x.operand k := by
  apply h.operand hk
  · rwa [operandCount_of_code hop]
  · omega

theorem SameFootprint.refusal (h : SameFootprint x y) (hout : SameOutside x y) :
    y.refusal = x.refusal := by
  cases hop : Opcode.ofByte? x.code with
  | none =>
    rw [refusal_unnamed hop, refusal_unnamed (h.code.symm ▸ hop), h.code, hout.regs, hout.config]
  | some op =>
    rw [refusal_named hop, refusal_named (h.code.symm ▸ hop), hout.regs, hout.config]
    by_cases hshort : 255 < x.regs.pc + op.declaredArity
    · simp only [if_pos hshort]
    · -- the operands are there, and the same in both memories
      have hoperand {k : Nat} := h.operand_of_whole hop (Nat.not_lt.mp hshort) (k := k)
      simp only [if_neg hshort]
      rw [refusal_row_of_regs hout.regs,
        (Opcode.effect_of_arity x (hoperand le_rfl) (hoperand (by decide))).2]

/-! ## What is done -/

/-- The row of an instruction looks at registers and at the cells that it loads. -/
theorem effect_of_loads (hregs : y.regs = x.regs) {op : Opcode}
    (h : ∀ a ∈ x.loads op, y.mem.cell a = x.mem.cell a) :
    op.effect (x.operand 1) (x.operand 2) y = op.effect (x.operand 1) (x.operand 2) x := by
  cases op
  case ld =>
    have hcell : y.mem.cell (x.regs.get (named (x.operand 2)))
        = x.mem.cell (x.regs.get (named (x.operand 2))) := h _ (List.mem_singleton.mpr rfl)
    simp only [Opcode.effect, hregs, hcell]
  case pop | ret =>
    have hcell : y.mem.cell (x.regs.get stackPointer) = x.mem.cell (x.regs.get stackPointer) :=
      h _ (List.mem_singleton.mpr rfl)
    simp only [Opcode.effect, hregs, hcell]
  case iret =>
    -- the frame from the stack pointer up: `R6` down to `R0`, the flags, the way back
    have hcell : ∀ k < 9, y.mem.cell (x.regs.get stackPointer + UInt8.ofNat k)
        = x.mem.cell (x.regs.get stackPointer + UInt8.ofNat k) :=
      fun k hk => h _ (List.mem_map_of_mem (List.mem_range.mpr hk))
    have hregister : ∀ i : RegisterIndex, 6 - i.val < 9 := by omega
    have hflags : y.mem.cell (x.regs.get stackPointer + 7)
        = x.mem.cell (x.regs.get stackPointer + 7) := hcell 7 (by decide)
    have hback : y.mem.cell (x.regs.get stackPointer + 8)
        = x.mem.cell (x.regs.get stackPointer + 8) := hcell 8 (by decide)
    simp only [Opcode.effect, hregs, hcell _ (hregister _), hflags, hback]
  -- the other rows look at registers alone
  all_goals
    obtain ⟨regs, mem, phase, cycles, config⟩ := x
    obtain rfl : y.regs = regs := hregs
    rfl

theorem SameFootprint.effectOf (h : SameFootprint x y) (hout : SameOutside x y) {op : Opcode}
    (hop : Opcode.ofByte? x.code = some op) (hf : x.refusal = none) :
    y.effectOf op = x.effectOf op := by
  obtain ⟨-, hwhole, -⟩ := (refusal_named_eq_none_iff hop).mp hf
  have hoperand {k : Nat} := h.operand_of_whole hop hwhole (k := k)
  rw [Machine.effectOf, (Opcode.effect_of_arity y (hoperand le_rfl) (hoperand (by decide))).1]
  exact effect_of_loads hout.regs (h.loaded hop hf)

/-! ## What is left -/

/-- The machines `x'` and `y'` that a cycle leaves of `x` and `y`: they are the same outside memory, and
where they differ in memory `x` and `y` have differed. -/
structure NoFurtherApart (x y x' y' : Machine) : Prop where
  outside : SameOutside x' y'
  cell {a : UInt8} (ha : y'.mem.cell a ≠ x'.mem.cell a) : y.mem.cell a ≠ x.mem.cell a

namespace SameOutside

theorem halt (h : SameOutside x y) : SameOutside x.halt y.halt :=
  ⟨h.regs, rfl, h.cycles, h.config⟩

theorem fetched (h : SameOutside x y) (hcode : y.code = x.code) :
    SameOutside x.fetched y.fetched where
  regs := by
    show { y.regs with ir := y.code } = { x.regs with ir := x.code }
    rw [h.regs, hcode]
  phase := rfl
  cycles := h.cycles
  config := h.config

theorem advance (h : SameOutside x y) (operands : Nat) :
    SameOutside (x.advance operands) (y.advance operands) :=
  ⟨congrArg (Registers.advance · operands) h.regs, h.phase, h.cycles, h.config⟩

theorem tally (h : SameOutside x y) : SameOutside x.tally y.tally :=
  ⟨h.regs, h.phase, congrArg (· + 1) h.cycles, h.config⟩

theorem apply (h : SameOutside x y) (e : Effect) (operands : Nat) :
    SameOutside (e.apply operands x) (e.apply operands y) := by
  constructor <;> simp [Effect.apply, h.regs, h.phase, h.cycles, h.config]

theorem entry (h : SameOutside x y) (hquiet : x.pendingInterrupt? = none) :
    x.entry = x ∧ y.entry = y := by
  refine ⟨entry_of_none hquiet, entry_of_none ?_⟩
  rw [pendingInterrupt?, h.regs]
  exact hquiet

end SameOutside

/-- An effect stores the same byte in both memories, or none. -/
theorem apply_cell_of_ne {e : Effect} {operands : Nat} {a : UInt8}
    (ha : (e.apply operands y).mem.cell a ≠ (e.apply operands x).mem.cell a) :
    y.mem.cell a ≠ x.mem.cell a := by
  intro hsame
  apply ha
  rw [Effect.apply_cell, Effect.apply_cell, hsame]

/-- What is a cycle of a machine is, with the same result, a cycle of one that agrees with it on its
footprint. -/
theorem SameOutside.cycle (h : SameOutside x y) (hquiet : x.pendingInterrupt? = none)
    (hfoot : x.regs.pc ≤ 255 → SameFootprint x y) {r : Except Fault Step} {x' : Machine}
    (hc : Cycle x r x') : ∃ y', Cycle y r y' ∧ NoFurtherApart x y x' y' := by
  -- both cycles fetch where they begin
  obtain ⟨hx, hy⟩ := h.entry hquiet
  have hpc : y.regs.pc = x.regs.pc := congrArg Registers.pc h.regs
  cases hc with
  | outside hout =>
    rw [← hpc] at hout ⊢
    exact ⟨y.halt, .outside hout, h.halt, fun ha => ha⟩
  | refused hin hf =>
    have hsame := hfoot hin
    rw [hx] at hf ⊢
    have hrefusal : y.entry.refusal = x.refusal := by rw [hy, hsame.refusal h]
    refine ⟨y.entry.fetched.halt, .refused (hpc ▸ hin) (hrefusal.trans hf), ?_⟩
    rw [hy]
    exact ⟨(h.fetched hsame.code).halt, fun ha => ha⟩
  | passed hin hf hop =>
    have hsame := hfoot hin
    rw [hx] at hf hop ⊢
    have hrefusal : y.entry.refusal = x.refusal := by rw [hy, hsame.refusal h]
    have hcode : y.entry.code = x.code := by rw [hy, hsame.code]
    have hcycle := Cycle.passed (hpc ▸ hin) (hrefusal.trans hf) (hcode.symm ▸ hop)
    rw [hcode, hy, hpc] at hcycle
    refine ⟨_, hcycle, ?_, fun ha => ha⟩
    exact ((h.fetched hsame.code).advance _).tally
  | @executed op hin hf hop =>
    have hsame := hfoot hin
    rw [hx] at hf hop ⊢
    have hrefusal : y.entry.refusal = x.refusal := by rw [hy, hsame.refusal h]
    have hcode : y.entry.code = x.code := by rw [hy, hsame.code]
    have hcycle := Cycle.executed (hpc ▸ hin) (hrefusal.trans hf) (hcode.symm ▸ hop)
    rw [hy, hpc, hsame.effectOf h hop hf] at hcycle
    exact ⟨_, hcycle, (h.fetched hsame.code).apply _ _, apply_cell_of_ne⟩

/-- **A cycle depends only on its footprint.** Of two machines that are the same outside memory, with no
interrupt due, and agree on the footprint of the cycle if there is one, a step gives the same result. It
leaves them the same outside memory, and differing in memory only where they have differed before. The
bytes fetched beyond what the opcode announces, be they there or not, make no difference to what is
decoded. -/
theorem step_depends_on_footprint (hx : x.isHalted = false) (hout : SameOutside x y)
    (hquiet : x.regs.interruptsEnabled = false
      ∨ x.regs.get interruptMask &&& x.regs.get interruptStatus = 0)
    (hfoot : x.regs.pc ≤ 255 → SameFootprint x y) :
    y.step.1 = x.step.1 ∧ NoFurtherApart x y x.step.2 y.step.2
      ∧ ∀ first second : Option UInt8,
          (1 ≤ operandCount x.code → first = x.fetchedBytes.first) →
          (2 ≤ operandCount x.code → second = x.fetchedBytes.second) →
          ({ x.fetchedBytes with first, second } : Fetched).decode x.config
            = x.fetchedBytes.decode x.config := by
  have hy : y.isHalted = false := by
    rw [isHalted, hout.phase]
    exact hx
  obtain ⟨y', hcycle, hapart⟩ :=
    hout.cycle (pendingInterrupt?_eq_none_iff.mpr hquiet) hfoot (step_cycle hx)
  have hstep : y.step = (x.step.1, y') := step_of_cycle hy hcycle
  rw [hstep]
  refine ⟨rfl, hapart, ?_⟩
  intro first second h1 h2
  exact Fetched.decode_beyond (f := x.fetchedBytes) h1 h2 x.config

/-- A machine that returns from an interrupt, with a frame that wraps around the end of memory. -/
def returning : Machine :=
  { powerOn {} with
    regs := { Registers.powerOn.setSp 0xFA with pc := 0x80 }
    mem := (Memory.blank.setCell 0x80 Opcode.iret.byte).setCell 0x02 0x40 }

/-- The same machine, with other bytes after the opcode and around the frame. -/
def returningElsewhere : Machine :=
  { returning with
    mem := (((returning.mem.setCell 0x81 0xEE).setCell 0x82 0xEE).setCell 0xF9 0xEE).setCell 0x03
      0xEE }

theorem step_depends_on_footprint_returning :
    returningElsewhere.step.1 = .ok (.executed 0x80 .iret none)
      ∧ returningElsewhere.step.2.regs.pc = 0x40
      ∧ NoFurtherApart returning returningElsewhere returning.step.2 returningElsewhere.step.2
      ∧ ({ returning.fetchedBytes with first := none, second := none } : Fetched).decode {}
          = returning.fetchedBytes.decode {} := by
  have hnone : operandCount returning.code = 0 := by decide +kernel
  have hiret : Opcode.ofByte? returning.code = some .iret := by decide +kernel
  have hframe : ∀ a ∈ returning.loads .iret,
      returningElsewhere.mem.cell a = returning.mem.cell a := by decide +kernel
  have hfoot : SameFootprint returning returningElsewhere := by
    refine ⟨by decide +kernel, ?_, ?_⟩
    · -- there is no operand to compare
      intro k hk hcount
      omega
    · intro op hop _
      obtain rfl : .iret = op := Option.some.inj (hiret.symm.trans hop)
      exact hframe
  have hout : SameOutside returning returningElsewhere := ⟨rfl, rfl, rfl, rfl⟩
  obtain ⟨hresult, hapart, hdecoded⟩ :=
    step_depends_on_footprint rfl hout (.inr (by decide)) fun _ => hfoot
  refine ⟨hresult.trans (by decide +kernel), ?_, hapart, ?_⟩
  · rw [hapart.outside.regs]
    decide +kernel
  · apply hdecoded none none <;> intro h <;> omega

end Machine

end EightBit
