/-
# EightBit.Proofs.Cycle -- the four ways a cycle can go

A cycle of a machine that has not halted goes one of four ways: there is no cell at the program
counter, the instruction is refused, a byte that names no instruction is passed over, or an
instruction does what its row of the table says. `Cycle` lists them with the machine that each leaves
behind, and `step_cycle` proves that there is no fifth: to know what a step preserves it is enough to
look at the four.

Everything but the first happens at `Machine.entry`, the machine after the dispatch if one is made.
-/
import EightBit.Proofs.Dispatch
import EightBit.Proofs.Execution

namespace EightBit

/-! ## Fetching -/

namespace Memory

theorem latchIfPresent_of_lt (m : Memory) {a : Nat} (ha : a < 256) :
    m.latchIfPresent a = m.latch (UInt8.ofNat a) := by
  rw [latchIfPresent, read_of_lt m ha]

theorem latchIfPresent_of_ge (m : Memory) {a : Nat} (ha : 256 ≤ a) : m.latchIfPresent a = m := by
  rw [latchIfPresent, read_of_ge m ha]

end Memory

namespace Machine

/-- The byte `k` places after the program counter. -/
def operand (m : Machine) (k : Nat) : UInt8 := m.mem.cell (UInt8.ofNat (m.regs.pc + k))

/-- The byte at the program counter. -/
def code (m : Machine) : UInt8 := m.mem.cell (UInt8.ofNat m.regs.pc)

/-- The machine once it has fetched: running, with the opcode byte in the instruction register and
the last byte that was there to be fetched in the latch. -/
def fetched (m : Machine) : Machine :=
  { m with
    mem := { m.mem with mdr := m.mem.cell (UInt8.ofNat (min (m.regs.pc + 2) 255)) }
    regs := { m.regs with ir := m.code }
    phase := .running }

/-- The machine stopped for good. -/
def halt (m : Machine) : Machine := { m with phase := .halted }

/-- Reading three bytes in turn, as far as they exist, latches the last of them. -/
theorem latch_three (mem : Memory) {pc : Nat} (hpc : pc ≤ 255) :
    ((mem.latch (UInt8.ofNat pc)).latchIfPresent (pc + 1)).latchIfPresent (pc + 2)
      = { mem with mdr := mem.cell (UInt8.ofNat (min (pc + 2) 255)) } := by
  rcases Nat.lt_or_ge (pc + 2) 256 with h2 | h2
  · rw [Memory.latchIfPresent_of_lt _ h2, Memory.latchIfPresent_of_lt _ (by omega),
      Nat.min_eq_left (by omega)]
    rfl
  rw [Memory.latchIfPresent_of_ge _ h2, Nat.min_eq_right (by omega)]
  rcases Nat.lt_or_ge (pc + 1) 256 with h1 | h1
  · obtain rfl : pc = 254 := by omega
    rw [Memory.latchIfPresent_of_lt _ h1]
    rfl
  · obtain rfl : pc = 255 := by omega
    rw [Memory.latchIfPresent_of_ge _ h1]
    rfl

/-- What a fetch hands over to decoding. -/
def fetchedBytes (m : Machine) : Fetched :=
  ⟨m.regs.pc, m.code, (m.mem.peek (m.regs.pc + 1)).toOption,
    (m.mem.peek (m.regs.pc + 2)).toOption⟩

theorem fetch_of_le {m : Machine} (hpc : m.regs.pc ≤ 255) :
    { m with phase := .running : Machine }.fetch = .ok (m.fetchedBytes, m.fetched) := by
  simp only [fetch, Memory.read_of_lt m.mem (Nat.lt_succ_of_le hpc), latch_three m.mem hpc]
  rfl

theorem fetch_of_lt {m : Machine} (hpc : 255 < m.regs.pc) :
    m.fetch = .error (.memory ⟨m.regs.pc⟩) := by
  simp only [fetch, Memory.read_of_ge m.mem hpc]

end Machine

/-! ## Decoding -/

namespace Machine

/-- What the cycle at a machine refuses, its program counter being in memory: first a byte that names
nothing, if the machine is strict; then an instruction outside the profile; then one whose operands
lie past the end of memory; and then what the instruction itself refuses. -/
def refusal (m : Machine) : Option Fault :=
  match Opcode.ofByte? m.code with
  | none => if m.config.strict then some (.invalidInstruction m.code m.regs.pc) else none
  | some op =>
    if m.config.profile.implements op = false then some (.unimplemented op m.regs.pc)
    else if 255 < m.regs.pc + op.declaredArity then some (.memory ⟨256⟩)
    else op.refusal (m.operand 1) (m.operand 2) m

/-- The effect of the instruction at the program counter. -/
def effectOf (m : Machine) (op : Opcode) : Effect := op.effect (m.operand 1) (m.operand 2) m

variable {m : Machine} {op : Opcode}

theorem operandCount_of_code (hop : Opcode.ofByte? m.code = some op) :
    operandCount m.code = op.declaredArity := by
  rw [Opcode.declaredArity_eq_arity, Opcode.arity, Opcode.byte_of_ofByte? hop]

/-- An operand that the instruction declares and memory has is fetched as it stands there. -/
theorem operand_of_le (hop : Opcode.ofByte? m.code = some op) {k : Nat} (hk : k ≤ op.declaredArity)
    (hpc : m.regs.pc + k ≤ 255) :
    m.fetchedBytes.operand k (m.mem.peek (m.regs.pc + k)).toOption = .ok (m.operand k) := by
  have hcount : ¬ operandCount m.fetchedBytes.code < k :=
    Nat.not_lt.mpr (hk.trans_eq (operandCount_of_code hop).symm)
  unfold Fetched.operand
  rw [if_neg hcount, Memory.peek_of_lt m.mem (Nat.lt_succ_of_le hpc)]
  rfl

theorem operand_of_gt (hop : Opcode.ofByte? m.code = some op) {k : Nat} (hk : op.declaredArity < k)
    (byte : Option UInt8) : m.fetchedBytes.operand k byte = .ok 0 := by
  have hcount : operandCount m.fetchedBytes.code < k :=
    (operandCount_of_code hop).trans_lt hk
  unfold Fetched.operand
  rw [if_pos hcount]

/-- An operand that the instruction declares and memory does not have is a fault at the address past
the last cell. -/
theorem operand_of_lt (hop : Opcode.ofByte? m.code = some op) {k : Nat} (hk : k ≤ op.declaredArity)
    (hpc : 255 < m.regs.pc + k) :
    m.fetchedBytes.operand k (m.mem.peek (m.regs.pc + k)).toOption
      = .error (.memory ⟨m.regs.pc + k⟩) := by
  have hcount : ¬ operandCount m.fetchedBytes.code < k :=
    Nat.not_lt.mpr (hk.trans_eq (operandCount_of_code hop).symm)
  unfold Fetched.operand
  rw [if_neg hcount, Memory.peek_of_ge m.mem hpc]
  rfl

theorem decode_unnamed (hop : Opcode.ofByte? m.code = none) (config : Configuration) :
    m.fetchedBytes.decode config
      = if config.strict then .error (.invalidInstruction m.code m.regs.pc)
        else .ok .unnamed := by
  have hcode : Opcode.ofByte? m.fetchedBytes.code = none := hop
  simp only [Fetched.decode, hcode]
  rfl

theorem decode_unimplemented (hop : Opcode.ofByte? m.code = some op) {config : Configuration}
    (hprofile : config.profile.implements op = false) :
    m.fetchedBytes.decode config = .error (.unimplemented op m.regs.pc) := by
  have hcode : Opcode.ofByte? m.fetchedBytes.code = some op := hop
  have haction : config.profile.action? op = none := by
    rw [Profile.action?, hprofile, if_neg Bool.false_ne_true]
  simp only [Fetched.decode, hcode, haction]
  rfl

/-- Decoding an instruction of the profile is fetching its operands. -/
theorem decode_named (hop : Opcode.ofByte? m.code = some op) {config : Configuration}
    (hprofile : config.profile.implements op = true) :
    m.fetchedBytes.decode config = do
      let a ← m.fetchedBytes.operand 1 (m.mem.peek (m.regs.pc + 1)).toOption
      let b ← m.fetchedBytes.operand 2 (m.mem.peek (m.regs.pc + 2)).toOption
      return .instruction ⟨m.regs.pc, op, op.action, a, b⟩ := by
  have hcode : Opcode.ofByte? m.fetchedBytes.code = some op := hop
  have haction : config.profile.action? op = some op.action := by
    rw [Profile.action?, hprofile, if_pos rfl]
  simp only [Fetched.decode, hcode, haction]
  rfl

theorem decode_short (hop : Opcode.ofByte? m.code = some op) {config : Configuration}
    (hprofile : config.profile.implements op = true) (hpc : m.regs.pc ≤ 255)
    (hshort : 255 < m.regs.pc + op.declaredArity) :
    m.fetchedBytes.decode config = .error (.memory ⟨256⟩) := by
  have harity : op.declaredArity ≤ 2 := op.declaredArity_eq_arity ▸ op.arity_le_two
  rw [decode_named hop hprofile]
  -- whichever operand is the first to be missing, its address is the first past memory
  rcases Nat.lt_or_ge 255 (m.regs.pc + 1) with h1 | h1
  · rw [operand_of_lt hop (by omega) h1, show m.regs.pc + 1 = 256 by omega]
    rfl
  · rw [operand_of_le hop (by omega) h1, operand_of_lt hop (by omega) (by omega),
      show m.regs.pc + 2 = 256 by omega]
    rfl

theorem decode_whole (hop : Opcode.ofByte? m.code = some op) {config : Configuration}
    (hprofile : config.profile.implements op = true)
    (hwhole : m.regs.pc + op.declaredArity ≤ 255) :
    ∃ a b, m.fetchedBytes.decode config = .ok (.instruction ⟨m.regs.pc, op, op.action, a, b⟩)
      ∧ (1 ≤ op.declaredArity → a = m.operand 1) ∧ (2 ≤ op.declaredArity → b = m.operand 2) := by
  rw [decode_named hop hprofile]
  rcases Nat.lt_or_ge op.declaredArity 1 with h1 | h1
  · rw [operand_of_gt hop h1, operand_of_gt hop (by omega)]
    exact ⟨0, 0, rfl, by omega, by omega⟩
  rw [operand_of_le hop h1 (by omega)]
  rcases Nat.lt_or_ge op.declaredArity 2 with h2 | h2
  · rw [operand_of_gt hop h2]
    exact ⟨_, 0, rfl, fun _ => rfl, by omega⟩
  · rw [operand_of_le hop h2 (by omega)]
    exact ⟨_, _, rfl, fun _ => rfl, fun _ => rfl⟩

end Machine

/-! ## Cycles -/

/-- What a cycle of a machine that has not halted can be: its result and the machine it leaves. -/
inductive Cycle (m : Machine) : Except Fault Step → Machine → Prop
  /-- No cell has the program counter's address. -/
  | outside (hpc : 255 < m.regs.pc) : Cycle m (.error (.memory ⟨m.regs.pc⟩)) m.halt
  /-- The instruction is refused after it was fetched. -/
  | refused {f : Fault} (hpc : m.regs.pc ≤ 255) (hf : m.entry.refusal = some f) :
    Cycle m (.error f) m.entry.fetched.halt
  /-- The byte names no instruction. -/
  | passed (hpc : m.regs.pc ≤ 255) (hf : m.entry.refusal = none)
      (hop : Opcode.ofByte? m.entry.code = none) :
    Cycle m (.ok (.skipped m.entry.regs.pc m.entry.code))
      (m.entry.fetched.advance (operandCount m.entry.code)).tally
  /-- The instruction does what the table says. -/
  | executed {op : Opcode} (hpc : m.regs.pc ≤ 255) (hf : m.entry.refusal = none)
      (hop : Opcode.ofByte? m.entry.code = some op) :
    Cycle m (.ok (.executed m.entry.regs.pc op (m.entry.effectOf op).output))
      ((m.entry.effectOf op).apply op.declaredArity m.entry.fetched)

namespace Machine

variable {m : Machine}

theorem entry_config (m : Machine) : m.entry.config = m.config := by
  rcases Nat.lt_or_ge 255 m.regs.pc with hpc | hpc
  · rw [entry_of_lt hpc]
  cases h : m.pendingInterrupt? with
  | none => rw [entry_of_none h]
  | some n =>
    obtain ⟨gp, cells, hd⟩ := m.dispatched_eq n
    rw [entry_of_pending h hpc, hd]

theorem entry_pc_le (hpc : m.regs.pc ≤ 255) : m.entry.regs.pc ≤ 255 := by
  cases h : m.pendingInterrupt? with
  | none => rwa [entry_of_none h]
  | some n =>
    rw [entry_of_pending h hpc, dispatched_pc]
    exact Nat.le_of_lt_succ (UInt8.toNat_lt _)

/-- An interrupt is delivered to a running machine as to any other. -/
theorem takeInterrupt_running (hpc : m.regs.pc ≤ 255) :
    ∃ d, { m with phase := .running : Machine }.takeInterrupt
      = .ok (d, { m.entry with phase := .running }) := by
  cases h : m.pendingInterrupt? with
  | none =>
    rw [entry_of_none h]
    exact ⟨none, takeInterrupt_of_none h⟩
  | some n =>
    rw [entry_of_pending h hpc]
    obtain ⟨d, hd⟩ := takeInterrupt_of_le (m := { m with phase := .running }) h hpc
    exact ⟨_, hd⟩

/-- A step in memory is the fetch, the decoding and the performing of one instruction. -/
theorem step_eq_of_le (h : m.isHalted = false) (hpc : m.regs.pc ≤ 255) :
    m.step = match m.entry.fetchedBytes.decode m.config with
      | .error f => (.error f, m.entry.fetched.halt)
      | .ok .unnamed => (.ok (.skipped m.entry.regs.pc m.entry.code),
          (m.entry.fetched.advance (operandCount m.entry.code)).tally)
      | .ok (.instruction i) => match m.entry.fetched.perform i with
        | (.error f, m') => (.error f, m'.halt)
        | (.ok s, m') => (.ok s, m') := by
  obtain ⟨d, hd⟩ := takeInterrupt_running hpc
  have hconfig : m.entry.fetched.config = m.config := m.entry_config
  simp only [step, attempt, h, Bool.false_eq_true, if_false, cycle, hd,
    fetch_of_le (entry_pc_le hpc), hconfig]
  cases m.entry.fetchedBytes.decode m.config with
  | error f => rfl
  | ok decoded =>
    cases decoded with
    | unnamed => rfl
    | instruction i =>
      -- a fault in the action keeps its machine, so the result and the machine go together
      simp only
      generalize m.entry.fetched.perform i = performed
      obtain ⟨r, m'⟩ := performed
      cases r <;> rfl

/-- Memory has no cell at the program counter, with an interrupt pending or without. -/
theorem step_of_lt (h : m.isHalted = false) (hpc : 255 < m.regs.pc) :
    m.step = (.error (.memory ⟨m.regs.pc⟩), m.halt) := by
  simp only [step, attempt, h, Bool.false_eq_true, if_false, cycle]
  cases hp : m.pendingInterrupt? with
  | none =>
    rw [takeInterrupt_of_none (m := { m with phase := .running }) hp]
    simp only [fetch_of_lt (m := { m with phase := .running }) hpc]
    rfl
  | some n =>
    -- the dispatch fails for want of an address to push, and that before it has written anything
    rw [takeInterrupt_of_lt (m := { m with phase := .running }) hp hpc]
    rfl

theorem refusal_unnamed (hop : Opcode.ofByte? m.code = none) :
    m.refusal
      = if m.config.strict then some (.invalidInstruction m.code m.regs.pc) else none := by
  rw [refusal, hop]

theorem refusal_named {op : Opcode} (hop : Opcode.ofByte? m.code = some op) :
    m.refusal = if m.config.profile.implements op = false then some (.unimplemented op m.regs.pc)
      else if 255 < m.regs.pc + op.declaredArity then some (.memory ⟨256⟩)
      else op.refusal (m.operand 1) (m.operand 2) m := by
  rw [refusal, hop]

theorem refusal_named_eq_none_iff {op : Opcode} (hop : Opcode.ofByte? m.code = some op) :
    m.refusal = none ↔ m.config.profile.implements op = true ∧ m.regs.pc + op.declaredArity ≤ 255
      ∧ op.refusal (m.operand 1) (m.operand 2) m = none := by
  rw [refusal_named hop]
  cases m.config.profile.implements op with
  | false => simp
  | true =>
    rw [if_neg Bool.false_ne_true.symm]
    by_cases hshort : 255 < m.regs.pc + op.declaredArity
    · rw [if_pos hshort]
      exact ⟨fun h => (nomatch h), fun h => absurd hshort (Nat.not_lt.mpr h.2.1)⟩
    · rw [if_neg hshort]
      exact ⟨fun h => ⟨rfl, Nat.not_lt.mp hshort, h⟩, fun h => h.2.2⟩

/-- A `CALL` is refused if its way back would not fit into a byte. -/
theorem pc_le_of_granted_call (hop : Opcode.ofByte? m.code = some .call) (hf : m.refusal = none) :
    m.regs.pc + 2 ≤ 255 := by
  obtain ⟨-, -, hrow⟩ := (refusal_named_eq_none_iff hop).mp hf
  obtain ⟨-, hown⟩ := Opcode.refusal_eq_none_iff.mp hrow
  by_contra hlt
  rw [Opcode.ownRefusal, if_pos (Nat.lt_of_not_le hlt)] at hown
  cases hown

theorem step_of_refusal {f : Fault} (h : m.isHalted = false) (hpc : m.regs.pc ≤ 255)
    (hf : m.entry.refusal = some f) : m.step = (.error f, m.entry.fetched.halt) := by
  rw [step_eq_of_le h hpc]
  cases hop : Opcode.ofByte? m.entry.code with
  | none =>
    rw [refusal_unnamed hop, entry_config] at hf
    rw [decode_unnamed hop]
    cases hs : m.config.strict with
    | false =>
      rw [hs] at hf
      cases hf
    | true =>
      rw [hs] at hf
      cases hf
      rfl
  | some op =>
    rw [refusal_named hop, entry_config] at hf
    cases hprofile : m.config.profile.implements op with
    | false =>
      rw [hprofile, if_pos rfl] at hf
      rw [decode_unimplemented hop hprofile, Option.some.inj hf]
    | true =>
      rw [hprofile, if_neg Bool.false_ne_true.symm] at hf
      by_cases hshort : 255 < m.entry.regs.pc + op.declaredArity
      · rw [if_pos hshort] at hf
        rw [decode_short hop hprofile (entry_pc_le hpc) hshort, Option.some.inj hf]
      · rw [if_neg hshort] at hf
        -- the operands that decoding hands on agree with memory as far as they are declared
        obtain ⟨a, b, hdec, ha, hb⟩ := decode_whole hop hprofile (Nat.not_lt.mp hshort)
        rw [hdec]
        rw [← (Opcode.effect_of_arity m.entry ha hb).2] at hf
        simp only [perform_refused (m := m.entry.fetched) m.entry.regs.pc hf]

theorem step_of_unnamed (h : m.isHalted = false) (hpc : m.regs.pc ≤ 255)
    (hf : m.entry.refusal = none) (hop : Opcode.ofByte? m.entry.code = none) :
    m.step = (.ok (.skipped m.entry.regs.pc m.entry.code),
      (m.entry.fetched.advance (operandCount m.entry.code)).tally) := by
  rw [refusal_unnamed hop, entry_config] at hf
  rw [step_eq_of_le h hpc, decode_unnamed hop]
  cases hs : m.config.strict with
  | false => rfl
  | true =>
    rw [hs] at hf
    cases hf

theorem step_of_named {op : Opcode} (h : m.isHalted = false) (hpc : m.regs.pc ≤ 255)
    (hf : m.entry.refusal = none) (hop : Opcode.ofByte? m.entry.code = some op) :
    m.step = (.ok (.executed m.entry.regs.pc op (m.entry.effectOf op).output),
      (m.entry.effectOf op).apply op.declaredArity m.entry.fetched) := by
  rw [refusal_named_eq_none_iff hop, entry_config] at hf
  obtain ⟨hprofile, hwhole, hgranted⟩ := hf
  obtain ⟨a, b, hdec, ha, hb⟩ := decode_whole hop hprofile hwhole
  obtain ⟨heff, href⟩ := Opcode.effect_of_arity m.entry ha hb
  rw [← href] at hgranted
  rw [step_eq_of_le h hpc, hdec, effectOf, ← heff]
  simp only [perform_granted (m := m.entry.fetched) m.entry.regs.pc hgranted]
  rfl

/-- **There is no fifth way**: a step of a machine that has not halted is one of the four. -/
theorem step_cycle (h : m.isHalted = false) : Cycle m m.step.1 m.step.2 := by
  rcases Nat.lt_or_ge 255 m.regs.pc with hpc | hpc
  · rw [step_of_lt h hpc]
    exact .outside hpc
  cases hf : m.entry.refusal with
  | some f =>
    rw [step_of_refusal h hpc hf]
    exact .refused hpc hf
  | none =>
    cases hop : Opcode.ofByte? m.entry.code with
    | none =>
      rw [step_of_unnamed h hpc hf hop]
      exact .passed hpc hf hop
    | some op =>
      rw [step_of_named h hpc hf hop]
      exact .executed hpc hf hop

/-- The four ways exclude each other: what is a cycle of a machine is its step. -/
theorem step_of_cycle {r : Except Fault Step} {m' : Machine} (h : m.isHalted = false)
    (hc : Cycle m r m') : m.step = (r, m') := by
  cases hc with
  | outside hpc => exact step_of_lt h hpc
  | refused hpc hf => exact step_of_refusal h hpc hf
  | passed hpc hf hop => exact step_of_unnamed h hpc hf hop
  | executed hpc hf hop => exact step_of_named h hpc hf hop

/-- A halted machine does not step. -/
theorem step_of_halted (h : m.isHalted = true) : m.step = (.error .notRunning, m) := by
  simp only [step, attempt, h, if_true]

/-- A step that succeeds is a cycle. -/
theorem cycle_of_step {s : Step} {m' : Machine} (h : m.step = (.ok s, m')) :
    m.isHalted = false ∧ Cycle m (.ok s) m' := by
  cases hm : m.isHalted with
  | true =>
    rw [step_of_halted hm] at h
    cases h
  | false =>
    have hc := step_cycle hm
    rw [h] at hc
    exact ⟨rfl, hc⟩

end Machine

end EightBit
