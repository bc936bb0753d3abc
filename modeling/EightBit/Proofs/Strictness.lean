/-
# EightBit.Proofs.Strictness -- strictness turns skips into faults, and does nothing else

A byte that names no instruction is a fault for a strict machine and is passed over by a lenient one.
Of two machines that differ in nothing else, every step gives the same result up to the first byte that
the lenient one passes over. In that step the strict one refuses the byte, at the address at which the
lenient one passes over it, and is halted; what the two then hold apart is the program counter and the
count of cycles, which only the lenient machine has moved on.

That is all that strictness does: a lenient machine never refuses a byte for being unnamed, and a
strict one never passes over one.
-/
import EightBit.Proofs.Faults
import EightBit.Proofs.Reconfiguration

namespace EightBit

namespace Machine

/-! ## Strict and lenient -/

/-- The machine made strict, or lenient. -/
def withStrict (m : Machine) (strict : Bool) : Machine :=
  m.withConfig { m.config with strict }

/-- The step at `m` passes over a byte. -/
def Skips (m : Machine) : Prop := ∃ pc byte, m.step.1 = .ok (.skipped pc byte)

instance (m : Machine) : Decidable (Skips m) :=
  match h : m.step.1 with
  | .ok (.skipped pc byte) => .isTrue ⟨pc, byte, h⟩
  | .ok (.executed _ _ _) => .isFalse fun ⟨_, _, h'⟩ => by cases h.symm.trans h'
  | .error _ => .isFalse fun ⟨_, _, h'⟩ => by cases h.symm.trans h'

variable {m m' : Machine} {pc : Nat} {byte : UInt8}

/-- A byte is passed over if it can be fetched, names nothing, and the machine is lenient; and then
nothing else is done about it. -/
theorem step_of_skipped (h : m.step.1 = .ok (.skipped pc byte)) :
    m.isHalted = false ∧ m.regs.pc ≤ 255 ∧ m.start.refusal = none
      ∧ Opcode.ofByte? byte = none ∧ pc = m.start.regs.pc ∧ byte = m.start.code
      ∧ m.step.2 = (m.start.fetched.advance (operandCount byte)).tally := by
  obtain ⟨hm, hcycle⟩ := cycle_of_ok h
  generalize m.step.2 = m' at hcycle ⊢
  rw [← entry_eq_start hm]
  cases hcycle with
  | passed hpc hf hop => exact ⟨hm, hpc, hf, hop, rfl, rfl, rfl⟩

/-- A lenient machine passes over every byte that names nothing, if a cell holds it. -/
theorem skips_of_unnamed (hm : m.isHalted = false) (hpc : m.regs.pc ≤ 255)
    (hlenient : m.config.strict = false) (hop : Opcode.ofByte? m.entry.code = none) : Skips m := by
  have hf : m.entry.refusal = none := by
    rw [refusal_unnamed hop, entry_config, hlenient, if_neg Bool.false_ne_true]
  unfold Skips
  rw [step_of_unnamed hm hpc hf hop]
  exact ⟨_, _, rfl⟩

/-- A strict machine passes over nothing. -/
theorem not_skips_of_strict (h : m.config.strict = true) : ¬ Skips m := by
  rintro ⟨pc, byte, hskip⟩
  obtain ⟨hm, -, hf, hop, -, rfl, -⟩ := step_of_skipped hskip
  rw [refusal_unnamed hop, ← entry_eq_start hm, entry_config, h, if_pos rfl] at hf
  cases hf

end Machine

/-- No instruction that is named is refused as invalid. -/
theorem Opcode.refusal_ne_invalid (op : Opcode) (a b : UInt8) (m : Machine) (byte : UInt8)
    (pc : Nat) : op.refusal a b m ≠ some (.invalidInstruction byte pc) := by
  intro h
  unfold Opcode.refusal at h
  split at h
  · cases h
  · unfold Opcode.ownRefusal at h
    cases op <;> simp at h

namespace Machine

variable {m : Machine} {c : Configuration} {pc : Nat} {byte : UInt8}

/-- A lenient machine refuses no byte for being unnamed. -/
theorem step_ne_invalid (h : m.config.strict = false) :
    m.step.1 ≠ .error (.invalidInstruction byte pc) := by
  intro hstep
  rcases cycle_of_error hstep with hsame | hcycle
  · rw [hsame] at hstep
    cases hstep
  generalize m.step.2 = m' at hcycle
  cases hcycle with
  | refused hpc hf =>
    cases hop : Opcode.ofByte? m.entry.code with
    | none =>
      rw [refusal_unnamed hop, entry_config, h] at hf
      cases hf
    | some op =>
      rw [refusal_named hop] at hf
      split_ifs at hf
      · cases hf
      · cases hf
      · exact op.refusal_ne_invalid _ _ _ _ _ hf

/-! ## One step, lenient and strict -/

/-- A step of a lenient machine that passes over nothing is the same if the machine is strict. -/
theorem step_withConfig_of_not_skips (hprofile : c.profile = m.config.profile)
    (hlenient : m.config.strict = false) (h : ¬ Skips m) :
    (m.withConfig c).step = (m.step.1, m.step.2.withConfig c) := by
  apply step_withConfig
  intro hm hpc
  apply refusal_withConfig
  · intro hop
    exact absurd (skips_of_unnamed hm hpc hlenient hop) h
  · intro op _
    rw [hprofile, entry_config]

/-- What a lenient machine passes over, a strict one has fetched in the same way and then refuses. -/
theorem step_withConfig_of_skipped (hstrict : c.strict = true)
    (h : m.step.1 = .ok (.skipped pc byte)) :
    (m.withConfig c).step
      = (.error (.invalidInstruction byte pc), (m.start.fetched.halt).withConfig c) := by
  obtain ⟨hm, hpc, -, hop, rfl, rfl, -⟩ := step_of_skipped h
  rw [← entry_eq_start hm] at hop ⊢
  have hf : (m.withConfig c).entry.refusal
      = some (.invalidInstruction m.entry.code m.entry.regs.pc) := by
    rw [entry_withConfig, refusal_unnamed (m := m.entry.withConfig c) hop]
    exact if_pos hstrict
  rw [step_of_refusal (m := m.withConfig c) hm hpc hf, entry_withConfig]
  rfl

/-! ## What passing over a byte does -/

/-- The machine `m'` is `base` after passing over the byte at its program counter: of what can be read
off it, the counters have moved on, and the fetch has left its marks. -/
structure PassedOver (base : Machine) (byte : UInt8) (m' : Machine) : Prop where
  unnamed : Opcode.ofByte? byte = none
  fetched : base.mem.cell (UInt8.ofNat base.regs.pc) = byte
  counter : m'.regs.pc = base.regs.pc + 1 + (byte >>> 6).toNat
  within : m'.regs.pc ≤ base.regs.pc + 4
  cycles : m'.cycles = base.cycles + 1
  instruction : m'.regs.ir = byte
  phase : m'.phase = .running
  register (i : RegisterIndex) : m'.regs.get i = base.regs.get i
  flags : m'.regs.fl = base.regs.fl
  interrupts : m'.regs.interruptsEnabled = base.regs.interruptsEnabled
  cell (a : UInt8) : m'.mem.cell a = base.mem.cell a
  config : m'.config = base.config

theorem passedOver_of_skipped (h : m.step.1 = .ok (.skipped pc byte)) :
    PassedOver m.start byte m.step.2 := by
  obtain ⟨-, -, -, hop, rfl, rfl, hstep⟩ := step_of_skipped h
  have hcount := operandCount_le_three m.start.code
  rw [hstep]
  refine ⟨hop, rfl, rfl, ?_, rfl, rfl, rfl, fun _ => rfl, rfl, rfl, fun _ => rfl, rfl⟩
  show m.start.regs.pc + 1 + operandCount m.start.code ≤ m.start.regs.pc + 4
  omega

/-! ## Runs -/

/-- A lenient machine and its strict copy go side by side until the lenient one passes over a byte. -/
theorem inStep_withStrict (m : Machine) {n : Nat}
    (h : ∀ i < n, ¬ Skips ((m.withStrict false).after i)) :
    InStep (m.withStrict false) (m.withStrict true) n := by
  apply InStep.of_steps rfl
  intro i hi
  apply step_withConfig_of_not_skips _ _ (h i hi)
  · rw [after_config]
    rfl
  · rw [after_config]
    rfl

/-- **Strictness turns skips into faults.** A machine made strict gives the same results as the machine
made lenient, and is equal to it but for being strict, until the lenient one passes over a byte. That
step fails instead, with this byte and its address, and halts. Passing over the byte has done nothing
but move the counters on, after a delivery if there is one; and the strict machine is what the lenient
one then is, with the counters not moved on. Nothing else comes of strictness: a lenient machine refuses
no byte for being unnamed, and a strict one passes over none. -/
theorem strictness_turns_skips_into_faults (m : Machine) (n : Nat) :
    let lenient := m.withStrict false
    let strict := m.withStrict true
    ((∀ i < n, ¬ Skips (lenient.after i)) →
      InStep lenient strict n ∧ ∀ pc byte, (lenient.after n).step.1 = .ok (.skipped pc byte) →
        let base := (lenient.after n).start
        let passed := (lenient.after n).step.2
        base.regs.pc = pc ∧ PassedOver base byte passed
        ∧ (strict.after n).step = (.error (.invalidInstruction byte pc), { passed with
            regs := { passed.regs with pc }
            cycles := (lenient.after n).cycles
            phase := .halted
            config := strict.config }))
    ∧ (∀ byte pc, (lenient.after n).step.1 ≠ .error (.invalidInstruction byte pc))
    ∧ ∀ pc byte, (strict.after n).step.1 ≠ .ok (.skipped pc byte) := by
  intro lenient strict
  have hlenient : (lenient.after n).config.strict = false := by
    rw [after_config]
    rfl
  have hstrict : (strict.after n).config.strict = true := by
    rw [after_config]
    rfl
  refine ⟨?_, fun byte pc => step_ne_invalid hlenient, ?_⟩
  · intro hbefore
    have hstep : InStep lenient strict n := inStep_withStrict m hbefore
    refine ⟨hstep, ?_⟩
    intro pc byte hskip base passed
    obtain ⟨hm, -, -, -, hpc, -, hleft⟩ := step_of_skipped hskip
    have hcycles : base.cycles = (lenient.after n).cycles := by
      rw [← (lenient.after n).entry_cycles, entry_eq_start hm]
    refine ⟨hpc.symm, passedOver_of_skipped hskip, ?_⟩
    rw [hstep.state n le_rfl, step_withConfig_of_skipped rfl hskip, ← hcycles, hpc,
      show passed = _ from hleft]
    rfl
  · intro pc byte hskip
    exact not_skips_of_strict hstrict ⟨pc, byte, hskip⟩

/-- A machine that raises and unmasks interrupt 0, whose handler starts with a byte that names
nothing. -/
def straying : Machine :=
  { powerOn {} with
    mem := ((((((Memory.blank.setCell 0 Opcode.ldi.byte).setCell 1 5).setCell 2 1).setCell 3
      Opcode.ldi.byte).setCell 4 6).setCell 5 1 |>.setCell vectorBase 0x10).setCell 0x10 0xFF }

theorem strictness_turns_skips_into_faults_straying :
    let lenient := straying.withStrict false
    let strict := straying.withStrict true
    (∀ i < 2, ¬ Skips (lenient.after i))
      ∧ (lenient.after 2).step.1 = .ok (.skipped 0x10 0xFF)
      ∧ (strict.after 2).step.1 = .error (.invalidInstruction 0xFF 0x10)
      ∧ (lenient.after 2).step.2.regs.pc = 0x14 ∧ (strict.after 2).step.2.regs.pc = 0x10
      ∧ (strict.after 2).step.2.cycles = 2
      ∧ (strict.after 2).step.2.mem = (lenient.after 2).step.2.mem := by
  intro lenient strict
  have hbefore : ∀ i < 2, ¬ Skips (lenient.after i) := by decide +kernel
  have hskip : (lenient.after 2).step.1 = .ok (.skipped 0x10 0xFF) := by decide +kernel
  have hcycles : (lenient.after 2).cycles = 2 := by decide +kernel
  obtain ⟨hruns, -, -⟩ := strictness_turns_skips_into_faults straying 2
  obtain ⟨-, hparts⟩ := hruns hbefore
  obtain ⟨hpc, hpassed, hstrict⟩ := hparts _ _ hskip
  have hcounter : (lenient.after 2).step.2.regs.pc = 0x10 + 1 + ((0xFF : UInt8) >>> 6).toNat := by
    rw [hpassed.counter, hpc]
  refine ⟨hbefore, hskip, ?_, hcounter, ?_, ?_, ?_⟩
  · rw [hstrict]
  · rw [hstrict]
  · rw [hstrict, hcycles]
  · rw [hstrict]

end Machine

end EightBit
