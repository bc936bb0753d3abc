/-
# EightBit.Proofs.InstructionTable -- what every instruction reads, writes and refuses

The instruction set as a table. A row says, in terms of the machine **before** the instruction alone,
what the instruction changes: new values for registers, new flags, one stored byte, a place to go on
at. Arithmetic is written on natural numbers and wrapped once, by `UInt8.ofNat`; in this form a shift
by eight or more needs no case of its own. What a row does not name keeps its value.

Beside the table stands what an instruction refuses: the operand bytes that have to number a register,
in the order in which they are checked, and the one further check that some instructions make.

The engine is proved to be this table in `EightBit.Proofs.Execution`; nothing here refers to it.
-/
import EightBit.Proofs.State

namespace EightBit

/-! ## Effects -/

/-- What an instruction changes. -/
structure Effect where
  /-- The new values of the registers that get one. -/
  registers : RegisterIndex → Option UInt8 := fun _ => none
  flags : Option Flags := none
  /-- The address and the value of the byte that is stored. -/
  store : Option (UInt8 × UInt8) := none
  /-- Where control goes; without it, to the next instruction. -/
  target : Option UInt8 := none
  /-- Whether interrupts are on from here on, whatever they were. -/
  enables : Bool := false
  halts : Bool := false
  /-- The byte of memory that is read last. -/
  latch : Option UInt8 := none
  output : Option Output := none

namespace Effect

/-- A value for one register alone. -/
def only (i : RegisterIndex) (value : UInt8) : RegisterIndex → Option UInt8 :=
  fun j => if i = j then some value else none

/-- The machine after an instruction of `operands` operand bytes with this effect, its cycle
counted. -/
def apply (e : Effect) (operands : Nat) (m : Machine) : Machine where
  regs :=
    { gp := Vector.ofFn fun i => (e.registers i).getD (m.regs.get i)
      pc := e.target.elim (m.regs.pc + 1 + operands) UInt8.toNat
      ir := m.regs.ir
      fl := e.flags.getD m.regs.fl
      interruptsEnabled := e.enables || m.regs.interruptsEnabled }
  mem :=
    { cells := (e.store.elim m.mem fun w => m.mem.setCell w.1 w.2).cells
      mdr := e.latch.getD m.mem.mdr }
  phase := if e.halts then .halted else m.phase
  cycles := m.cycles + 1
  config := m.config

variable (e : Effect) (operands : Nat) (m : Machine)

@[simp] theorem apply_get (i : RegisterIndex) :
    (e.apply operands m).regs.get i = (e.registers i).getD (m.regs.get i) := by
  simp [apply, Registers.get]

@[simp] theorem apply_cell (a : UInt8) :
    (e.apply operands m).mem.cell a
      = e.store.elim (m.mem.cell a) fun w => if w.1 = a then w.2 else m.mem.cell a := by
  cases hs : e.store with
  | none =>
    show Memory.cell ⟨(e.store.elim m.mem _).cells, _⟩ a = _
    rw [hs]
    rfl
  | some w =>
    show Memory.cell ⟨(e.store.elim m.mem _).cells, _⟩ a = _
    rw [hs]
    exact m.mem.cell_setCell w.1 a w.2

theorem getD_only (i j : RegisterIndex) (v w : UInt8) :
    (only i v j).getD w = if i = j then v else w := by
  rw [only]
  by_cases h : i = j
  · rw [if_pos h, if_pos h]
    rfl
  · rw [if_neg h, if_neg h]
    rfl

/-- Writing one register is what a row that writes only this one says. -/
theorem get_set_only (r : Registers) (i j : RegisterIndex) (v : UInt8) :
    (r.set i v).get j = (only i v j).getD (r.get j) :=
  (Registers.get_set ..).trans (getD_only ..).symm

variable {e operands m} in
/-- A machine is the one after an instruction if it reads as that one does: register by register, cell
by cell, and in all the rest. -/
theorem eq_apply {m' : Machine}
    (hget : ∀ i, m'.regs.get i = (e.registers i).getD (m.regs.get i))
    (hcell : ∀ a, m'.mem.cell a
      = e.store.elim (m.mem.cell a) fun w => if w.1 = a then w.2 else m.mem.cell a)
    (hrest : (m'.regs.pc, m'.regs.ir, m'.regs.fl, m'.regs.interruptsEnabled, m'.mem.mdr, m'.phase,
        m'.cycles, m'.config)
      = (e.target.elim (m.regs.pc + 1 + operands) UInt8.toNat, m.regs.ir, e.flags.getD m.regs.fl,
        e.enables || m.regs.interruptsEnabled, e.latch.getD m.mem.mdr,
        if e.halts then .halted else m.phase, m.cycles + 1, m.config)) :
    m' = e.apply operands m := by
  simp only [Prod.mk.injEq] at hrest
  obtain ⟨hpc, hir, hfl, hie, hmdr, hphase, hcycles, hconfig⟩ := hrest
  exact Machine.ext_view (fun i => (hget i).trans (apply_get e operands m i).symm) hpc hir hfl hie
    (fun a => (hcell a).trans (apply_cell e operands m a).symm) hmdr hphase hcycles hconfig

end Effect

/-! ## The table -/

/-- The register that an operand byte numbers, of a byte above seven the one that its low bits
number. No instruction gets past its checks with such a byte. -/
def RegisterIndex.named (r : UInt8) : RegisterIndex :=
  ⟨r.toNat % 8, Nat.mod_lt _ (by decide)⟩

namespace Opcode

/-- Whether the flags let a conditional jump through. -/
def takes (op : Opcode) (fl : Flags) : Bool :=
  match op with
  | .jeq => fl.equal
  | .jne => !fl.equal
  | .jgt => fl.greater
  | .jlt => fl.less
  | .jle => fl.less || fl.equal
  | .jge => fl.greater || fl.equal
  | _ => false

/-- What an arithmetic instruction computes, before it is wrapped to a byte. -/
def arith (op : Opcode) (x y : Nat) : Nat :=
  match op with
  | .add => x + y
  | .sub => 256 + x - y
  | .mul => x * y
  | .div => x / y
  | .mod => x % y
  | .inc => x + 1
  | .dec => x + 255
  | .and => x &&& y
  | .not => 255 - x
  | .or => x ||| y
  | .xor => x ^^^ y
  | .shl => x * 2 ^ y
  | .shr => x / 2 ^ y
  | _ => 0

open RegisterIndex Effect in
/-- **The table**: what an instruction with operand bytes `a` and `b` changes. -/
def effect (op : Opcode) (a b : UInt8) (m : Machine) : Effect :=
  let x := m.regs.get (named a)
  let y := m.regs.get (named b)
  let sp := m.regs.get stackPointer
  match op with
  | .nop => {}
  | .hlt => { halts := true }
  | .ldi => { registers := only (named a) b }
  | .ld => { registers := only (named a) (m.mem.cell y), latch := some (m.mem.cell y) }
  | .st => { store := some (x, y) }
  | .push => { store := some (sp - 1, x), registers := only stackPointer (sp - 1) }
  | .pop =>
    { registers := fun i =>
        if named a = i then some (m.mem.cell sp) else only stackPointer (sp + 1) i
      latch := some (m.mem.cell sp) }
  | .prn => { output := some (.number x) }
  | .pra => { output := some (.char x) }
  | .add | .sub | .mul | .div | .mod | .inc | .dec | .and | .not | .or | .xor | .shl | .shr =>
    { registers := only (named a) (UInt8.ofNat (op.arith x.toNat y.toNat)) }
  | .cmp => { flags := some ⟨x.toNat = y.toNat, y.toNat < x.toNat, x.toNat < y.toNat⟩ }
  | .call =>
    { store := some (sp - 1, UInt8.ofNat (m.regs.pc + 2))
      registers := only stackPointer (sp - 1)
      target := some x }
  | .ret =>
    { registers := only stackPointer (sp + 1)
      target := some (m.mem.cell sp)
      latch := some (m.mem.cell sp) }
  | .int =>
    { registers := only interruptStatus
        (m.regs.get interruptStatus ||| UInt8.ofNat (2 ^ x.toNat)) }
  | .iret =>
    -- from the stack pointer up: `R6` down to `R0`, then the flags, then the way back
    { registers := fun i =>
        some (if i = stackPointer then sp + 9 else m.mem.cell (sp + UInt8.ofNat (6 - i.val)))
      flags := some (Flags.ofByte (m.mem.cell (sp + 7)))
      target := some (m.mem.cell (sp + 8))
      enables := true
      latch := some (m.mem.cell (sp + 8)) }
  | .jmp => { target := some a }
  | .jeq | .jne | .jgt | .jlt | .jle | .jge =>
    { target := if op.takes m.regs.fl then some x else none }

/-! ## Refusals -/

/-- The operand bytes that have to number a register, in the order in which they are checked. -/
def registerOperands (op : Opcode) (a b : UInt8) (fl : Flags) : List UInt8 :=
  match op with
  | .nop | .hlt | .ret | .iret | .jmp => []
  | .ldi | .push | .pop | .prn | .pra | .inc | .dec | .not | .call | .int => [a]
  | .ld => [b, a]
  | .st | .add | .sub | .mul | .div | .mod | .cmp | .and | .or | .xor | .shl | .shr => [a, b]
  | .jeq | .jne | .jgt | .jlt | .jle | .jge => if op.takes fl then [a] else []

/-- What an instruction refuses once its registers are known to be registers. -/
def ownRefusal (op : Opcode) (a b : UInt8) (m : Machine) : Option Fault :=
  let x := m.regs.get (RegisterIndex.named a)
  let y := m.regs.get (RegisterIndex.named b)
  match op with
  | .call => if 255 < m.regs.pc + 2 then some (.memory ⟨m.regs.pc + 2⟩) else none
  | .int => if 7 < x.toNat then some (.invalidInterrupt x) else none
  | .div | .mod => if y = 0 then some (.alu .divisionByZero) else none
  | _ => none

/-- What an instruction refuses: the first operand byte that numbers no register, and after that
what it refuses on its own account. -/
def refusal (op : Opcode) (a b : UInt8) (m : Machine) : Option Fault :=
  match (op.registerOperands a b m.regs.fl).find? (fun r => decide (7 < r.toNat)) with
  | some r => some (.register ⟨r⟩)
  | none => op.ownRefusal a b m

/-- An instruction refuses nothing exactly if its register operands number registers and it has
nothing to refuse on its own account. -/
theorem refusal_eq_none_iff {op : Opcode} {a b : UInt8} {m : Machine} :
    op.refusal a b m = none
      ↔ (∀ r ∈ op.registerOperands a b m.regs.fl, ¬ 7 < r.toNat) ∧ op.ownRefusal a b m = none := by
  rw [refusal]
  cases hfind : (op.registerOperands a b m.regs.fl).find? (fun r => decide (7 < r.toNat)) with
  | none =>
    have hall : ∀ r ∈ op.registerOperands a b m.regs.fl, ¬ 7 < r.toNat := by
      intro r hr
      simpa using List.find?_eq_none.mp hfind r hr
    exact ⟨fun h => ⟨hall, h⟩, fun h => h.2⟩
  | some r =>
    refine ⟨fun h => (nomatch h), fun h => ?_⟩
    have hr : 7 < r.toNat := by simpa using List.find?_some hfind
    exact absurd hr (h.1 r (List.mem_of_find?_eq_some hfind))

/-- An instruction looks at no more operand bytes than it declares. -/
theorem effect_of_arity {op : Opcode} {a b a' b' : UInt8} (m : Machine)
    (ha : 1 ≤ op.declaredArity → a = a') (hb : 2 ≤ op.declaredArity → b = b') :
    op.effect a b m = op.effect a' b' m ∧ op.refusal a b m = op.refusal a' b' m := by
  -- without operand bytes both rows ignore `a` and `b`; with one, both ignore `b`
  cases hop : op.declaredArity with
  | zero => cases op <;> first | exact absurd hop (by decide) | exact ⟨rfl, rfl⟩
  | succ k =>
    obtain rfl := ha (by omega)
    cases k with
    | zero => cases op <;> first | exact absurd hop (by decide) | exact ⟨rfl, rfl⟩
    | succ k =>
      obtain rfl := hb (by omega)
      exact ⟨rfl, rfl⟩

/-! ## Which registers a row writes -/

/-- The register that an instruction writes because its first operand numbers it. -/
def destination? (op : Opcode) (a : UInt8) : Option RegisterIndex :=
  match op with
  | .ldi | .ld | .pop => some (RegisterIndex.named a)
  | .add | .sub | .mul | .div | .mod | .inc | .dec | .and | .not | .or | .xor | .shl | .shr =>
    some (RegisterIndex.named a)
  | _ => none

/-- The registers that an instruction writes whatever its operands are. -/
def implied (op : Opcode) : List RegisterIndex :=
  match op with
  | .push | .pop | .call | .ret => [stackPointer]
  | .int => [interruptStatus]
  | .iret => List.finRange 8
  | _ => []

/-- A register that is neither of these keeps its value. -/
theorem effect_registers_eq_none {op : Opcode} {a : UInt8} {i : RegisterIndex}
    (hdest : op.destination? a ≠ some i) (himp : i ∉ op.implied) (b : UInt8) (m : Machine) :
    (op.effect a b m).registers i = none := by
  have hother : ∀ {j : RegisterIndex} {v : UInt8}, j ≠ i → Effect.only j v i = none :=
    fun h => if_neg h
  cases op
  case ldi | ld | add | sub | mul | div | mod | inc | dec | and | not | or | xor | shl | shr =>
    exact hother fun h => hdest (congrArg some h)
  case push | call | ret | int => exact hother fun h => himp (List.mem_singleton.mpr h.symm)
  case pop =>
    refine (if_neg fun h => hdest (congrArg some h)).trans ?_
    exact hother fun h => himp (List.mem_singleton.mpr h.symm)
  case iret => exact absurd (List.mem_finRange i) himp
  all_goals rfl

end Opcode

end EightBit
