/-
# EightBit.Proofs.Dispatch -- what a handler finds

A dispatch pushes nine bytes: the address to return to, the flags, and `R0` to `R6`, the status
register with the bit of the interrupt already cleared. `Machine.dispatched` reads: the frame below
the old stack pointer, at any stack pointer; everything outside the frame as it was; control at what
the vector held **before** the first push.

`Machine.entry` is the machine at which the instruction of a cycle starts, after the dispatch if one
is made. Statements about what an instruction does are statements about that machine.
-/
import EightBit.Proofs.State

namespace EightBit

/-! ## The lowest bit -/

/-- Bit `n` is set in the byte, and no bit below it. -/
def IsLowestBit (n : Fin 8) (byte : UInt8) : Prop :=
  byte.toNat.testBit n ∧ ∀ k < n, ¬ byte.toNat.testBit k

theorem toNat_bit (n : Fin 8) : (bit n).toNat = 2 ^ n.val := by
  revert n
  decide

theorem and_bit_ne_zero_iff (byte : UInt8) (n : Fin 8) :
    byte &&& bit n ≠ 0 ↔ byte.toNat.testBit n := by
  rw [ne_eq, ← UInt8.toNat_inj, UInt8.toNat_and, toNat_bit, Nat.and_two_pow, UInt8.toNat_zero]
  cases byte.toNat.testBit n with
  | false => simp
  | true => simp

/-- Clearing a bit leaves the others as they are. -/
theorem testBit_clear (byte : UInt8) (n k : Fin 8) :
    (byte &&& ~~~bit n).toNat.testBit k = (byte.toNat.testBit k && decide (k ≠ n)) := by
  have hmask : ∀ n k : Fin 8, (~~~bit n).toNat.testBit k = decide (k ≠ n) := by decide
  rw [UInt8.toNat_and, Nat.testBit_and, hmask]

theorem lowestBit?_eq_some_iff {byte : UInt8} {n : Fin 8} :
    lowestBit? byte = some n ↔ IsLowestBit n byte := by
  have hbit : ∀ k : Fin 8, (byte &&& bit k != 0) = byte.toNat.testBit k := by
    intro k
    rw [Bool.eq_iff_iff, bne_iff_ne, and_bit_ne_zero_iff]
  rw [lowestBit?, List.find?_eq_some_iff_getElem, hbit, IsLowestBit]
  constructor
  · rintro ⟨hn, i, hi, rfl, hlow⟩
    refine ⟨hn, ?_⟩
    intro k hk
    rw [List.getElem_finRange] at hk
    have h := hlow k.val hk
    rw [List.getElem_finRange, hbit] at h
    simpa using h
  · rintro ⟨hn, hlow⟩
    refine ⟨hn, n.val, by simp, by simp, ?_⟩
    intro j hj
    rw [List.getElem_finRange, hbit]
    simpa using hlow ⟨j, by omega⟩ hj

theorem lowestBit?_eq_none_iff {byte : UInt8} : lowestBit? byte = none ↔ byte = 0 := by
  rw [lowestBit?, List.find?_eq_none]
  constructor
  · intro h
    rw [← UInt8.toNat_inj, UInt8.toNat_zero]
    apply Nat.eq_of_testBit_eq
    intro i
    rw [Nat.zero_testBit]
    by_cases hi : i < 8
    · have hi' := h ⟨i, hi⟩ (List.mem_finRange _)
      rw [bne_iff_ne, and_bit_ne_zero_iff] at hi'
      simpa using hi'
    · have hlt : byte.toNat < 2 ^ i :=
        Nat.lt_of_lt_of_le byte.toNat_lt (Nat.pow_le_pow_right (by decide) (Nat.not_lt.mp hi))
      exact Nat.testBit_lt_two_pow hlt
  · rintro rfl k _
    simp

namespace Machine

/-- Whether interrupt `n` has been raised. -/
def Raised (m : Machine) (n : Fin 8) : Prop :=
  (m.regs.get interruptStatus).toNat.testBit n = true

instance (m : Machine) (n : Fin 8) : Decidable (Raised m n) :=
  inferInstanceAs (Decidable (_ = true))

theorem pendingInterrupt?_eq_some_iff {m : Machine} {n : Fin 8} :
    m.pendingInterrupt? = some n ↔ m.regs.interruptsEnabled = true
      ∧ IsLowestBit n (m.regs.get interruptMask &&& m.regs.get interruptStatus) := by
  rw [pendingInterrupt?, ← lowestBit?_eq_some_iff]
  cases m.regs.interruptsEnabled <;> simp

theorem pendingInterrupt?_eq_none_iff {m : Machine} :
    m.pendingInterrupt? = none ↔ m.regs.interruptsEnabled = false
      ∨ m.regs.get interruptMask &&& m.regs.get interruptStatus = 0 := by
  rw [pendingInterrupt?, ← lowestBit?_eq_none_iff]
  cases m.regs.interruptsEnabled <;> simp

/-! ## The frame -/

/-- Pushing bytes changes registers and cells alone. -/
theorem pushAll_eq (m : Machine) (bytes : List UInt8) :
    ∃ gp cells, m.pushAll bytes
      = { m with regs := { m.regs with gp }, mem := { m.mem with cells } } := by
  induction bytes generalizing m with
  | nil => exact ⟨m.regs.gp, m.mem.cells, rfl⟩
  | cons v vs ih =>
    obtain ⟨gp, cells, h⟩ := ih (m.push v)
    exact ⟨gp, cells, h⟩

/-- Pushing registers in turn pushes the values they have at the start, since a push changes none of
them but the stack pointer. -/
theorem foldl_push_eq (m : Machine) (is : List RegisterIndex) (hsp : stackPointer ∉ is) :
    is.foldl (fun m i => m.push (m.regs.get i)) m = m.pushAll (is.map m.regs.get) := by
  induction is generalizing m with
  | nil => rfl
  | cons i is ih =>
    rw [List.mem_cons, not_or] at hsp
    -- the registers still to come read the same before this push as after it
    have hmap : is.map (m.push (m.regs.get i)).regs.get = is.map m.regs.get := by
      apply List.map_congr_left
      intro j hj
      refine push_get m _ ?_
      rintro rfl
      exact hsp.2 hj
    rw [List.foldl_cons, ih _ hsp.2, hmap]
    rfl

/-- What a dispatch of interrupt `n` pushes, in order. -/
def frame (m : Machine) (n : Fin 8) : List UInt8 :=
  UInt8.ofNat m.regs.pc :: m.regs.fl.toByte :: savedRegisters.map fun i =>
    if interruptStatus = i then m.regs.get interruptStatus &&& ~~~bit n else m.regs.get i

/-- The machine after the delivery of interrupt `n`. -/
def dispatched (m : Machine) (n : Fin 8) : Machine :=
  ((m.acknowledge n).pushFrame (UInt8.ofNat m.regs.pc)).jump
    (m.mem.cell (vectorBase + UInt8.ofNat n))

theorem dispatch_of_le {m : Machine} (hpc : m.regs.pc ≤ 255) (n : Fin 8) :
    m.dispatch n
      = .ok (⟨n, m.regs.pc, m.mem.cell (vectorBase + UInt8.ofNat n)⟩, m.dispatched n) :=
  if_pos (Nat.lt_succ_of_le hpc)

theorem dispatch_of_lt {m : Machine} (hpc : 255 < m.regs.pc) (n : Fin 8) :
    m.dispatch n = .error (.memory ⟨m.regs.pc⟩) :=
  if_neg (Nat.not_lt.mpr hpc)

theorem acknowledge_get (m : Machine) (n : Fin 8) (i : RegisterIndex) :
    (m.acknowledge n).regs.get i
      = if interruptStatus = i then m.regs.get interruptStatus &&& ~~~bit n
        else m.regs.get i :=
  Registers.get_set ..

theorem acknowledge_sp (m : Machine) (n : Fin 8) : (m.acknowledge n).regs.sp = m.regs.sp :=
  (acknowledge_get m n stackPointer).trans (if_neg (by decide))

theorem length_frame (m : Machine) (n : Fin 8) : (m.frame n).length = 9 := rfl

theorem pushFrame_acknowledge (m : Machine) (n : Fin 8) :
    (m.acknowledge n).pushFrame (UInt8.ofNat m.regs.pc) = (m.acknowledge n).pushAll (m.frame n) := by
  set base := ((m.acknowledge n).push (UInt8.ofNat m.regs.pc)).push m.regs.fl.toByte with hbase
  have hmap : savedRegisters.map base.regs.get
      = savedRegisters.map fun i =>
          if interruptStatus = i then m.regs.get interruptStatus &&& ~~~bit n
          else m.regs.get i := by
    apply List.map_congr_left
    intro i hi
    have hsp : i ≠ stackPointer := by
      rintro rfl
      exact absurd hi (by decide)
    rw [hbase, push_get _ _ hsp, push_get _ _ hsp, acknowledge_get]
  show savedRegisters.foldl (fun m i => m.push (m.regs.get i)) base = _
  rw [foldl_push_eq _ _ (by decide), hmap]
  rfl

/-! ## What is read off a machine after a dispatch -/

variable (m : Machine) (n : Fin 8)

theorem dispatched_sp : (m.dispatched n).regs.sp = m.regs.sp - 9 := by
  show ((m.acknowledge n).pushFrame _).regs.sp = _
  rw [pushFrame_acknowledge, pushAll_sp, acknowledge_sp, length_frame]
  rfl

theorem dispatched_get {i : RegisterIndex} (hi : i ≠ stackPointer) :
    (m.dispatched n).regs.get i
      = if interruptStatus = i then m.regs.get interruptStatus &&& ~~~bit n
        else m.regs.get i := by
  show ((m.acknowledge n).pushFrame _).regs.get i = _
  rw [pushFrame_acknowledge, pushAll_get _ _ hi, acknowledge_get]

/-- **The frame.** The nine cells below the old stack pointer hold the frame, wherever that is;
every other cell is as it was. -/
theorem dispatched_cell (a : UInt8) :
    (m.dispatched n).mem.cell a = (m.frame n)[depth m.regs.sp a]?.getD (m.mem.cell a) := by
  show ((m.acknowledge n).pushFrame _).mem.cell a = _
  rw [pushFrame_acknowledge, pushAll_cell _ _ (by rw [length_frame]; decide), acknowledge_sp]
  rfl

/-- Registers and cells apart, a dispatch moves the program counter, turns interrupts off and latches
the vector. -/
theorem dispatched_eq :
    ∃ gp cells, m.dispatched n
      = { m with
          regs :=
            { m.regs with
              gp
              pc := (m.mem.cell (vectorBase + UInt8.ofNat n)).toNat
              interruptsEnabled := false }
          mem := ⟨cells, m.mem.cell (vectorBase + UInt8.ofNat n)⟩ } := by
  obtain ⟨gp, cells, h⟩ := pushAll_eq (m.acknowledge n) (m.frame n)
  refine ⟨gp, cells, ?_⟩
  rw [dispatched, pushFrame_acknowledge, h]
  rfl

theorem dispatched_pc :
    (m.dispatched n).regs.pc = (m.mem.cell (vectorBase + UInt8.ofNat n)).toNat := rfl

/-! ## Where a cycle's instruction starts -/

/-- The machine after the interrupt that is due, if one is due and can be delivered. -/
def entry (m : Machine) : Machine :=
  match m.takeInterrupt with
  | .ok (_, m) => m
  | .error _ => m

variable {m n}

theorem takeInterrupt_of_none (h : m.pendingInterrupt? = none) :
    m.takeInterrupt = .ok (none, m) := by
  simp only [takeInterrupt, h]

theorem takeInterrupt_of_le (h : m.pendingInterrupt? = some n) (hpc : m.regs.pc ≤ 255) :
    ∃ d, m.takeInterrupt = .ok (some d, m.dispatched n) := by
  simp only [takeInterrupt, h, dispatch_of_le hpc]
  exact ⟨_, rfl⟩

theorem takeInterrupt_of_lt (h : m.pendingInterrupt? = some n) (hpc : 255 < m.regs.pc) :
    m.takeInterrupt = .error (.memory ⟨m.regs.pc⟩) := by
  simp only [takeInterrupt, h, dispatch_of_lt hpc]
  rfl

theorem entry_of_none (h : m.pendingInterrupt? = none) : m.entry = m := by
  rw [entry, takeInterrupt_of_none h]

theorem entry_of_lt (hpc : 255 < m.regs.pc) : m.entry = m := by
  cases h : m.pendingInterrupt? with
  | none => exact entry_of_none h
  | some n => rw [entry, takeInterrupt_of_lt h hpc]

theorem entry_of_pending (h : m.pendingInterrupt? = some n) (hpc : m.regs.pc ≤ 255) :
    m.entry = m.dispatched n := by
  obtain ⟨d, hd⟩ := takeInterrupt_of_le h hpc
  rw [entry, hd]

end Machine

end EightBit
