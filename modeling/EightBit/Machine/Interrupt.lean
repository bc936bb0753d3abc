import EightBit.Machine

/-!
# EightBit.Machine.Interrupt -- dispatch at the start of a cycle

Before it fetches, a cycle delivers the lowest interrupt that is both raised and not masked,
provided interrupts are enabled. The vector is read first; then interrupts go off and the
interrupt's status bit is cleared; then the program counter, the flags and `R0` to `R6` are
pushed; and control goes to the vector. The frame may overwrite the vector table: the vector that
counts is the one read before the first push.
-/

namespace EightBit

/-- The address of the vector of interrupt 0; the other vectors follow it. -/
def vectorBase : UInt8 := 0xF8

/-- The byte whose only set bit is bit `n`. -/
def bit (n : Fin 8) : UInt8 := 1 <<< UInt8.ofNat n

/-- The lowest bit that is set in a byte. -/
def lowestBit? (byte : UInt8) : Option (Fin 8) :=
  (List.finRange 8).find? fun n => byte &&& bit n != 0

/-- An interrupt that was delivered. -/
structure Dispatch where
  /-- Its number. -/
  number : Fin 8
  /-- The program counter it was delivered at. -/
  source : Nat
  /-- The address its vector holds. -/
  target : UInt8
deriving DecidableEq, Repr

namespace Machine

/-- The interrupt to deliver: the lowest raised and unmasked one, if interrupts are enabled. -/
def pendingInterrupt? (m : Machine) : Option (Fin 8) :=
  if m.regs.interruptsEnabled then
    lowestBit? (m.regs.get interruptMask &&& m.regs.get interruptStatus)
  else none

/-- The machine with the interrupt's vector read, interrupts off and its status bit cleared. -/
def acknowledge (m : Machine) (n : Fin 8) : Machine :=
  let status := m.regs.get interruptStatus &&& ~~~bit n
  { m with
    mem := m.mem.latch (vectorBase + UInt8.ofNat n)
    regs := { m.regs.set interruptStatus status with interruptsEnabled := false } }

/-- The machine after pushing what a handler must find again: the address to return to, the flags,
and `R0` to `R6`. -/
def pushFrame (m : Machine) (back : UInt8) : Machine :=
  savedRegisters.foldl (fun m i => m.push (m.regs.get i)) ((m.push back).push m.regs.fl.toByte)

/-- The delivery of interrupt `n`, which fails before anything changes if the program counter does
not fit in the byte that is pushed for it. -/
def dispatch (m : Machine) (n : Fin 8) : Except Fault (Dispatch × Machine) :=
  let pc := m.regs.pc
  if pc < 256 then
    let vector := m.mem.cell (vectorBase + UInt8.ofNat n)
    .ok (⟨n, pc, vector⟩, ((m.acknowledge n).pushFrame (UInt8.ofNat pc)).jump vector)
  else .error (.memory ⟨pc⟩)

/-- The start of a cycle: the delivery of an interrupt if one is due. -/
def takeInterrupt (m : Machine) : Except Fault (Option Dispatch × Machine) :=
  match m.pendingInterrupt? with
  | none => .ok (none, m)
  | some n => (m.dispatch n).map fun (d, m) => (some d, m)

end Machine

end EightBit
