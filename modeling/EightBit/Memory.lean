/-
# EightBit.Memory -- 256 cells and the latch of the last read

A memory has 256 byte cells. An access by a wider address than a byte is checked, and an address
past the last cell is an error that changes nothing; an access by a byte cannot miss. Reading
latches the value in the **data register** `mdr`; peeking does not.
-/

namespace EightBit

/-- The cells of a memory and the value that was read last. -/
structure Memory where
  /-- The cells, by address. -/
  cells : Vector UInt8 256
  /-- The value read last. -/
  mdr : UInt8
deriving DecidableEq

/-- An address that no cell has. -/
structure OutOfBounds where
  /-- The address asked for. -/
  address : Nat
deriving DecidableEq, Repr

namespace Memory

/-- The number of cells. -/
def size : Nat := 256

/-- A memory of zeros from which nothing has been read. -/
def blank : Memory := ⟨Vector.replicate 256 0, 0⟩

/-! ## Access by a byte -/

/-- The value of the cell at `a`. -/
def cell (m : Memory) (a : UInt8) : UInt8 :=
  have : a.toNat < 256 := a.toNat_lt
  m.cells[a.toNat]

/-- The memory with `value` in the cell at `a`. -/
def setCell (m : Memory) (a value : UInt8) : Memory :=
  { m with cells := m.cells.set a.toNat value a.toNat_lt }

/-- The memory after the cell at `a` has been read. -/
def latch (m : Memory) (a : UInt8) : Memory :=
  { m with mdr := m.cell a }

@[simp] theorem cell_latch (m : Memory) (a b : UInt8) : (m.latch a).cell b = m.cell b := rfl

@[simp] theorem mdr_latch (m : Memory) (a : UInt8) : (m.latch a).mdr = m.cell a := rfl

@[simp] theorem mdr_setCell (m : Memory) (a v : UInt8) : (m.setCell a v).mdr = m.mdr := rfl

/-- A write is seen at its own address and nowhere else. -/
@[simp] theorem cell_setCell (m : Memory) (a b v : UInt8) :
    (m.setCell a v).cell b = if a = b then v else m.cell b := by
  simp only [cell, setCell, Vector.getElem_set, UInt8.toNat_inj]

/-! ## Access by a checked address -/

/-- The value of the cell at `address`. -/
def peek (m : Memory) (address : Nat) : Except OutOfBounds UInt8 :=
  if h : address < 256 then .ok m.cells[address] else .error ⟨address⟩

/-- The value of the cell at `address`, and the memory that has latched it. -/
def read (m : Memory) (address : Nat) : Except OutOfBounds (UInt8 × Memory) :=
  if h : address < 256 then .ok (m.cells[address], { m with mdr := m.cells[address] })
  else .error ⟨address⟩

/-- The memory with `value` in the cell at `address`. -/
def write (m : Memory) (address : Nat) (value : UInt8) : Except OutOfBounds Memory :=
  if h : address < 256 then .ok { m with cells := m.cells.set address value }
  else .error ⟨address⟩

/-- The memory with `program` in its first cells; a program longer than the memory is refused
whole, with the first address it would have overrun. -/
def load (m : Memory) (program : List UInt8) : Except OutOfBounds Memory :=
  if program.length ≤ 256 then
    .ok { m with cells := Vector.ofFn fun i => program[i.val]?.getD m.cells[i] }
  else .error ⟨256⟩

/-- A memory of zeros, with the latch cleared as well. -/
def clear (_ : Memory) : Memory := blank

/-! ## Views -/

/-- The values of all cells in address order. -/
def toList (m : Memory) : List UInt8 := m.cells.toList

/-- The sum of two 64-bit addresses; the greatest address if the sum is past it. -/
def addressSum (a b : Nat) : Nat := min (a + b) (UInt64.size - 1)

/-- The cells from `start` on, at most `count` of them, each with its address. Where the range would
end past the greatest address it ends there, and so does not come round to the first cells. -/
def dump (m : Memory) (start count : Nat) : List (Nat × UInt8) :=
  let stop := min (addressSum start count) size
  (List.range' start (stop - start)).map fun i => (i, m.cell (UInt8.ofNat i))

/-- The number of cells that do not hold zero. -/
def nonZeroCount (m : Memory) : Nat :=
  m.toList.countP (· != 0)

/-- A one-line summary of the memory. -/
def summary (m : Memory) : String :=
  "Memory \x7b non_zero_cells: " ++ toString m.nonZeroCount ++ ", total_cells: 256, mdr: "
    ++ toString m.mdr.toNat ++ " \x7d"

end Memory

end EightBit
