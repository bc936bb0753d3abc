import EightBit.Program
import EightBit.Program.Disassembly

/-!
# EightBit.Program.Listing -- a program as a listing

A listing sweeps the bytes from the first to the last, one entry an instruction. An entry shows its
address, its assembly text and its bytes, and the source line with the same index as its address if
there is one. The sweep always moves on, since nothing takes up fewer than one byte.
-/

namespace EightBit

/-- One instruction of a listing. -/
structure ListingEntry where
  address : Nat
  code : Disassembled
  /-- The bytes it takes up, as far as the program has them. -/
  bytes : List UInt8
  /-- The source line shown beside it. -/
  source : Option String
deriving DecidableEq, Repr

namespace ListingEntry

/-- The bytes in hexadecimal, with blanks between them. -/
def hexColumn (e : ListingEntry) : String :=
  " ".intercalate (e.bytes.map Text.hexByte)

/-- The address, the assembly text and the bytes. -/
def columns (e : ListingEntry) : String :=
  Text.hex e.address ++ ": " ++ Text.padRight 12 e.code.text ++ " ; " ++ e.hexColumn

/-- The line of a listing, without its ending. -/
def text (e : ListingEntry) : String :=
  match e.source with
  | some line => Text.padRight 27 e.columns ++ " | " ++ line
  | none => e.columns

end ListingEntry

namespace Program

/-- The entry for what stands at the start of some bytes, found at `address`. -/
def entryAt (source : List String) (address : Nat) (bytes : List UInt8) : ListingEntry :=
  let code := Disassembled.ofBytes bytes
  ⟨address, code, bytes.take code.length, source[address]?⟩

/-- The entries for bytes that start at `address`. -/
def entriesFrom (source : List String) (address : Nat) (bytes : List UInt8) : List ListingEntry :=
  if bytes.isEmpty then []
  else
    entryAt source address bytes
      :: entriesFrom source (address + (Disassembled.ofBytes bytes).length)
          (bytes.drop (Disassembled.ofBytes bytes).length)
termination_by bytes.length
decreasing_by
  have := (Disassembled.ofBytes bytes).length_pos
  have : 0 < bytes.length := by simpa [List.length_pos_iff] using ‹¬bytes.isEmpty = true›
  rw [List.length_drop]
  omega

/-- The entries of a program. -/
def entries (p : Program) : List ListingEntry :=
  entriesFrom p.sourceLines 0 p.bytes

/-- The lines above the entries of a listing. -/
def listingHeader : String :=
  "; LS-8 Disassembly\n; ----------------\n\n"

/-- The listing of a program. -/
def listing (p : Program) : String :=
  listingHeader ++ String.join (p.entries.map fun e => e.text ++ "\n")

end Program

end EightBit
