/-
Linear memory.

A memory is a row of bytes that grows by whole pages up to a limit fixed when
it was made. Two rules carry everything below. A range is tested as a whole
before any byte of it is touched, in unbounded arithmetic, so an address never
wraps and a refused operation has written nothing. And each operation that
writes puts one list of bytes at one place, through `overwrite`; a copy reads
its source in full before it writes, which is why overlapping ranges need no
case of their own.

New pages are taken to be there for the asking: what a host answers that has no
bytes left is not decided here.
-/
import WasmExec.Fault
import WasmExec.LittleEndian

set_option autoImplicit false

namespace WasmExec

/-- **A linear memory**: its bytes, and its size limits in pages. -/
structure Memory where
  bytes : ByteArray
  /-- The size at creation. -/
  minimum : Nat
  /-- The size now. -/
  current : Nat
  /-- The size that growing never passes. -/
  maximum : Nat

namespace Memory

/-! ## Pages -/

/-- The number of bytes in a page. -/
def pageSize : Nat := 65536

/-- The number of pages that 32-bit addresses reach. -/
def pageLimit : Nat := 65536

def zeroPage : ByteArray := ⟨Array.replicate pageSize 0⟩

/-- Appends pages of zeros. -/
def addPages (bytes : ByteArray) : Nat → ByteArray
  | 0 => bytes
  | n + 1 => addPages (bytes ++ zeroPage) n

/-- **A new memory of zeros.** A maximum beyond the page limit is lowered to
it; a minimum beyond it is refused before the two are compared. -/
def create (minimum maximum : UInt32) : Except Fault Memory :=
  if pageLimit < minimum.toNat then .error (.validation .memoryTooLarge)
  else if min maximum.toNat pageLimit < minimum.toNat then
    .error (.validation .minimumAboveMaximum)
  else
    .ok {
      bytes := addPages ByteArray.empty minimum.toNat
      minimum := minimum.toNat
      current := minimum.toNat
      maximum := min maximum.toNat pageLimit }

/-- The memory with more pages, unless that would pass the maximum. -/
def grow? (m : Memory) (delta : UInt32) : Option Memory :=
  if delta.toNat ≤ m.maximum - m.current then
    some { m with bytes := addPages m.bytes delta.toNat, current := m.current + delta.toNat }
  else none

/-- What a grow that was refused answers. -/
def growFailed : Word .w32 := -1#32

/-- **Grows the memory**: the number of pages before, and the memory after. A
grow that was refused leaves the memory as it is. -/
def grow (m : Memory) (delta : UInt32) : Word .w32 × Memory :=
  match m.grow? delta with
  | some grown => (BitVec.ofNat 32 m.current, grown)
  | none => (growFailed, m)

/-! ## Ranges -/

/-- The bytes from `start` on, `count` of them. -/
def slice (m : Memory) (start count : Nat) : List UInt8 :=
  (m.bytes.extract start (start + count)).data.toList

/-- The memory with the bytes from `start` on replaced. -/
def overwrite (m : Memory) (start : Nat) (bytes : List UInt8) : Memory :=
  { m with bytes := bytes.toByteArray.copySlice 0 m.bytes start bytes.length }

/-- Whether `count` bytes from `start` on lie inside the memory. The empty
range has to lie inside it too. -/
def contains (m : Memory) (start count : Nat) : Bool := start + count ≤ m.bytes.size

/-! ## Access to words -/

/-- The word at `ptr + offset`. -/
def load (m : Memory) (ptr offset : UInt32) (width : AccessWidth) :
    Except Fault (BitVec width.bits) :=
  let start := ptr.toNat + offset.toNat
  if m.contains start width.bytes then .ok (LittleEndian.decode width (m.slice start width.bytes))
  else .error (.trap .outOfBounds)

/-- The memory with a word at `ptr + offset`. -/
def store (m : Memory) (ptr offset : UInt32) (width : AccessWidth) (v : BitVec width.bits) :
    Except Fault Memory :=
  let start := ptr.toNat + offset.toNat
  if m.contains start width.bytes then .ok (m.overwrite start (LittleEndian.encode width v))
  else .error (.trap .outOfBounds)

/-! ## Access to ranges -/

/-- Copies a data segment in. -/
def init (m : Memory) (offset : UInt32) (bytes : List UInt8) : Except Fault Memory :=
  if m.contains offset.toNat bytes.length then .ok (m.overwrite offset.toNat bytes)
  else .error (.link .segmentDoesNotFit)

/-- Sets every byte of a range to one value. -/
def fill (m : Memory) (dst : UInt32) (value : UInt8) (count : UInt32) : Except Fault Memory :=
  if m.contains dst.toNat count.toNat then
    .ok (m.overwrite dst.toNat (List.replicate count.toNat value))
  else .error (.trap .outOfBounds)

/-- Copies a range to another place; the two may overlap. -/
def copy (m : Memory) (dst src count : UInt32) : Except Fault Memory :=
  if m.contains src.toNat count.toNat && m.contains dst.toNat count.toNat then
    .ok (m.overwrite dst.toNat (m.slice src.toNat count.toNat))
  else .error (.trap .outOfBounds)

end Memory

end WasmExec
