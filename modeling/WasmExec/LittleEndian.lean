/-
Words as bytes, the lowest first.

Linear memory is an array of bytes, and this is the only file that says how a
word lies in it. A word of `n` bytes is written as its `n` digits to the base
256, least significant first; reading sums the digits again. Which of the
possible meanings the word has, signed, unsigned or floating point, plays no
part, so all types of one width share one layout.
-/
import WasmExec.Width

set_option autoImplicit false

namespace WasmExec

/-! ## Access widths -/

/-- How many bits of memory an access touches. -/
inductive AccessWidth where
  | b8
  | b16
  | b32
  | b64
deriving DecidableEq

@[reducible] def AccessWidth.bits : AccessWidth → Nat
  | .b8 => 8
  | .b16 => 16
  | .b32 => 32
  | .b64 => 64

@[reducible] def AccessWidth.bytes : AccessWidth → Nat
  | .b8 => 1
  | .b16 => 2
  | .b32 => 4
  | .b64 => 8

/-- The access that covers a whole operand. -/
def Width.access : Width → AccessWidth
  | .w32 => .b32
  | .w64 => .b64

/-! ## Digits -/

namespace LittleEndian

/-- The lowest `n` digits of a number to the base 256. -/
def digits : (n : Nat) → Nat → List UInt8
  | 0, _ => []
  | n + 1, v => UInt8.ofNat v :: digits n (v / 256)

/-- The number with given digits. -/
def ofDigits : List UInt8 → Nat
  | [] => 0
  | b :: bs => b.toNat + 256 * ofDigits bs

/-- The bytes of a word. -/
def encode (width : AccessWidth) (v : BitVec width.bits) : List UInt8 :=
  digits width.bytes v.toNat

/-- The word that bytes stand for. -/
def decode (width : AccessWidth) (bytes : List UInt8) : BitVec width.bits :=
  BitVec.ofNat width.bits (ofDigits bytes)

/-! ## At the front of a buffer -/

/-- The word at the front of a buffer, if the buffer is long enough. -/
def read? (width : AccessWidth) (buffer : List UInt8) : Option (BitVec width.bits) :=
  if width.bytes ≤ buffer.length then some (decode width (buffer.take width.bytes)) else none

/-- Replaces the front of a buffer, if the buffer is long enough, and leaves
what follows as it is. -/
def write? (width : AccessWidth) (v : BitVec width.bits) (buffer : List UInt8) :
    Option (List UInt8) :=
  if width.bytes ≤ buffer.length then some (encode width v ++ buffer.drop width.bytes) else none

end LittleEndian

/-! ## Scalar types

What a reader of memory may take a word for. -/

inductive Scalar where
  | unsigned (width : AccessWidth)
  | signed (width : AccessWidth)
  | float (width : Width)
deriving DecidableEq

/-- The width at which a scalar lies in memory. -/
@[reducible] def Scalar.access : Scalar → AccessWidth
  | .unsigned width => width
  | .signed width => width
  | .float width => width.access

end WasmExec
