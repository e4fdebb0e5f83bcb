/-
The two machine widths, and words of them.

Every operation below is written once for a `Width` and serves the 32-bit and
the 64-bit family alike; only the constants here tell the two apart. They are
written out as numerals, not as powers, so that evaluating a definition never
has to compute one.
-/

set_option autoImplicit false

namespace WasmExec

/-- How many bits an operand has. -/
inductive Width where
  | w32
  | w64
deriving DecidableEq

/-- Whether a word is read in two's complement or as a plain binary number. -/
inductive Signedness where
  | signed
  | unsigned
deriving DecidableEq

/-- The width as a number of bits. -/
@[reducible] def Width.bits : Width → Nat
  | .w32 => 32
  | .w64 => 64

/-- The width as a number of bytes. -/
def Width.bytes : Width → Nat
  | .w32 => 4
  | .w64 => 8

/-- A word of a width. Integers and floating-point numbers share it: what a
word means is decided by the operation that reads it. -/
abbrev Word (w : Width) : Type := BitVec w.bits

/-! ## The integers a word can stand for -/

/-- The integer that a word denotes. -/
def Signedness.read {n : Nat} : Signedness → BitVec n → Int
  | .signed, a => a.toInt
  | .unsigned, a => a.toNat

/-- The least integer of a width. -/
def Signedness.least : Signedness → Width → Int
  | .signed, .w32 => -2147483648
  | .signed, .w64 => -9223372036854775808
  | .unsigned, _ => 0

/-- The greatest integer of a width. -/
def Signedness.greatest : Signedness → Width → Int
  | .signed, .w32 => 2147483647
  | .signed, .w64 => 9223372036854775807
  | .unsigned, .w32 => 4294967295
  | .unsigned, .w64 => 18446744073709551615

/-- Widening copies the sign bit or fills with zeros; at the word's own width
both change nothing. -/
def Signedness.extend {n : Nat} : Signedness → (m : Nat) → BitVec n → BitVec m
  | .signed, m, a => a.signExtend m
  | .unsigned, m, a => a.setWidth m

end WasmExec
