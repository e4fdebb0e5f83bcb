/-
What a floating-point word means.

A word of either width is a sign bit above a *magnitude*. The magnitudes below
`infinityMagnitude` are the finite numbers in increasing order, that magnitude
itself is infinity, and all above it are NaNs. So order, parity and distance
of finite numbers can be read off magnitudes as plain natural numbers, and the
split into exponent and fraction is needed in one place only: `magnitudeValue`,
the exact rational that a magnitude denotes.

`decode` gives the number behind a word. A finite number keeps its sign
beside its value, since a zero has two signs and one value.
-/
import WasmExec.Width

set_option autoImplicit false

namespace WasmExec

/-! ## The constants of the two formats -/

namespace Width

/-- The number of significant binary digits of a normal number. -/
def precision : Width → Nat
  | .w32 => 24
  | .w64 => 53

/-- The least significand of a normal number, two to the power
`precision - 1`. It is also the distance between the magnitudes of two
neighbouring powers of two. -/
def implicitBit : Width → Nat
  | .w32 => 0x800000
  | .w64 => 0x10000000000000

/-- The sign bit, which is one more than the greatest magnitude. -/
def signBit : Width → Nat
  | .w32 => 0x80000000
  | .w64 => 0x8000000000000000

/-- The magnitude of infinity. -/
def infinityMagnitude : Width → Nat
  | .w32 => 0x7f800000
  | .w64 => 0x7ff0000000000000

/-- The top bit of the fraction, which every NaN that arithmetic makes has. -/
def quietBit : Width → Nat
  | .w32 => 0x400000
  | .w64 => 0x8000000000000

/-- The exponent of the least positive number. All finite numbers are
multiples of two to that power. -/
def leastExponent : Width → Int
  | .w32 => -149
  | .w64 => -1074

end Width

namespace Floating

variable {w : Width}

/-! ## Sign and magnitude -/

/-- All bits below the sign. -/
def magnitude (x : Word w) : Nat := x.toNat % w.signBit

def isNegative (x : Word w) : Bool := w.signBit ≤ x.toNat

/-- The word with a given sign and magnitude. -/
def ofMagnitude (w : Width) (negative : Bool) (m : Nat) : Word w :=
  BitVec.ofNat w.bits (if negative then w.signBit + m else m)

def isNaN (x : Word w) : Bool := w.infinityMagnitude < magnitude x

/-- Infinity of a sign. -/
def infinity (w : Width) (negative : Bool) : Word w :=
  ofMagnitude w negative w.infinityMagnitude

/-- The NaN of a sign whose fraction is the quiet bit alone. -/
def canonicalNaN (w : Width) (negative : Bool) : Word w :=
  ofMagnitude w negative (w.infinityMagnitude + w.quietBit)

/-! ## The number behind a word -/

/-- **The rational that a finite magnitude denotes.** Below `implicitBit` the
numbers are evenly spaced from zero; from there on each block of `implicitBit`
magnitudes has twice the spacing of the block before it. -/
def magnitudeValue (w : Width) (m : Nat) : Rat :=
  if m < w.implicitBit then (m : Rat) * (2 : Rat) ^ w.leastExponent
  else
    ((w.implicitBit + m % w.implicitBit : Nat) : Rat) *
      (2 : Rat) ^ (w.leastExponent + ((m / w.implicitBit : Nat) : Int) - 1)

/-- The number behind a word, with no detail of its encoding left but the
sign of a zero. -/
inductive Number where
  | nan
  | infinite (negative : Bool)
  | finite (negative : Bool) (value : Rat)

/-- Every word is a NaN, an infinity or a finite number. -/
def decode (x : Word w) : Number :=
  let m := magnitude x
  if w.infinityMagnitude < m then .nan
  else if m = w.infinityMagnitude then .infinite (isNegative x)
  else if isNegative x then .finite true (-magnitudeValue w m)
  else .finite false (magnitudeValue w m)

end Floating

end WasmExec
