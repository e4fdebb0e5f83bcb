/-
Rounding an exact rational to the nearest floating-point number.

Every inexact operation of this library, arithmetic, conversion and the
reading of decimals alike, computes its result exactly and rounds it here,
once. The argument that one rounding function serves normal numbers,
subnormal numbers and overflow is short. A positive rational lies in one binade
`[2^e, 2^(e+1))`, the numbers of the format are evenly spaced there, and
`gridExponent` is the exponent of that spacing, which never falls below the
spacing of the subnormal numbers. Rounding is then rounding to an integer
multiple of the spacing, and the multiple *is* the low part of the result's
magnitude: the carry out of a binade lands on the next one by itself, and
whatever reaches the magnitude of infinity is infinity.
-/
import WasmExec.Floating.Format

set_option autoImplicit false

namespace WasmExec.Floating

/-! ## To an integer -/

/-- **The nearest integer**, and of two nearest integers the even one. -/
def nearestInt (q : Rat) : Int :=
  if 1 < 2 * (q - q.floor) ∨ (2 * (q - q.floor) = 1 ∧ q.floor % 2 = 1) then q.floor + 1
  else q.floor

/-- The integer part, toward zero. -/
def truncateInt (q : Rat) : Int := if q < 0 then q.ceil else q.floor

/-! ## To a magnitude -/

/-- For a positive rational, the exponent of the binade it lies in. -/
def floorLog2 (q : Rat) : Int :=
  let e : Int := (q.num.natAbs.log2 : Int) - (q.den.log2 : Int)
  if q < (2 : Rat) ^ e then e - 1 else e

/-- The exponent of the spacing of the format around a number whose binade is
`[2^e, 2^(e+1))`. -/
def gridExponent (w : Width) (e : Int) : Int :=
  max w.leastExponent (e - (w.precision : Int) + 1)

/-- The magnitude of `n` steps of the spacing with exponent `k`. -/
def gridMagnitude (w : Width) (k : Int) (n : Nat) : Nat :=
  min w.infinityMagnitude ((k - w.leastExponent).toNat * w.implicitBit + n)

/-- **The magnitude nearest to a rational that is not negative**, ties to an
even magnitude. -/
def roundMagnitude (w : Width) (q : Rat) : Nat :=
  if q = 0 then 0
  else
    let k := gridExponent w (floorLog2 q)
    gridMagnitude w k (nearestInt (q / (2 : Rat) ^ k)).toNat

/-- **The word nearest to a rational.** Only an exact zero takes its sign from
the flag; a nonzero number that rounds to zero keeps its own. -/
def ofRat (w : Width) (negativeZero : Bool) (q : Rat) : Word w :=
  if q = 0 then ofMagnitude w negativeZero 0
  else if q < 0 then ofMagnitude w true (roundMagnitude w (-q))
  else ofMagnitude w false (roundMagnitude w q)

/-! ## Square roots

The root of a rational need not be rational, so it is never formed. Deciding
which of two neighbouring integers is nearer to it takes one comparison of
squares. -/

/-- Extends `root` by `bits` further binary digits, each set if the square
stays within `n`. -/
def sqrtDigits (n : Nat) : (bits root : Nat) → Nat
  | 0, root => root
  | bits + 1, root =>
    let raised := root + 1 <<< bits
    sqrtDigits n bits (if raised * raised ≤ n then raised else root)

/-- The integer part of the square root. -/
def natSqrt (n : Nat) : Nat := sqrtDigits n (n.log2 / 2 + 1) 0

/-- **The integer nearest to the square root** of a rational that is not
negative. The root is above `s + 1/2` exactly when the rational is above the
square of `s + 1/2`. -/
def nearestSqrt (q : Rat) : Nat :=
  let s := natSqrt q.floor.toNat
  let middle : Rat := ((2 * s + 1 : Nat) : Rat) * ((2 * s + 1 : Nat) : Rat)
  if middle < 4 * q ∨ (middle = 4 * q ∧ s % 2 = 1) then s + 1 else s

/-- The magnitude nearest to the square root of a positive rational. The root
of a number in the binade `e` is in the binade `e / 2`. -/
def roundSqrtMagnitude (w : Width) (q : Rat) : Nat :=
  let k := gridExponent w (floorLog2 q / 2)
  gridMagnitude w k (nearestSqrt (q / (4 : Rat) ^ k))

end WasmExec.Floating
