/-
Conversions between integers and floating-point words, and between the two
floating-point widths.

A conversion to floating point rounds the exact integer or rational once. It
never goes through the other width, where a first rounding could decide a tie
of the second.

A conversion to an integer drops the fraction first and compares the integer
that is left with the bounds of the target, so a number strictly between the
greatest integer and the next one still converts.
-/
import WasmExec.Fault
import WasmExec.Floating.Rounding

set_option autoImplicit false

namespace WasmExec.Floating

/-! ## From integers -/

/-- The word nearest to an integer. Zero is positive. -/
def ofInt (w : Width) (n : Int) : Word w := ofRat w false (n : Rat)

/-! ## To integers -/

/-- **The integer part as a word**, or a trap: a NaN has none, and one outside
the range of the target overflows. -/
def truncate {source : Width} (target : Width) (sign : Signedness) (x : Word source) :
    Except Fault (Word target) :=
  match decode x with
  | .nan => .error (.trap .invalidConversion)
  | .infinite _ => .error (.trap .integerOverflow)
  | .finite _ q =>
    let t := truncateInt q
    if sign.least target ≤ t ∧ t ≤ sign.greatest target then .ok (BitVec.ofInt target.bits t)
    else .error (.trap .integerOverflow)

/-- **The integer part, held within the range of the target.** A NaN becomes
zero. -/
def truncateSaturating {source : Width} (target : Width) (sign : Signedness)
    (x : Word source) : Word target :=
  match decode x with
  | .nan => 0
  | .infinite negative =>
    BitVec.ofInt target.bits (if negative then sign.least target else sign.greatest target)
  | .finite _ q =>
    let t := truncateInt q
    BitVec.ofInt target.bits
      (if t < sign.least target then sign.least target
       else if sign.greatest target < t then sign.greatest target
       else t)

/-! ## Between the widths -/

/-- The NaN of the narrow format that keeps the top of a payload. -/
def demoteNaN (x : Word .w64) : Word .w32 :=
  ofMagnitude .w32 (isNegative x)
    (Width.infinityMagnitude .w32 +
      (((magnitude x % Width.implicitBit .w64) >>> 29) ||| Width.quietBit .w32))

/-- The NaN of the wide format with the payload of a narrow one on top. -/
def promoteNaN (x : Word .w32) : Word .w64 :=
  ofMagnitude .w64 (isNegative x)
    (Width.infinityMagnitude .w64 +
      (((magnitude x % Width.implicitBit .w32) <<< 29) ||| Width.quietBit .w64))

/-- Rounds to the narrow format. A number too small for it becomes a zero of
its sign. -/
def demote (x : Word .w64) : Word .w32 :=
  match decode x with
  | .nan => demoteNaN x
  | .infinite s => infinity .w32 s
  | .finite s q => ofRat .w32 s q

/-- Every number of the narrow format is a number of the wide one, so nothing
is rounded. -/
def promote (x : Word .w32) : Word .w64 :=
  match decode x with
  | .nan => promoteNaN x
  | .infinite s => infinity .w64 s
  | .finite s q => ofRat .w64 s q

end WasmExec.Floating
