/-
Decimal numerals and floating-point words, in both directions.

Reading forms the exact rational a numeral denotes and rounds it once. Two
shortcuts keep the powers of ten small: beyond a fixed exponent every nonzero
numeral is infinite, and below a bound that counts the digits as well it is
zero.

Writing asks for as few digits as possible. `shortest` goes through the decimal
grids of one, two and more digits. On each grid only the two neighbours of the
number can round back to it, and the first grid on which one does has the
answer: the neighbour that reads back, of two the nearer, and at an exact tie
the larger. That a candidate reads back is tested by reading it, so no table of
bounds has to be right for that.
-/
import WasmExec.Floating.Rounding
import WasmExec.Text.Numeral

set_option autoImplicit false

namespace WasmExec.Floating

/-! ## Reading -/

/-- From this power of ten on a nonzero numeral exceeds every finite
number. -/
def exponentCeiling : Int := 400

/-- **The word nearest to a decimal numeral.** The second test asks whether
`digits * 10^exponent`, being at most `2^(log2 digits + 1 + 3 * exponent)` for a
negative exponent, is far below half the least positive number. -/
def ofDecimal (w : Width) (negative : Bool) (digits : Nat) (exponent : Int) : Word w :=
  if digits = 0 then ofMagnitude w negative 0
  else if exponentCeiling < exponent then infinity w negative
  else if (digits.log2 : Int) + 1 + 3 * exponent < -1100 then ofMagnitude w negative 0
  else
    ofMagnitude w negative (roundMagnitude w ((digits : Rat) * (10 : Rat) ^ exponent))

/-- The word that a literal denotes. -/
def ofLiteral (w : Width) : Text.Decimal → Word w
  | .nan negative => canonicalNaN w negative
  | .infinite negative => infinity w negative
  | .finite negative digits exponent => ofDecimal w negative digits exponent

/-- The word that a text denotes as a literal, if it is one. -/
def read? (w : Width) (cs : List Char) : Option (Word w) :=
  (Text.readDecimal? cs).map (ofLiteral w)

/-! ## Writing -/

/-- For a positive rational, the exponent of its leading decimal digit. The
fraction approximates the logarithm of two, closely enough over all exponents
of both formats. -/
def floorLog10 (q : Rat) : Int :=
  let k := floorLog2 q * 30103 / 100000
  if (10 : Rat) ^ (k + 1) ≤ q then k + 1 else k

/-- Whether `digits * 10^exponent` rounds to the magnitude `m`. -/
def readsBack (w : Width) (m digits : Nat) (exponent : Int) : Bool :=
  roundMagnitude w ((digits : Rat) * (10 : Rat) ^ exponent) = m

/-- The best multiple of `10^exponent` that reads back as `m`, if one does. -/
def onGrid? (w : Width) (m : Nat) (exponent : Int) : Option Nat :=
  let scaled := magnitudeValue w m / (10 : Rat) ^ exponent
  let below := scaled.floor.toNat
  match readsBack w m below exponent, readsBack w m (below + 1) exponent with
  | true, true => some (if 2 * (scaled - (below : Rat)) < 1 then below else below + 1)
  | true, false => some below
  | false, true => some (below + 1)
  | false, false => none

/-- **The shortest numeral that reads back** as a finite magnitude other than
zero, as digits and a power of ten. The grids end with the one of seventeen
digits, which has a numeral for every number. -/
def shortest (w : Width) (m : Nat) : Nat × Int :=
  let leading := floorLog10 (magnitudeValue w m)
  let found := (List.range 17).findSome? fun (i : Nat) =>
    (onGrid? w m (leading - (i : Int))).map fun digits => (digits, leading - (i : Int))
  found.getD (0, leading)

/-- Cuts zeros off the end. -/
def dropTrailingZeros (cs : List Char) : List Char :=
  (cs.reverse.dropWhile (· = '0')).reverse

/-- A numeral with all its places written out and no exponent. The point is
written only before a digit that is not zero or has one behind it. -/
def positional (digits : Nat) (exponent : Int) : List Char :=
  let cs := Nat.toDigits 10 digits
  if 0 ≤ exponent then cs ++ List.replicate exponent.toNat '0'
  else
    let places := (-exponent).toNat
    let padded := List.replicate (places + 1 - cs.length) '0' ++ cs
    let whole := padded.take (padded.length - places)
    let fraction := dropTrailingZeros (padded.drop (padded.length - places))
    if fraction.isEmpty then whole else whole ++ '.' :: fraction

/-- **The text of a word.** A NaN shows neither sign nor payload. -/
def render {w : Width} (x : Word w) : List Char :=
  let m := magnitude x
  if w.infinityMagnitude < m then ['N', 'a', 'N']
  else
    let body :=
      if m = w.infinityMagnitude then ['i', 'n', 'f']
      else if m = 0 then ['0']
      else positional (shortest w m).1 (shortest w m).2
    if isNegative x then '-' :: body else body

end WasmExec.Floating
