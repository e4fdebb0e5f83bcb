/-
Arithmetic and order on floating-point words.

The four operations, the square root and the roundings to an integer decode
their operands, compute the exact rational result and round it once. What is
left to say by cases is only what no rational expresses: infinities, NaNs and
the sign of a zero.

Order needs no rationals. The magnitudes of one sign are ordered like the
numbers they denote, so `orderKey`, the magnitude with the sign of the word,
is an integer that grows with the number and is zero for both zeros.

NaN results. An operation on a NaN returns that NaN with the quiet bit set,
and of two NaNs the first. An operation that makes a NaN out of numbers
returns the canonical one with the sign bit set.
-/
import WasmExec.Floating.Rounding

set_option autoImplicit false

namespace WasmExec.Floating

variable {w : Width}

/-! ## Sign operations

These move bits and do not look at what they mean, so a NaN keeps its
payload. -/

def abs (x : Word w) : Word w := ofMagnitude w false (magnitude x)

def neg (x : Word w) : Word w := ofMagnitude w (!isNegative x) (magnitude x)

/-- The magnitude of the first operand with the sign of the second. -/
def copysign (x y : Word w) : Word w := ofMagnitude w (isNegative y) (magnitude x)

/-! ## NaN results -/

/-- A NaN with the quiet bit set. -/
def quiet (x : Word w) : Word w := x ||| BitVec.ofNat w.bits w.quietBit

/-- The NaN that comes of an operation on numbers. -/
def invalid (w : Width) : Word w := canonicalNaN w true

/-- The result of an operation on two operands one of which is a NaN. -/
def firstNaN (x y : Word w) : Word w := if isNaN x then quiet x else quiet y

/-! ## The four operations -/

/-- Opposite infinities have no sum. A zero sum of finite numbers is negative
only if both are. -/
def add (x y : Word w) : Word w :=
  match decode x, decode y with
  | .nan, _ => firstNaN x y
  | _, .nan => firstNaN x y
  | .infinite s, .infinite t => if s = t then x else invalid w
  | .infinite _, .finite _ _ => x
  | .finite _ _, .infinite _ => y
  | .finite s p, .finite t q => ofRat w (s && t) (p + q)

/-- Adds the opposite, except that a NaN keeps its sign. -/
def sub (x y : Word w) : Word w :=
  if isNaN y then firstNaN x y else add x (neg y)

/-- Zero times infinity is invalid. All other signs multiply. -/
def mul (x y : Word w) : Word w :=
  match decode x, decode y with
  | .nan, _ => firstNaN x y
  | _, .nan => firstNaN x y
  | .infinite s, .infinite t => infinity w (s ^^ t)
  | .infinite s, .finite t q => if q = 0 then invalid w else infinity w (s ^^ t)
  | .finite s p, .infinite t => if p = 0 then invalid w else infinity w (s ^^ t)
  | .finite s p, .finite t q => ofRat w (s ^^ t) (p * q)

/-- A quotient of two infinities or of two zeros is invalid; any other number
over zero is an infinity. -/
def div (x y : Word w) : Word w :=
  match decode x, decode y with
  | .nan, _ => firstNaN x y
  | _, .nan => firstNaN x y
  | .infinite _, .infinite _ => invalid w
  | .infinite s, .finite t _ => infinity w (s ^^ t)
  | .finite s _, .infinite t => ofMagnitude w (s ^^ t) 0
  | .finite s p, .finite t q =>
    if q = 0 then
      if p = 0 then invalid w else infinity w (s ^^ t)
    else ofRat w (s ^^ t) (p / q)

/-! ## Square root -/

/-- The root of a zero is that zero, and a number below zero has none. -/
def sqrt (x : Word w) : Word w :=
  match decode x with
  | .nan => quiet x
  | .infinite s => if s then invalid w else x
  | .finite s q =>
    if q = 0 then x
    else if s then invalid w
    else ofMagnitude w false (roundSqrtMagnitude w q)

/-! ## Rounding to an integer -/

/-- Replaces a finite number by an integer, which has the sign of the operand
even when it is zero. -/
def roundWith (f : Rat → Int) (x : Word w) : Word w :=
  match decode x with
  | .nan => quiet x
  | .infinite _ => x
  | .finite s q => ofRat w s (f q : Rat)

def ceil (x : Word w) : Word w := roundWith Rat.ceil x
def floor (x : Word w) : Word w := roundWith Rat.floor x
def trunc (x : Word w) : Word w := roundWith truncateInt x
/-- Ties go to the even integer. -/
def nearest (x : Word w) : Word w := roundWith nearestInt x

/-! ## Order -/

/-- An integer that orders the words that are not NaNs as their numbers are
ordered. -/
def orderKey (x : Word w) : Int :=
  if isNegative x then -(magnitude x : Int) else (magnitude x : Int)

/-- Holds of no pair with a NaN in it. -/
def comparable (x y : Word w) : Bool := !isNaN x && !isNaN y

def eq (x y : Word w) : Bool := comparable x y && orderKey x = orderKey y
def lt (x y : Word w) : Bool := comparable x y && orderKey x < orderKey y
def le (x y : Word w) : Bool := comparable x y && orderKey x ≤ orderKey y

/-! ## Least and greatest -/

/-- A NaN operand wins, the first of two. Of two zeros the negative one is the
lesser. -/
def min (x y : Word w) : Word w :=
  if isNaN x then x
  else if isNaN y then y
  else if magnitude x = 0 && magnitude y = 0 then (if isNegative x then x else y)
  else if lt y x then y
  else x

/-- A NaN operand wins, the first of two. Of two zeros the positive one is the
greater. -/
def max (x y : Word w) : Word w :=
  if isNaN x then x
  else if isNaN y then y
  else if magnitude x = 0 && magnitude y = 0 then (if isNegative x then y else x)
  else if lt x y then y
  else x

end WasmExec.Floating

namespace WasmExec

/-! ## The operations by name -/

inductive FloatUnary where
  | abs
  | neg
  | ceil
  | floor
  | trunc
  | nearest
  | sqrt
deriving DecidableEq

def FloatUnary.eval {w : Width} : FloatUnary → Word w → Word w
  | .abs => Floating.abs
  | .neg => Floating.neg
  | .ceil => Floating.ceil
  | .floor => Floating.floor
  | .trunc => Floating.trunc
  | .nearest => Floating.nearest
  | .sqrt => Floating.sqrt

inductive FloatBinary where
  | add
  | sub
  | mul
  | div
  | min
  | max
  | copysign
deriving DecidableEq

def FloatBinary.eval {w : Width} : FloatBinary → Word w → Word w → Word w
  | .add => Floating.add
  | .sub => Floating.sub
  | .mul => Floating.mul
  | .div => Floating.div
  | .min => Floating.min
  | .max => Floating.max
  | .copysign => Floating.copysign

inductive FloatCompare where
  | eq
  | ne
  | lt
  | gt
  | le
  | ge
deriving DecidableEq

/-- A NaN is unequal to everything and stands in no other relation. -/
def FloatCompare.eval {w : Width} (op : FloatCompare) (x y : Word w) : Bool :=
  match op with
  | .eq => Floating.eq x y
  | .ne => !Floating.eq x y
  | .lt => Floating.lt x y
  | .gt => Floating.lt y x
  | .le => Floating.le x y
  | .ge => Floating.le y x

end WasmExec
