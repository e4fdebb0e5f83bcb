/-
Integer operations on words of any length.

Nothing here depends on the length being 32 or 64, and nothing wraps by
accident: sums and products are those of `BitVec`, which are modulo a power of
two, and the four divisions are guarded by the one test that can fail. The
quotient of the least word by minus one is the least word again, because that
is what the wrapped quotient is.
-/
import WasmExec.Fault
import WasmExec.Width

set_option autoImplicit false

namespace WasmExec

/-! ## One operand -/

/-- Operations from a word to a word of the same length. -/
inductive IntUnary where
  | clz
  | ctz
  | popcnt
  | not
deriving DecidableEq

/-- The zeros above the highest set bit, the zeros below the lowest, the
number of set bits, and the complement. The word zero has as many leading and
trailing zeros as it has bits. -/
def IntUnary.eval {n : Nat} : IntUnary → BitVec n → BitVec n
  | .clz, a => a.clz
  | .ctz, a => a.ctz
  | .popcnt, a => a.cpop
  | .not, a => ~~~a

/-! ## Two operands -/

/-- Operations from two words to a third of the same length. -/
inductive IntBinary where
  | add
  | sub
  | mul
  | div (sign : Signedness)
  | rem (sign : Signedness)
  | and
  | or
  | xor
  | shl
  | shr (sign : Signedness)
  | rotl
  | rotr
deriving DecidableEq

/-- The number of places that a shift by `b` moves: `b` read without a sign,
modulo the length of the word. -/
def shiftAmount {n : Nat} (b : BitVec n) : Nat := b.toNat % n

/-- The result, or the one fault that is possible: division by zero. Signed
quotients go toward zero and signed remainders take the sign of the dividend. -/
def IntBinary.eval {n : Nat} (op : IntBinary) (a b : BitVec n) : Except Fault (BitVec n) :=
  match op with
  | .add => .ok (a + b)
  | .sub => .ok (a - b)
  | .mul => .ok (a * b)
  | .div sign =>
    if b = 0 then .error (.trap .divideByZero)
    else match sign with
      | .signed => .ok (a.sdiv b)
      | .unsigned => .ok (a.udiv b)
  | .rem sign =>
    if b = 0 then .error (.trap .divideByZero)
    else match sign with
      | .signed => .ok (a.srem b)
      | .unsigned => .ok (a.umod b)
  | .and => .ok (a &&& b)
  | .or => .ok (a ||| b)
  | .xor => .ok (a ^^^ b)
  | .shl => .ok (a <<< shiftAmount b)
  | .shr .signed => .ok (a.sshiftRight (shiftAmount b))
  | .shr .unsigned => .ok (a >>> shiftAmount b)
  | .rotl => .ok (a.rotateLeft (shiftAmount b))
  | .rotr => .ok (a.rotateRight (shiftAmount b))

/-! ## Comparisons -/

/-- Relations between two words. -/
inductive IntCompare where
  | eq
  | ne
  | lt (sign : Signedness)
  | gt (sign : Signedness)
  | le (sign : Signedness)
  | ge (sign : Signedness)
deriving DecidableEq

/-- The order relations compare the integers that the words denote. -/
def IntCompare.eval {n : Nat} (op : IntCompare) (a b : BitVec n) : Bool :=
  match op with
  | .eq => a = b
  | .ne => a ≠ b
  | .lt sign => sign.read a < sign.read b
  | .gt sign => sign.read a > sign.read b
  | .le sign => sign.read a ≤ sign.read b
  | .ge sign => sign.read a ≥ sign.read b

/-- Truth as a 32-bit word: one or zero. -/
def truthWord (b : Bool) : Word .w32 := if b then 1#32 else 0#32

end WasmExec
