/-
Numeric instructions.

A numeric instruction takes one or two values and gives one, or traps. What
it takes and gives is a property of the instruction alone, its *signature*,
so the checks come in a fixed order: the number of operands, then whether the
combination of parts names an instruction at all, then the operand types, and
only then the operation itself.
-/
import WasmExec.Integer
import WasmExec.Floating.Arithmetic
import WasmExec.Floating.Conversion
import WasmExec.Value

set_option autoImplicit false

namespace WasmExec

/-! ## Conversions -/

/-- **Instructions that change the type of a value**, and those that extend
the sign of its low part. -/
inductive Conversion where
  /-- A wide integer to its low half. -/
  | wrap
  /-- A narrow integer to a wide one. -/
  | extend (sign : Signedness)
  /-- Copies bit `count - 1` of an integer into all bits above it. -/
  | extendInPlace (width : Width) (count : Nat)
  /-- Floating point to the integer part. -/
  | truncate (source target : Width) (sign : Signedness) (saturating : Bool)
  /-- An integer to the nearest floating-point number. -/
  | convert (source target : Width) (sign : Signedness)
  | demote
  | promote
  /-- The bits of an integer as floating point. -/
  | reinterpretInt (width : Width)
  /-- The bits of a floating-point number as an integer. -/
  | reinterpretFloat (width : Width)
deriving DecidableEq

namespace Conversion

/-- The part lengths that a sign can be extended from: those of narrower
integers. -/
def isExtension : Width → Nat → Bool
  | .w32, count => count = 8 || count = 16
  | .w64, count => count = 8 || count = 16 || count = 32

def operand : Conversion → ValType
  | .wrap => .int .w64
  | .extend _ => .int .w32
  | .extendInPlace w _ => .int w
  | .truncate source _ _ _ => .float source
  | .convert source _ _ => .int source
  | .demote => .float .w64
  | .promote => .float .w32
  | .reinterpretInt w => .int w
  | .reinterpretFloat w => .float w

def result : Conversion → ValType
  | .wrap => .int .w32
  | .extend _ => .int .w64
  | .extendInPlace w _ => .int w
  | .truncate _ target _ _ => .int target
  | .convert _ target _ => .float target
  | .demote => .float .w32
  | .promote => .float .w64
  | .reinterpretInt w => .float w
  | .reinterpretFloat w => .int w

/-- **The converted value.** A length that no sign can be extended from is
refused whatever the operand is. -/
def apply (op : Conversion) (a : Value) : Except Fault Value :=
  match op with
  | .wrap => return .int .w32 ((← a.asInt .w64).setWidth 32)
  | .extend sign => return .int .w64 (sign.extend 64 (← a.asInt .w32))
  | .extendInPlace w count =>
    if isExtension w count then
      return .int w (((← a.asInt w).setWidth count).signExtend w.bits)
    else .error (.validation .unknownOperator)
  | .truncate source target sign saturating => do
    let x ← a.asFloat source
    if saturating then return .int target (Floating.truncateSaturating target sign x)
    else return .int target (← Floating.truncate target sign x)
  | .convert source target sign =>
    return .float target (Floating.ofInt target (sign.read (← a.asInt source)))
  | .demote => return .float .w32 (Floating.demote (← a.asFloat .w64))
  | .promote => return .float .w64 (Floating.promote (← a.asFloat .w32))
  | .reinterpretInt w => return .float w (← a.asInt w)
  | .reinterpretFloat w => return .int w (← a.asFloat w)

end Conversion

/-! ## Numeric instructions -/

inductive NumOp where
  | intUnary (width : Width) (op : IntUnary)
  /-- Whether an integer is zero. -/
  | intEqz (width : Width)
  | intBinary (width : Width) (op : IntBinary)
  | intCompare (width : Width) (op : IntCompare)
  | floatUnary (width : Width) (op : FloatUnary)
  | floatBinary (width : Width) (op : FloatBinary)
  | floatCompare (width : Width) (op : FloatCompare)
  | convert (op : Conversion)
deriving DecidableEq

namespace NumOp

/-- The types of the operands, the deepest first. -/
def operands : NumOp → List ValType
  | .intUnary w _ => [.int w]
  | .intEqz w => [.int w]
  | .intBinary w _ => [.int w, .int w]
  | .intCompare w _ => [.int w, .int w]
  | .floatUnary w _ => [.float w]
  | .floatBinary w _ => [.float w, .float w]
  | .floatCompare w _ => [.float w, .float w]
  | .convert op => [op.operand]

/-- The type of the result. Every test and comparison gives a narrow
integer. -/
def result : NumOp → ValType
  | .intUnary w _ => .int w
  | .intEqz _ => .int .w32
  | .intBinary w _ => .int w
  | .intCompare _ _ => .int .w32
  | .floatUnary w _ => .float w
  | .floatBinary w _ => .float w
  | .floatCompare _ _ => .int .w32
  | .convert op => op.result

def arity (op : NumOp) : Nat := op.operands.length

/-- **Applies the instruction to its operands**, the deepest first. -/
def apply (op : NumOp) (args : List Value) : Except Fault Value :=
  match op, args with
  | .intUnary w op, [a] => return .int w (op.eval (← a.asInt w))
  | .intEqz w, [a] => return .int .w32 (truthWord ((← a.asInt w) = 0))
  | .intBinary w op, [a, b] => return .int w (← op.eval (← a.asInt w) (← b.asInt w))
  | .intCompare w op, [a, b] =>
    return .int .w32 (truthWord (op.eval (← a.asInt w) (← b.asInt w)))
  | .floatUnary w op, [a] => return .float w (op.eval (← a.asFloat w))
  | .floatBinary w op, [a, b] => return .float w (op.eval (← a.asFloat w) (← b.asFloat w))
  | .floatCompare w op, [a, b] =>
    return .int .w32 (truthWord (op.eval (← a.asFloat w) (← b.asFloat w)))
  | .convert op, [a] => op.apply a
  | _, _ => .error (.validation .argumentCount)

end NumOp

end WasmExec
