/-
Instructions written out as the tree they are.

A mnemonic is for people who write programs. A log wants to show how it was
understood: the family, the width, the operation, and each field by name. This
is that text, a constructor with its arguments in parentheses or its named
fields in braces.
-/
import WasmExec.Instruction

set_option autoImplicit false

namespace WasmExec

/-- A named group of fields, each with its value. -/
def namedFields (name : String) (fields : List (String × String)) : String :=
  name ++ " \x7b " ++ ", ".intercalate (fields.map fun f => f.1 ++ ": " ++ f.2) ++ " \x7d"

/-- A name applied to arguments. -/
def applied (name : String) (args : List String) : String :=
  name ++ "(" ++ ", ".intercalate args ++ ")"

def Width.describe : Width → String
  | .w32 => "W32"
  | .w64 => "W64"

def Signedness.describe : Signedness → String
  | .signed => "Signed"
  | .unsigned => "Unsigned"

def AccessWidth.describe : AccessWidth → String
  | .b8 => "B8"
  | .b16 => "B16"
  | .b32 => "B32"
  | .b64 => "B64"

def ValType.describe : ValType → String
  | .int .w32 => "I32"
  | .int .w64 => "I64"
  | .float .w32 => "F32"
  | .float .w64 => "F64"

def IntUnary.describe : IntUnary → String
  | .clz => "Clz"
  | .ctz => "Ctz"
  | .popcnt => "Popcnt"
  | .not => "Not"

def IntBinary.describe : IntBinary → String
  | .add => "Add"
  | .sub => "Sub"
  | .mul => "Mul"
  | .div sign => applied "Div" [sign.describe]
  | .rem sign => applied "Rem" [sign.describe]
  | .and => "And"
  | .or => "Or"
  | .xor => "Xor"
  | .shl => "Shl"
  | .shr sign => applied "Shr" [sign.describe]
  | .rotl => "Rotl"
  | .rotr => "Rotr"

def IntCompare.describe : IntCompare → String
  | .eq => "Eq"
  | .ne => "Ne"
  | .lt sign => applied "Lt" [sign.describe]
  | .gt sign => applied "Gt" [sign.describe]
  | .le sign => applied "Le" [sign.describe]
  | .ge sign => applied "Ge" [sign.describe]

def FloatUnary.describe : FloatUnary → String
  | .abs => "Abs"
  | .neg => "Neg"
  | .ceil => "Ceil"
  | .floor => "Floor"
  | .trunc => "Trunc"
  | .nearest => "Nearest"
  | .sqrt => "Sqrt"

def FloatBinary.describe : FloatBinary → String
  | .add => "Add"
  | .sub => "Sub"
  | .mul => "Mul"
  | .div => "Div"
  | .min => "Min"
  | .max => "Max"
  | .copysign => "Copysign"

def FloatCompare.describe : FloatCompare → String
  | .eq => "Eq"
  | .ne => "Ne"
  | .lt => "Lt"
  | .gt => "Gt"
  | .le => "Le"
  | .ge => "Ge"

def Conversion.describe : Conversion → String
  | .wrap => "Wrap"
  | .extend sign => applied "Extend" [sign.describe]
  | .extendInPlace w count =>
    namedFields "ExtendInPlace" [("width", w.describe), ("bits", toString count)]
  | .truncate source target sign saturating =>
    namedFields "Trunc" [("from", source.describe), ("to", target.describe),
      ("sign", sign.describe), ("saturating", if saturating then "true" else "false")]
  | .convert source target sign =>
    namedFields "Convert" [("from", source.describe), ("to", target.describe),
      ("sign", sign.describe)]
  | .demote => "Demote"
  | .promote => "Promote"
  | .reinterpretInt w => applied "ReinterpretFloat" [w.describe]
  | .reinterpretFloat w => applied "ReinterpretInt" [w.describe]

def NumOp.describe : NumOp → String
  | .intUnary w op => applied "IntUnary" [w.describe, op.describe]
  | .intEqz w => applied "IntUnary" [w.describe, "Eqz"]
  | .intBinary w op => applied "IntBinary" [w.describe, op.describe]
  | .intCompare w op => applied "IntCompare" [w.describe, op.describe]
  | .floatUnary w op => applied "FloatUnary" [w.describe, op.describe]
  | .floatBinary w op => applied "FloatBinary" [w.describe, op.describe]
  | .floatCompare w op => applied "FloatCompare" [w.describe, op.describe]
  | .convert op => applied "Convert" [op.describe]

def Load.describe (l : Load) : String :=
  namedFields "Load" [("ty", l.type.describe), ("width", l.width.describe),
    ("sign", l.sign.describe), ("offset", toString l.offset.toNat)]

def Store.describe (s : Store) : String :=
  namedFields "Store" [("ty", s.type.describe), ("width", s.width.describe),
    ("offset", toString s.offset.toNat)]

def Instruction.describe : Instruction → String
  | .numeric op => applied "Num" [op.describe]
  | .load l => applied "Load" [l.describe]
  | .store s => applied "Store" [s.describe]
  | .memorySize => "MemorySize"
  | .memoryGrow => "MemoryGrow"
  | .memoryFill => "MemoryFill"
  | .memoryCopy => "MemoryCopy"

end WasmExec
