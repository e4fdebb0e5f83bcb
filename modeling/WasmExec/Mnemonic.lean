/-
Mnemonics: the names of instructions in the text format.

Only the printer is written out. Each instruction has one mnemonic, put
together from its type, its operation and its signs; the reader looks a text
up among the mnemonics of the instructions that exist. So a text is accepted
exactly if it is some instruction's mnemonic, spelled as the printer spells it,
and everything else is an unknown operator.
-/
import WasmExec.Instruction

set_option autoImplicit false

namespace WasmExec

/-! ## The parts of a mnemonic -/

def Width.all : List Width := [.w32, .w64]
def Signedness.all : List Signedness := [.signed, .unsigned]

def Signedness.letter : Signedness → String
  | .signed => "s"
  | .unsigned => "u"

def IntUnary.name : IntUnary → String
  | .clz => "clz"
  | .ctz => "ctz"
  | .popcnt => "popcnt"
  | .not => "not"

def IntUnary.all : List IntUnary := [.clz, .ctz, .popcnt, .not]

def IntBinary.name : IntBinary → String
  | .add => "add"
  | .sub => "sub"
  | .mul => "mul"
  | .div sign => "div_" ++ sign.letter
  | .rem sign => "rem_" ++ sign.letter
  | .and => "and"
  | .or => "or"
  | .xor => "xor"
  | .shl => "shl"
  | .shr sign => "shr_" ++ sign.letter
  | .rotl => "rotl"
  | .rotr => "rotr"

def IntBinary.all : List IntBinary :=
  [.add, .sub, .mul, .and, .or, .xor, .shl, .rotl, .rotr] ++
    Signedness.all.flatMap fun sign => [.div sign, .rem sign, .shr sign]

def IntCompare.name : IntCompare → String
  | .eq => "eq"
  | .ne => "ne"
  | .lt sign => "lt_" ++ sign.letter
  | .gt sign => "gt_" ++ sign.letter
  | .le sign => "le_" ++ sign.letter
  | .ge sign => "ge_" ++ sign.letter

def IntCompare.all : List IntCompare :=
  [.eq, .ne] ++ Signedness.all.flatMap fun sign => [.lt sign, .gt sign, .le sign, .ge sign]

def FloatUnary.name : FloatUnary → String
  | .abs => "abs"
  | .neg => "neg"
  | .ceil => "ceil"
  | .floor => "floor"
  | .trunc => "trunc"
  | .nearest => "nearest"
  | .sqrt => "sqrt"

def FloatUnary.all : List FloatUnary :=
  [.abs, .neg, .ceil, .floor, .trunc, .nearest, .sqrt]

def FloatBinary.name : FloatBinary → String
  | .add => "add"
  | .sub => "sub"
  | .mul => "mul"
  | .div => "div"
  | .min => "min"
  | .max => "max"
  | .copysign => "copysign"

def FloatBinary.all : List FloatBinary := [.add, .sub, .mul, .div, .min, .max, .copysign]

def FloatCompare.name : FloatCompare → String
  | .eq => "eq"
  | .ne => "ne"
  | .lt => "lt"
  | .gt => "gt"
  | .le => "le"
  | .ge => "ge"

def FloatCompare.all : List FloatCompare := [.eq, .ne, .lt, .gt, .le, .ge]

/-! ## Numeric instructions -/

/-- The name of a conversion after the type of its result. -/
def Conversion.name : Conversion → String
  | .wrap => "wrap_i64"
  | .extend sign => "extend_i32_" ++ sign.letter
  | .extendInPlace _ count => "extend" ++ toString count ++ "_s"
  | .truncate source _ sign saturating =>
    (if saturating then "trunc_sat_" else "trunc_") ++ (ValType.float source).name ++ "_" ++
      sign.letter
  | .convert source _ sign => "convert_" ++ (ValType.int source).name ++ "_" ++ sign.letter
  | .demote => "demote_f64"
  | .promote => "promote_f32"
  | .reinterpretInt w => "reinterpret_" ++ (ValType.int w).name
  | .reinterpretFloat w => "reinterpret_" ++ (ValType.float w).name

/-- The conversions that exist. -/
def Conversion.all : List Conversion :=
  [.wrap, .demote, .promote,
    .extendInPlace .w32 8, .extendInPlace .w32 16,
    .extendInPlace .w64 8, .extendInPlace .w64 16, .extendInPlace .w64 32] ++
  (Signedness.all.map fun sign => .extend sign) ++
  (Width.all.flatMap fun w => [.reinterpretInt w, .reinterpretFloat w]) ++
  (Width.all.flatMap fun source => Width.all.flatMap fun target =>
    Signedness.all.flatMap fun sign =>
      [.truncate source target sign false, .truncate source target sign true,
        .convert source target sign])

namespace NumOp

/-- The mnemonic of a numeric instruction: a type and a name. The type is that
of the operands for a test or comparison, and of the result for the rest. -/
def mnemonic : NumOp → String
  | .intUnary w op => (ValType.int w).name ++ "." ++ op.name
  | .intEqz w => (ValType.int w).name ++ ".eqz"
  | .intBinary w op => (ValType.int w).name ++ "." ++ op.name
  | .intCompare w op => (ValType.int w).name ++ "." ++ op.name
  | .floatUnary w op => (ValType.float w).name ++ "." ++ op.name
  | .floatBinary w op => (ValType.float w).name ++ "." ++ op.name
  | .floatCompare w op => (ValType.float w).name ++ "." ++ op.name
  | .convert op => op.result.name ++ "." ++ op.name

/-- The numeric instructions that exist. -/
def all : List NumOp :=
  (Width.all.flatMap fun w =>
    IntUnary.all.map (.intUnary w) ++ [.intEqz w] ++ IntBinary.all.map (.intBinary w) ++
      IntCompare.all.map (.intCompare w) ++ FloatUnary.all.map (.floatUnary w) ++
      FloatBinary.all.map (.floatBinary w) ++ FloatCompare.all.map (.floatCompare w)) ++
  Conversion.all.map .convert

/-- Each instruction under its mnemonic. -/
def table : List (String × NumOp) := all.map fun op => (op.mnemonic, op)

def parse? (s : String) : Option NumOp := (table.find? fun entry => entry.1 = s).map (·.2)

def parse (s : String) : Except Fault NumOp :=
  match parse? s with
  | some op => .ok op
  | none => .error (.validation .unknownOperator)

end NumOp

/-! ## Loads and stores -/

/-- The access widths that a mnemonic can name. -/
def AccessWidth.narrow : List AccessWidth := [.b8, .b16, .b32]

/-- The widths, narrower than an integer, that it can be loaded from and
stored to. -/
def Width.narrowAccesses (w : Width) : List AccessWidth :=
  AccessWidth.narrow.filter fun width => width.bytes < w.bytes

namespace Load

/-- A load of the whole type bears no width. -/
def mnemonic (l : Load) : String :=
  l.type.name ++ ".load" ++
    (if l.width = l.type.width.access then ""
     else toString l.width.bits ++ "_" ++ l.sign.letter)

/-- The loads that exist, with no offset: of the whole type, and of narrower
integers with either extension. -/
def all : List Load :=
  (ValType.all.map fun t => ⟨t, t.width.access, .signed, 0⟩) ++
  (Width.all.flatMap fun w => w.narrowAccesses.flatMap fun width =>
    Signedness.all.map fun sign => ⟨.int w, width, sign, 0⟩)

/-- Each load under its mnemonic. -/
def table : List (String × Load) := all.map fun l => (l.mnemonic, l)

def parse? (s : String) : Option Load := (table.find? fun entry => entry.1 = s).map (·.2)

def parse (s : String) : Except Fault Load :=
  match parse? s with
  | some l => .ok l
  | none => .error (.validation .unknownOperator)

end Load

namespace Store

/-- A store of the whole type bears no width. -/
def mnemonic (s : Store) : String :=
  s.type.name ++ ".store" ++
    (if s.width = s.type.width.access then "" else toString s.width.bits)

/-- The stores that exist, with no offset: of the whole type, and of narrower
integers. -/
def all : List Store :=
  (ValType.all.map fun t => ⟨t, t.width.access, 0⟩) ++
  (Width.all.flatMap fun w => w.narrowAccesses.map fun width => ⟨.int w, width, 0⟩)

/-- Each store under its mnemonic. -/
def table : List (String × Store) := all.map fun s => (s.mnemonic, s)

def parse? (s : String) : Option Store := (table.find? fun entry => entry.1 = s).map (·.2)

def parse (s : String) : Except Fault Store :=
  match parse? s with
  | some store => .ok store
  | none => .error (.validation .unknownOperator)

end Store

/-! ## All instructions -/

namespace Instruction

def mnemonic : Instruction → String
  | .numeric op => op.mnemonic
  | .load l => l.mnemonic
  | .store s => s.mnemonic
  | .memorySize => "memory.size"
  | .memoryGrow => "memory.grow"
  | .memoryFill => "memory.fill"
  | .memoryCopy => "memory.copy"

/-- The instructions on memory as a whole. -/
def memoryTable : List (String × Instruction) :=
  [memorySize, memoryGrow, memoryFill, memoryCopy].map fun i => (i.mnemonic, i)

/-- **The instruction with a mnemonic.** No text is a mnemonic in two of the
four families, so the order of the look-ups does not matter. -/
def parse? (s : String) : Option Instruction :=
  ((memoryTable.find? fun entry => entry.1 = s).map (·.2))
    <|> (Load.parse? s).map .load
    <|> (Store.parse? s).map .store
    <|> (NumOp.parse? s).map .numeric

def parse (s : String) : Except Fault Instruction :=
  match parse? s with
  | some i => .ok i
  | none => .error (.validation .unknownOperator)

end Instruction

end WasmExec
