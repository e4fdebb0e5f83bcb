/-
Operand types and values.

A value carries its type with it: integer or floating point, at one of the two
widths. Its content is a word and nothing else. There is no separate unsigned
integer; an operation that wants one reads the same word that way.
-/
import WasmExec.Fault
import WasmExec.Floating.Format

set_option autoImplicit false

namespace WasmExec

/-! ## Types -/

/-- The type of an operand. -/
inductive ValType where
  | int (width : Width)
  | float (width : Width)
deriving DecidableEq

namespace ValType

def i32 : ValType := .int .w32
def i64 : ValType := .int .w64
def f32 : ValType := .float .w32
def f64 : ValType := .float .w64

def width : ValType → Width
  | .int w => w
  | .float w => w

def isInt : ValType → Bool
  | .int _ => true
  | .float _ => false

/-- The name in the text format. -/
def name : ValType → String
  | .int .w32 => "i32"
  | .int .w64 => "i64"
  | .float .w32 => "f32"
  | .float .w64 => "f64"

/-- The byte in the binary format. -/
def code : ValType → UInt8
  | .int .w32 => 0x7f
  | .int .w64 => 0x7e
  | .float .w32 => 0x7d
  | .float .w64 => 0x7c

def all : List ValType := [i32, i64, f32, f64]

/-- The type with a name. -/
def parse (s : String) : Except Fault ValType :=
  match all.find? (fun t => t.name = s) with
  | some t => .ok t
  | none => .error (.validation .typeMismatch)

end ValType

/-! ## Values -/

/-- **A value on the operand stack.** -/
inductive Value where
  | int (width : Width) (bits : Word width)
  | float (width : Width) (bits : Word width)
deriving DecidableEq

namespace Value

def i32 (bits : BitVec 32) : Value := .int .w32 bits
def i64 (bits : BitVec 64) : Value := .int .w64 bits
def f32 (bits : BitVec 32) : Value := .float .w32 bits
def f64 (bits : BitVec 64) : Value := .float .w64 bits

def type : Value → ValType
  | .int w _ => .int w
  | .float w _ => .float w

/-- The word of a value as a number without a sign. -/
def bits : Value → Nat
  | .int _ b => b.toNat
  | .float _ b => b.toNat

/-- The value of a type with a given word. -/
def ofWord : (t : ValType) → Word t.width → Value
  | .int w, b => .int w b
  | .float w, b => .float w b

/-- The value whose bits are all zero. -/
def zero (t : ValType) : Value := ofWord t 0

def isNaN : Value → Bool
  | .int _ _ => false
  | .float _ b => Floating.isNaN b

/-! ## Taking a value as one type -/

/-- The word of an integer of width `w`. -/
def asInt : (w : Width) → Value → Except Fault (Word w)
  | .w32, .int .w32 b => .ok b
  | .w64, .int .w64 b => .ok b
  | _, _ => .error (.validation .typeMismatch)

/-- The word of a floating-point number of width `w`. -/
def asFloat : (w : Width) → Value → Except Fault (Word w)
  | .w32, .float .w32 b => .ok b
  | .w64, .float .w64 b => .ok b
  | _, _ => .error (.validation .typeMismatch)

/-- An address, a page count or a length. -/
def asIndex (v : Value) : Except Fault UInt32 := return UInt32.ofBitVec (← v.asInt .w32)

end Value

end WasmExec
