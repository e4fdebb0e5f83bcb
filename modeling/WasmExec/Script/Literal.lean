/-
Typed literals, as scripts write values.

A literal is the name of a type and a text. Integers may be written signed or
unsigned, and are tried without a sign first. A floating-point value may be
written in two ways, as a decimal numeral or as the number of its bit pattern,
and the text itself says which: one that has a minus sign, a point, an exponent
or one of the words `inf` and `nan` in it is a numeral, and a plain row of
digits is a bit pattern. The forms that start with `nan:` stand for any NaN and
are read as the canonical one.
-/
import WasmExec.Floating.Decimal
import WasmExec.Value

set_option autoImplicit false

namespace WasmExec

/-- A value as it is written: the name of its type and a text. -/
structure Literal where
  type : String
  text : String
deriving DecidableEq

/-- Why a literal denotes no value. -/
inductive LiteralError where
  | unknownType (name : String)
  | malformed (type : ValType) (text : String)
deriving DecidableEq

def LiteralError.message : LiteralError → String
  | .unknownType name => "unknown value type: " ++ name
  | .malformed type text => "bad " ++ type.name ++ " value '" ++ text ++ "'"

namespace Literal

/-- Whether a word occurs in a text. -/
def occurs (word : List Char) : List Char → Bool
  | [] => word.isEmpty
  | c :: cs => word.isPrefixOf (c :: cs) || occurs word cs

/-- Whether a text is meant as a decimal numeral. -/
def looksDecimal (cs : List Char) : Bool :=
  ['-'].isPrefixOf cs || cs.any (fun c => c = '.' || c = 'e' || c = 'E') ||
    occurs ['i', 'n', 'f'] cs || occurs ['n', 'a', 'n'] cs

/-- Whether a text stands for any NaN. -/
def isAnyNaN (cs : List Char) : Bool := ['n', 'a', 'n', ':'].isPrefixOf cs

/-- The word that a text denotes as a floating-point literal. -/
def readFloat? (w : Width) (cs : List Char) : Option (Word w) :=
  if isAnyNaN cs then some (Floating.canonicalNaN w false)
  else if looksDecimal cs then Floating.read? w cs
  else Text.readBits? w cs

/-- The value that a text denotes at a type. -/
def read? (t : ValType) (cs : List Char) : Option Value :=
  match t with
  | .int w => ((Text.readBits? w cs).or (Text.readSigned? w cs)).map (.int w)
  | .float w => (readFloat? w cs).map (.float w)

/-- **The value of a literal.** -/
def value (l : Literal) : Except LiteralError Value :=
  match ValType.parse l.type with
  | .error _ => .error (.unknownType l.type)
  | .ok t =>
    match read? t l.text.toList with
    | some v => .ok v
    | none => .error (.malformed t l.text)

/-- The values of a row of literals, or the first error in it. -/
def values (ls : List Literal) : Except LiteralError (List Value) := ls.mapM value

end Literal

end WasmExec
