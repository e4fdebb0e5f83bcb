/-
Values as text.

A value is shown as a number with its type, and where bits matter also with
its word in hexadecimal. The hexadecimal field has a fixed number of digits for
each width, so it tells apart all that the number alone does not: the NaNs.
-/
import WasmExec.Floating.Decimal
import WasmExec.Text.Hexadecimal
import WasmExec.Value

set_option autoImplicit false

namespace WasmExec

/-- The bits of a word as `0x` and two digits for each byte. -/
def Width.hex (w : Width) (n : Nat) : String :=
  "0x" ++ String.ofList (Text.hexDigits (2 * w.bytes) n)

namespace Value

/-- The number alone. Integers are shown signed. -/
def number : Value → String
  | .int _ b => toString b.toInt
  | .float _ b => String.ofList (Floating.render b)

/-- The number and its type. -/
def display (v : Value) : String := v.number ++ " (" ++ v.type.name ++ ")"

/-- The number, its type and its bits. -/
def format (v : Value) : String := v.display ++ " [" ++ v.type.width.hex v.bits ++ "]"

end Value

end WasmExec
