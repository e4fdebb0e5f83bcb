/-
Text in quotes, with escapes.

A quoted text shows what it holds: a quote, a backslash and every character that
is not visible by itself are written as escapes, the rest as they are. Single
quotes need none, since double quotes stand around the text.
-/
import WasmExec.Text.Printable

set_option autoImplicit false

namespace WasmExec.Text

/-- An escape by number: the code point in hexadecimal, in braces. -/
def numericEscape (c : Char) : List Char :=
  ['\\', 'u', '\x7b'] ++ Nat.toDigits 16 c.toNat ++ ['\x7d']

/-- A character as it is written between quotes. -/
def escaped (c : Char) : List Char :=
  if c = '"' then ['\\', '"']
  else if c = '\\' then ['\\', '\\']
  else if c = '\n' then ['\\', 'n']
  else if c = '\r' then ['\\', 'r']
  else if c = '\t' then ['\\', 't']
  else if c = '\x00' then ['\\', '0']
  else if isVisible c then [c]
  else numericEscape c

/-- **A text in quotes.** -/
def quoted (s : String) : String :=
  String.ofList ('"' :: s.toList.flatMap escaped ++ ['"'])

end WasmExec.Text
