/-
Numbers as text, read strictly.

These readers take a whole text or nothing. There is no surrounding space, no
digit separator and no second sign, and only the ten ASCII digits are digits.
Each grammar is a short composition of three steps, splitting a sign off,
taking the longest run of digits, and looking at what is left, and a text is
accepted only when nothing is left.
-/
import WasmExec.Width

set_option autoImplicit false

namespace WasmExec.Text

/-! ## Digits and signs -/

/-- The number that a text of digits denotes; the empty text denotes none. -/
def readDigits? (cs : List Char) : Option Nat :=
  if cs.isEmpty then none
  else if cs.all Char.isDigit then some (Nat.ofDigitChars 10 cs 0)
  else none

/-- Whether a text starts with a minus sign, and the text after its sign. -/
def splitSign : List Char → Bool × List Char
  | '-' :: cs => (true, cs)
  | '+' :: cs => (false, cs)
  | cs => (false, cs)

/-! ## Integers -/

/-- An optional sign and digits. -/
def readInt? (cs : List Char) : Option Int :=
  (readDigits? (splitSign cs).2).map fun n =>
    if (splitSign cs).1 then -(n : Int) else (n : Int)

/-- An optional plus sign and digits. Even a zero takes no minus sign here. -/
def readNat? : List Char → Option Nat
  | '+' :: cs => readDigits? cs
  | cs => readDigits? cs

/-- A number that a signed word of a width stands for. -/
def readSigned? (w : Width) (cs : List Char) : Option (Word w) :=
  match readInt? cs with
  | some z =>
    if Signedness.signed.least w ≤ z ∧ z ≤ Signedness.signed.greatest w then
      some (BitVec.ofInt w.bits z)
    else none
  | none => none

/-- A number without a sign that fits a word of a width. -/
def readBits? (w : Width) (cs : List Char) : Option (Word w) :=
  match readNat? cs with
  | some n => if (n : Int) ≤ Signedness.unsigned.greatest w then some (BitVec.ofNat w.bits n) else none
  | none => none

/-- A page count, an offset or a line number. -/
def readUInt32? (cs : List Char) : Option UInt32 := (readBits? .w32 cs).map UInt32.ofBitVec

/-! ## Decimal fractions -/

/-- **What a floating-point literal says**, before it is rounded to a
format. -/
inductive Decimal where
  | nan (negative : Bool)
  | infinite (negative : Bool)
  /-- The integer `digits` times ten to the power `exponent`. -/
  | finite (negative : Bool) (digits : Nat) (exponent : Int)
deriving DecidableEq

/-- The exponent that ends a literal: nothing, or `e` with a signed run of
digits. -/
def readExponent? : List Char → Option Int
  | [] => some 0
  | c :: cs => if c = 'e' ∨ c = 'E' then readInt? cs else none

/-- The digits after a point, if there is one, and the text behind them. -/
def splitFraction : List Char → List Char × List Char
  | '.' :: cs => (cs.takeWhile Char.isDigit, cs.dropWhile Char.isDigit)
  | cs => ([], cs)

/-- Digits with an optional point and exponent. A point may stand first or
last, but not alone. -/
def readFinite? (negative : Bool) (cs : List Char) : Option Decimal :=
  let whole := cs.takeWhile Char.isDigit
  let (fraction, rest) := splitFraction (cs.dropWhile Char.isDigit)
  if whole.isEmpty && fraction.isEmpty then none
  else (readExponent? rest).map fun exponent =>
    .finite negative (Nat.ofDigitChars 10 (whole ++ fraction) 0)
      (exponent - (fraction.length : Int))

/-- **A floating-point literal**: an optional sign, then digits or the word
`nan`, `inf` or `infinity` in any mixture of cases. -/
def readDecimal? (cs : List Char) : Option Decimal :=
  let (negative, body) := splitSign cs
  let word := body.map Char.toLower
  if word = ['n', 'a', 'n'] then some (.nan negative)
  else if word = ['i', 'n', 'f'] ∨ word = ['i', 'n', 'f', 'i', 'n', 'i', 't', 'y'] then
    some (.infinite negative)
  else readFinite? negative body

end WasmExec.Text
