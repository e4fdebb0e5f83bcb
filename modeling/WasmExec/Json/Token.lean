/-
The tokens of a JSON text.

A text is a row of tokens with blanks between them. Numbers are kept as they
are written, since whether a number may stand in a place depends on how it was
written, and not on its value alone: `1.0` is no integer. A string may name half
of a surrogate pair, which is no character; such a string is a token all the
same, without content, because some readers never look inside.
-/
import WasmExec.Text.Hexadecimal

set_option autoImplicit false

namespace WasmExec.Json

/-! ## Tokens -/

/-- A number as written. -/
structure Number where
  negative : Bool
  /-- The digits before the point, with no zero in front of others. -/
  whole : List Char
  /-- The digits after the point, if there is one. -/
  fraction : Option (List Char)
  exponent : Option Int
deriving DecidableEq

/-- The characters of a string, or nothing if it names half of a surrogate
pair. -/
abbrev Str : Type := Option String

inductive Token where
  | openBracket
  | closeBracket
  | openBrace
  | closeBrace
  | comma
  | colon
  | null
  | bool (value : Bool)
  | number (value : Number)
  | string (value : Str)
deriving DecidableEq

/-! ## Strings -/

/-- A piece of a string: a character as itself, or sixteen bits by number. -/
inductive Piece where
  | char (c : Char)
  | unit (n : Nat)

/-- Four hexadecimal digits. -/
def unit? (a b c d : Char) : Option Piece := do
  let a ← Text.hexValue? a
  let b ← Text.hexValue? b
  let c ← Text.hexValue? c
  let d ← Text.hexValue? d
  return .unit (((a * 16 + b) * 16 + c) * 16 + d)

/-- The character that a one-letter escape stands for. -/
def escape? : Char → Option Char
  | '"' => some '"'
  | '\\' => some '\\'
  | '/' => some '/'
  | 'b' => some '\x08'
  | 'f' => some '\x0c'
  | 'n' => some '\n'
  | 'r' => some '\r'
  | 't' => some '\t'
  | _ => none

/-- The pieces up to the closing quote, and the text after it. A control
character has to be escaped. -/
def scanString : List Char → Option (List Piece × List Char)
  | [] => none
  | '"' :: cs => some ([], cs)
  | '\\' :: 'u' :: a :: b :: c :: d :: cs => do
    let piece ← unit? a b c d
    let (pieces, rest) ← scanString cs
    return (piece :: pieces, rest)
  | '\\' :: c :: cs => do
    let c ← escape? c
    let (pieces, rest) ← scanString cs
    return (.char c :: pieces, rest)
  | c :: cs =>
    if c.toNat < 0x20 then none
    else do
      let (pieces, rest) ← scanString cs
      return (.char c :: pieces, rest)

/-- The characters that pieces spell. A number from the upper half of the
surrogates joins one from the lower half right behind it; neither stands
alone. -/
def joinPieces : List Piece → Option (List Char)
  | [] => some []
  | .char c :: ps => (joinPieces ps).map (c :: ·)
  | .unit high :: .unit low :: ps =>
    if 0xd800 ≤ high ∧ high < 0xdc00 ∧ 0xdc00 ≤ low ∧ low < 0xe000 then
      (joinPieces ps).map (Char.ofNat (0x10000 + (high - 0xd800) * 0x400 + (low - 0xdc00)) :: ·)
    else if 0xd800 ≤ high ∧ high < 0xe000 then none
    else (joinPieces (.unit low :: ps)).map (Char.ofNat high :: ·)
  | .unit n :: ps =>
    if 0xd800 ≤ n ∧ n < 0xe000 then none else (joinPieces ps).map (Char.ofNat n :: ·)

/-! ## Numbers -/

/-- The digits before the point, and the text behind them. -/
def scanWhole : List Char → Option (List Char × List Char)
  | [] => none
  | '0' :: cs => some (['0'], cs)
  | c :: cs =>
    if c.isDigit then some (c :: cs.takeWhile Char.isDigit, cs.dropWhile Char.isDigit) else none

/-- At least one digit. -/
def scanDigits (cs : List Char) : Option (List Char × List Char) :=
  let digits := cs.takeWhile Char.isDigit
  if digits.isEmpty then none else some (digits, cs.dropWhile Char.isDigit)

def scanFraction : List Char → Option (Option (List Char) × List Char)
  | '.' :: cs => (scanDigits cs).map fun (digits, rest) => (some digits, rest)
  | cs => some (none, cs)

/-- An exponent after its letter. -/
def scanExponentDigits : List Char → Option (Option Int × List Char)
  | '-' :: cs => (scanDigits cs).map fun (digits, rest) =>
    (some (-(Nat.ofDigitChars 10 digits 0 : Int)), rest)
  | '+' :: cs => (scanDigits cs).map fun (digits, rest) =>
    (some (Nat.ofDigitChars 10 digits 0 : Int), rest)
  | cs => (scanDigits cs).map fun (digits, rest) =>
    (some (Nat.ofDigitChars 10 digits 0 : Int), rest)

def scanExponent : List Char → Option (Option Int × List Char)
  | 'e' :: cs => scanExponentDigits cs
  | 'E' :: cs => scanExponentDigits cs
  | cs => some (none, cs)

/-- A number after its sign, and the text behind it. -/
def scanNumber (negative : Bool) (cs : List Char) : Option (Number × List Char) := do
  let (whole, cs) ← scanWhole cs
  let (fraction, cs) ← scanFraction cs
  let (exponent, cs) ← scanExponent cs
  return (⟨negative, whole, fraction, exponent⟩, cs)

/-! ## The row of tokens -/

def isBlank (c : Char) : Bool := c = ' ' || c = '\n' || c = '\t' || c = '\r'

/-- The token at the front of a text, and the text behind it. -/
def scanToken : List Char → Option (Token × List Char)
  | '[' :: cs => some (.openBracket, cs)
  | ']' :: cs => some (.closeBracket, cs)
  | '\x7b' :: cs => some (.openBrace, cs)
  | '\x7d' :: cs => some (.closeBrace, cs)
  | ',' :: cs => some (.comma, cs)
  | ':' :: cs => some (.colon, cs)
  | 'n' :: 'u' :: 'l' :: 'l' :: cs => some (.null, cs)
  | 't' :: 'r' :: 'u' :: 'e' :: cs => some (.bool true, cs)
  | 'f' :: 'a' :: 'l' :: 's' :: 'e' :: cs => some (.bool false, cs)
  | '"' :: cs => (scanString cs).map fun (pieces, rest) =>
    (.string ((joinPieces pieces).map String.ofList), rest)
  | '-' :: cs => (scanNumber true cs).map fun (n, rest) => (.number n, rest)
  | cs => (scanNumber false cs).map fun (n, rest) => (.number n, rest)

/-- Puts the tokens of a text behind those of `done`, which has the last one
first. Each step uses up at least one character, so a text never needs more
steps than it has characters. -/
def tokensWithin : (steps : Nat) → List Char → (done : List Token) → Option (List Token)
  | _, [], done => some done.reverse
  | 0, _ :: _, _ => none
  | steps + 1, c :: cs, done =>
    if isBlank c then tokensWithin steps cs done
    else
      match scanToken (c :: cs) with
      | some (token, rest) => tokensWithin steps rest (token :: done)
      | none => none

/-- **The tokens of a text.** -/
def tokens? (cs : List Char) : Option (List Token) := tokensWithin cs.length cs []

end WasmExec.Json
