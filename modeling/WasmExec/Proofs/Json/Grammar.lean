/-
The grammar of JSON texts.

A text is a row of lexemes with blanks before, between and behind them, and which lexemes
stand for a document is a function of the document (`toTokens`). All the freedom of a writer
is therefore in two places: in the blanks, and in the strings, where a character may stand
as itself, as a letter behind a backslash, as the number of a sixteen-bit unit, or, if it is
outside the first plane, as the numbers of a pair of surrogates. The order of the members of
an object is part of the document here and not of its spelling.

`Spells` is a relation between texts and documents, and it is stated without a reader. Every
document has its strings by their content here, so a string that names half of a surrogate
pair has no spelling.
-/
import WasmExec.Json.Document
import WasmExec.Proofs.Text.Numeral

set_option autoImplicit false

namespace WasmExec.Json

open Text (IsNumeral hexValue?)

/-! ## Strings -/

/-- **The letters that stand behind a backslash**, each with the character that is meant. -/
def letterEscapes : List (Char × Char) :=
  [('"', '"'), ('\\', '\\'), ('/', '/'), ('b', '\x08'), ('f', '\x0c'), ('n', '\n'), ('r', '\r'),
    ('t', '\t')]

/-- **Four hexadecimal digits** for a sixteen-bit unit, in either case. -/
inductive SpellsUnit : List Char → Nat → Prop where
  | mk {a b c d : Char} {p q r s : Nat} :
    hexValue? a = some p → hexValue? b = some q → hexValue? c = some r → hexValue? d = some s →
      SpellsUnit [a, b, c, d] (p * 0x1000 + q * 0x100 + r * 0x10 + s)

/-- **What stands between the quotes of a string**, character by character. -/
inductive SpellsContent : List Char → List Char → Prop where
  | nil : SpellsContent [] []
  /-- A character as itself. Control characters may not stand so. -/
  | plain {c : Char} {cs s : List Char} :
    c ≠ '"' → c ≠ '\\' → 0x20 ≤ c.toNat → SpellsContent cs s → SpellsContent (c :: cs) (c :: s)
  | letter {e c : Char} {cs s : List Char} :
    (e, c) ∈ letterEscapes → SpellsContent cs s → SpellsContent ('\\' :: e :: cs) (c :: s)
  /-- A character of the first plane by its number. -/
  | unit {digits cs s : List Char} {c : Char} :
    SpellsUnit digits c.toNat → SpellsContent cs s →
      SpellsContent ('\\' :: 'u' :: (digits ++ cs)) (c :: s)
  /-- A character of another plane by two surrogates, the upper half first. -/
  | pair {upper lower cs s : List Char} {high low : Nat} {c : Char} :
    SpellsUnit upper high → SpellsUnit lower low → 0xd800 ≤ high → high < 0xdc00 →
      0xdc00 ≤ low → low < 0xe000 →
      c.toNat = 0x10000 + (high - 0xd800) * 0x400 + (low - 0xdc00) → SpellsContent cs s →
      SpellsContent ('\\' :: 'u' :: (upper ++ '\\' :: 'u' :: (lower ++ cs))) (c :: s)

/-! ## Numbers -/

/-- **The digits before the point.** No zero stands in front of others. -/
def IsWhole (cs : List Char) : Prop :=
  cs = ['0'] ∨ (cs.head? ≠ some '0' ∧ ∃ n, IsNumeral cs n)

inductive SpellsFraction : List Char → Option (List Char) → Prop where
  | absent : SpellsFraction [] none
  | digits {ds : List Char} {n : Nat} : IsNumeral ds n → SpellsFraction ('.' :: ds) (some ds)

inductive SpellsExponent : List Char → Option Int → Prop where
  | absent : SpellsExponent [] none
  | unsigned {e : Char} {ds : List Char} {n : Nat} :
    e = 'e' ∨ e = 'E' → IsNumeral ds n → SpellsExponent (e :: ds) (some n)
  | plus {e : Char} {ds : List Char} {n : Nat} :
    e = 'e' ∨ e = 'E' → IsNumeral ds n → SpellsExponent (e :: '+' :: ds) (some n)
  | minus {e : Char} {ds : List Char} {n : Nat} :
    e = 'e' ∨ e = 'E' → IsNumeral ds n → SpellsExponent (e :: '-' :: ds) (some (-n))

/-- **A number**: a minus sign or none, digits, and then perhaps a fraction and an
exponent. -/
inductive SpellsNumber : List Char → Number → Prop where
  | mk {negative : Bool} {sign whole f e : List Char} {fraction : Option (List Char)}
      {exponent : Option Int} :
    sign = (if negative then ['-'] else []) → IsWhole whole → SpellsFraction f fraction →
      SpellsExponent e exponent →
      SpellsNumber (sign ++ (whole ++ (f ++ e))) ⟨negative, whole, fraction, exponent⟩

/-! ## Rows of lexemes -/

/-- **The lexeme of a token.** -/
inductive SpellsToken : List Char → Token → Prop where
  | openBracket : SpellsToken ['['] .openBracket
  | closeBracket : SpellsToken [']'] .closeBracket
  | openBrace : SpellsToken ['\x7b'] .openBrace
  | closeBrace : SpellsToken ['\x7d'] .closeBrace
  | comma : SpellsToken [','] .comma
  | colon : SpellsToken [':'] .colon
  | null : SpellsToken ['n', 'u', 'l', 'l'] .null
  | boolTrue : SpellsToken ['t', 'r', 'u', 'e'] (.bool true)
  | boolFalse : SpellsToken ['f', 'a', 'l', 's', 'e'] (.bool false)
  | number {cs : List Char} {n : Number} : SpellsNumber cs n → SpellsToken cs (.number n)
  | string {cs s : List Char} :
    SpellsContent cs s → SpellsToken ('"' :: (cs ++ ['"'])) (.string (some (String.ofList s)))

/-- Characters that mean nothing between lexemes. -/
def AreBlanks (cs : List Char) : Prop := ∀ c ∈ cs, c = ' ' ∨ c = '\n' ∨ c = '\t' ∨ c = '\r'

/-- **A row of lexemes**, with blanks in front of each and behind the last. -/
inductive SpellsRow : List Char → List Token → Prop where
  | nil {blanks : List Char} : AreBlanks blanks → SpellsRow blanks []
  | cons {blanks lexeme rest : List Char} {token : Token} {tokens : List Token} :
    AreBlanks blanks → SpellsToken lexeme token → SpellsRow rest tokens →
      SpellsRow (blanks ++ (lexeme ++ rest)) (token :: tokens)

/-! ## Documents -/

mutual

/-- **The tokens of a document.** -/
def toTokens : Json → List Token
  | .null => [.null]
  | .bool b => [.bool b]
  | .number n => [.number n]
  | .string s => [.string s]
  | .array [] => [.openBracket, .closeBracket]
  | .array (v :: items) => .openBracket :: (toTokens v ++ moreItems items)
  | .object [] => [.openBrace, .closeBrace]
  | .object ((key, v) :: members) =>
    .openBrace :: .string key :: .colon :: (toTokens v ++ moreMembers members)

/-- The items behind the first one, and the end of the array. -/
def moreItems : List Json → List Token
  | [] => [.closeBracket]
  | v :: items => .comma :: (toTokens v ++ moreItems items)

/-- The members behind the first one, and the end of the object. -/
def moreMembers : List (Str × Json) → List Token
  | [] => [.closeBrace]
  | (key, v) :: members =>
    .comma :: .string key :: .colon :: (toTokens v ++ moreMembers members)

end

/-- **A text spells a document.** -/
def Spells (text : String) (j : Json) : Prop := SpellsRow text.toList j.toTokens

end WasmExec.Json
