/-
JSON documents.

The members of an object are kept in the order and number in which they are
written: what a repeated key means is for the reader of the document to say,
and so is which strings and numbers it can use.

Parsing is one pass over the tokens with the brackets that are still open as
its only memory. Each token either fits what is awaited or the text is no
document, so there is nothing to back out of and no bound on the nesting.
-/
import WasmExec.Json.Token
import WasmExec.Floating.Arithmetic
import WasmExec.Floating.Conversion

set_option autoImplicit false

namespace WasmExec

/-- A JSON document. -/
inductive Json where
  | null
  | bool (value : Bool)
  | number (value : Json.Number)
  | string (value : Json.Str)
  | array (items : List Json)
  | object (members : List (Json.Str × Json))

namespace Json

/-! ## Parsing -/

/-- A bracket that is still open, with what it holds so far, the last first. -/
inductive Frame where
  | items (done : List Json)
  /-- The value of `key` is to come. -/
  | member (done : List (Str × Json)) (key : Str)

/-- What may come next, with the open brackets, the innermost first. -/
inductive State where
  | value (stack : List Frame)
  /-- After an opening bracket. -/
  | firstItem (stack : List Frame)
  /-- After an opening brace. -/
  | firstKey (stack : List Frame)
  /-- After a comma in an object. -/
  | key (done : List (Str × Json)) (stack : List Frame)
  | colon (done : List (Str × Json)) (key : Str) (stack : List Frame)
  /-- After a complete value. -/
  | complete (v : Json) (stack : List Frame)

/-- A token where a value is awaited. -/
def beginValue (stack : List Frame) : Token → Option State
  | .null => some (.complete .null stack)
  | .bool b => some (.complete (.bool b) stack)
  | .number n => some (.complete (.number n) stack)
  | .string s => some (.complete (.string s) stack)
  | .openBracket => some (.firstItem stack)
  | .openBrace => some (.firstKey stack)
  | _ => none

/-- A token after a complete value. -/
def afterValue (v : Json) : List Frame → Token → Option State
  | .items done :: stack, .comma => some (.value (.items (v :: done) :: stack))
  | .items done :: stack, .closeBracket =>
    some (.complete (.array (v :: done).reverse) stack)
  | .member done key :: stack, .comma => some (.key ((key, v) :: done) stack)
  | .member done key :: stack, .closeBrace =>
    some (.complete (.object ((key, v) :: done).reverse) stack)
  | _, _ => none

/-- What one token does. -/
def step : State → Token → Option State
  | .value stack, token => beginValue stack token
  | .firstItem stack, .closeBracket => some (.complete (.array []) stack)
  | .firstItem stack, token => beginValue (.items [] :: stack) token
  | .firstKey stack, .closeBrace => some (.complete (.object []) stack)
  | .firstKey stack, .string key => some (.colon [] key stack)
  | .firstKey _, _ => none
  | .key done stack, .string key => some (.colon done key stack)
  | .key _ _, _ => none
  | .colon done key stack, .colon => some (.value (.member done key :: stack))
  | .colon _ _ _, _ => none
  | .complete v stack, token => afterValue v stack token

/-- All tokens, one after another. -/
def run (s : State) : List Token → Option State
  | [] => some s
  | token :: tokens => (step s token).bind fun s => run s tokens

/-- **The document that tokens spell**: one value and nothing behind it. -/
def ofTokens? (tokens : List Token) : Option Json :=
  match run (.value []) tokens with
  | some (.complete v []) => some v
  | _ => none

/-- **The document that a text spells.** -/
def parse? (text : String) : Option Json := (tokens? text.toList).bind ofTokens?

/-! ## Numbers -/

namespace Number

/-- The value of a number that is written as an integer, without a sign. -/
def toNat? (n : Number) : Option Nat :=
  if n.negative || n.fraction.isSome || n.exponent.isSome then none
  else some (Nat.ofDigitChars 10 n.whole 0)

/-- Appends digits to a number while it stays within 64 bits. Gives the number
and how many digits were left over. -/
def absorb (n : Nat) : List Char → Nat × Nat
  | [] => (n, 0)
  | c :: cs =>
    let next := 10 * n + (c.toNat - 48)
    if next ≤ 18446744073709551615 then absorb next cs else (n, cs.length + 1)

/-- The first digits that fit 64 bits, and the power of ten that goes with
them. Digits before the point that did not fit are counted as zeros; digits
after it are dropped. -/
def scientific (n : Number) : Nat × Int :=
  let (whole, left) := absorb 0 n.whole
  let fraction := n.fraction.getD []
  let (digits, dropped) := absorb whole fraction
  (digits, (left : Int) - ((fraction.length : Int) - (dropped : Int)) + n.exponent.getD 0)

/-- **Whether a number is within the range of 64-bit floating point.** Tested
with its first digits, as the product of two numbers of that format. -/
def inRange (n : Number) : Bool :=
  let (digits, exponent) := n.scientific
  if digits = 0 || exponent < 0 then true
  else if 308 < exponent then false
  else
    let product : Word .w64 :=
      Floating.mul (Floating.ofInt .w64 (digits : Int))
        (Floating.ofRat .w64 false ((10 : Rat) ^ exponent))
    Floating.magnitude product < Width.infinityMagnitude .w64

end Number

/-! ## Documents that can be kept

A reader that has to keep a part of a document for later can do so only if all
its strings have content, its numbers are within range and its brackets are
not nested too deep. -/

mutual

/-- Whether a document can be kept with `room` levels of brackets. -/
def fits (room : Nat) : Json → Bool
  | .null => true
  | .bool _ => true
  | .number n => n.inRange
  | .string s => s.isSome
  | .array items => decide (0 < room) && allFit (room - 1) items
  | .object members => decide (0 < room) && membersFit (room - 1) members

def allFit (room : Nat) : List Json → Bool
  | [] => true
  | item :: items => fits room item && allFit room items

def membersFit (room : Nat) : List (Str × Json) → Bool
  | [] => true
  | (key, v) :: members => key.isSome && fits room v && membersFit room members

end

/-! ## Taking a document apart -/

def string? : Json → Option String
  | .string s => s
  | _ => none

/-- An integer without a sign, up to a limit. -/
def natUpTo? (limit : Nat) : Json → Option Nat
  | .number n =>
    match n.toNat? with
    | some v => if v ≤ limit then some v else none
    | none => none
  | _ => none

def list? {α : Type} (f : Json → Option α) : Json → Option (List α)
  | .array items => items.mapM f
  | _ => none

/-- The values of all members with a key. -/
def valuesOf (key : String) (members : List (Str × Json)) : List Json :=
  members.filterMap fun (k, v) => if k = some key then some v else none

/-- **The fields of a record.** An object gives each field by its key, at most
once, in any order, and may hold other members; an array gives all fields and
nothing else, in order. -/
def fields? (names : List String) : Json → Option (List (Option Json))
  | .object members => names.mapM fun name =>
    match valuesOf name members with
    | [] => some none
    | [v] => some (some v)
    | _ => none
  | .array items => if items.length = names.length then some (items.map some) else none
  | _ => none

end Json

end WasmExec
