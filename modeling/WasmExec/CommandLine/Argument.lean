/-
The small languages of command-line arguments.

An operand is written `value:type`, a size `min:max`, a data segment
`offset:bytes`. An operand is split at its last colon and the other two at
their first, so each reader sees a text with no colon on the side where none
may be.

The bytes of a segment are read two *encoded* bytes of the text at a time, not
two characters. While all characters are ASCII that is the same. Where it is
not, a character of two bytes fills a pair by itself and is refused as a digit,
and one that a pair would cut in two ends the reading with an error of its own.
-/
import WasmExec.Floating.Decimal
import WasmExec.Memory
import WasmExec.Text.Hexadecimal
import WasmExec.Value

set_option autoImplicit false

namespace WasmExec.CommandLine

/-! ## Errors -/

/-- **Why an argument was refused.** -/
inductive ArgumentError where
  | operandWithoutType (arg : String)
  | unknownType (name : String)
  | malformedOperand (text : String) (type : ValType)
  | limitsWithoutMaximum (arg : String)
  | malformedPageCount (text : String)
  | segmentWithoutOffset (arg : String)
  | malformedOffset (text : String)
  | oddDigitCount (digits : String)
  | malformedBytes (digits : String)
  /-- A pair of encoded bytes ends inside a character. -/
  | splitCharacter (digits : String)
  | segmentRefused (fault : Fault)
deriving DecidableEq

def ArgumentError.message : ArgumentError → String
  | .operandWithoutType arg =>
    "Invalid argument format '" ++ arg ++ "'. Expected format: value:type (e.g., 42:i32)"
  | .unknownType name =>
    "Unknown type '" ++ name ++ "'. Supported types: i32, i64, f32, f64"
  | .malformedOperand text type => "Failed to parse '" ++ text ++ "' as " ++ type.name
  | .limitsWithoutMaximum arg =>
    "Invalid limits '" ++ arg ++ "'. Expected format: min:max (e.g., 1:2)"
  | .malformedPageCount text => "Failed to parse '" ++ text ++ "' as a page count"
  | .segmentWithoutOffset arg =>
    "Invalid init '" ++ arg ++ "'. Expected format: offset:hexbytes (e.g., 0:01020304)"
  | .malformedOffset text => "Failed to parse '" ++ text ++ "' as an offset"
  | .oddDigitCount digits => "Odd number of hex digits in '" ++ digits ++ "'"
  | .malformedBytes digits => "Invalid hex bytes '" ++ digits ++ "'"
  | .splitCharacter digits => "a pair of bytes ends inside a character of '" ++ digits ++ "'"
  | .segmentRefused fault => fault.message

/-- Whether an error is not reported but ends the program on the spot. -/
def ArgumentError.isAbort : ArgumentError → Bool
  | .splitCharacter _ => true
  | _ => false

/-! ## Splitting -/

/-- The texts before and after the first separator. -/
def splitFirst (separator : Char) : List Char → Option (List Char × List Char)
  | [] => none
  | c :: cs =>
    if c = separator then some ([], cs)
    else (splitFirst separator cs).map fun (before, after) => (c :: before, after)

/-- The texts before and after the last separator. -/
def splitLast (separator : Char) (cs : List Char) : Option (List Char × List Char) :=
  (splitFirst separator cs.reverse).map fun (after, before) => (before.reverse, after.reverse)

/-! ## Operands -/

/-- The value that a text denotes at a type. Integers are tried with a sign
first, and a floating-point operand is always a decimal literal. -/
def readValue? (t : ValType) (cs : List Char) : Option Value :=
  match t with
  | .int w => ((Text.readSigned? w cs).or (Text.readBits? w cs)).map (.int w)
  | .float w => (Floating.read? w cs).map (.float w)

/-- **The value of an operand.** -/
def parseOperand (arg : String) : Except ArgumentError Value :=
  match splitLast ':' arg.toList with
  | none => .error (.operandWithoutType arg)
  | some (text, name) =>
    match ValType.parse (String.ofList name) with
    | .error _ => .error (.unknownType (String.ofList name))
    | .ok t =>
      match readValue? t text with
      | some v => .ok v
      | none => .error (.malformedOperand (String.ofList text) t)

/-! ## Limits -/

def readPageCount (cs : List Char) : Except ArgumentError UInt32 :=
  match Text.readUInt32? cs with
  | some n => .ok n
  | none => .error (.malformedPageCount (String.ofList cs))

/-- **The limits of a memory**, in pages. -/
def parseLimits (arg : String) : Except ArgumentError (UInt32 × UInt32) :=
  match splitFirst ':' arg.toList with
  | none => .error (.limitsWithoutMaximum arg)
  | some (minimum, maximum) => do
    let minimum ← readPageCount minimum
    let maximum ← readPageCount maximum
    return (minimum, maximum)

/-! ## Segments -/

/-- The byte that two digits denote. A plus sign may stand for the first. -/
def readByte? (a b : Char) : Option UInt8 :=
  match hexPart a, Text.hexValue? b with
  | some high, some low => some (UInt8.ofNat (16 * high + low))
  | _, _ => none
where
  hexPart (c : Char) : Option Nat := if c = '+' then some 0 else Text.hexValue? c

/-- Why a row of digits is no row of bytes. -/
inductive PairError where
  | malformed
  | split
deriving DecidableEq

/-- The bytes that pairs denote, up to the first pair that is none. -/
def readPairs : List Char → Except PairError (List UInt8)
  | [] => .ok []
  | [c] => .error (if c.utf8Size = 2 then .malformed else .split)
  | a :: b :: cs =>
    if a.utf8Size = 1 then
      if b.utf8Size = 1 then
        match readByte? a b with
        | some byte => (readPairs cs).map (byte :: ·)
        | none => .error .malformed
      else .error .split
    else .error (if a.utf8Size = 2 then .malformed else .split)

/-- The bytes that a row of digits denotes. -/
def readBytes (cs : List Char) : Except ArgumentError (List UInt8) :=
  let digits := String.ofList cs
  if digits.utf8ByteSize % 2 ≠ 0 then .error (.oddDigitCount digits)
  else
    match readPairs cs with
    | .ok bytes => .ok bytes
    | .error .malformed => .error (.malformedBytes digits)
    | .error .split => .error (.splitCharacter digits)

/-- The offset and the bytes of a segment. -/
def parseSegment (arg : String) : Except ArgumentError (UInt32 × List UInt8) :=
  match splitFirst ':' arg.toList with
  | none => .error (.segmentWithoutOffset arg)
  | some (offset, digits) =>
    match Text.readUInt32? offset with
    | none => .error (.malformedOffset (String.ofList offset))
    | some offset => (readBytes digits).map fun bytes => (offset, bytes)

/-- **Copies a segment into a memory.** -/
def applySegment (m : Memory) (arg : String) : Except ArgumentError Memory :=
  match parseSegment arg with
  | .error error => .error error
  | .ok (offset, bytes) =>
    match m.init offset bytes with
    | .ok after => .ok after
    | .error fault => .error (.segmentRefused fault)

end WasmExec.CommandLine
