/-
Reading a mnemonic by taking it apart.

The table reads a text as a whole. A reader of the text format goes the other way: it
cuts the text at its first dot, takes what stands before the dot as a type, and decides
by what stands behind it. There it strips a first word, cuts at an underscore, and
accepts some names at one width only. This file has that reader, in the order of its
steps.

Two facts are all that a proof needs of the steps that cut. Whatever was cut off is the
front of the text, so the parts put together again are the text
(`ofList_of_splitFirst`, `ofList_of_textAfter`).
-/
import WasmExec.Proofs.Instruction.Spelling
import WasmExec.CommandLine.Argument
import Mathlib.Data.List.Basic

set_option autoImplicit false

namespace WasmExec

open CommandLine (splitFirst)

/-! ## Cutting a text -/

/-- What follows a text's first word, if the text begins with it. -/
def textAfter (word : String) (cs : List Char) : Option (List Char) :=
  cs.dropPrefix? word.toList

/-- Whether a text begins with a word. -/
def startsWith (word : String) (cs : List Char) : Bool := word.toList.isPrefixOf cs

/-! ## Numeric instructions -/

/-- The source of a truncation, and the sign of its result. -/
def truncationSource? : String → Option (Width × Signedness)
  | "f32_s" => some (.w32, .signed)
  | "f32_u" => some (.w32, .unsigned)
  | "f64_s" => some (.w64, .signed)
  | "f64_u" => some (.w64, .unsigned)
  | _ => none

/-- A truncation by what follows its first word. -/
def readTruncation (target : Width) (saturating : Bool) (rest : List Char) : Option NumOp :=
  (truncationSource? (String.ofList rest)).map fun source =>
    .convert (.truncate source.1 target source.2 saturating)

/-- An operation that only one width has. -/
def onlyAt (width w : Width) (op : NumOp) : Option NumOp := if w = width then some op else none

/-- The operations on integers that are named by one word of the text format. -/
def intOperation? (w : Width) : String → Option NumOp
  | "clz" => some (.intUnary w .clz)
  | "ctz" => some (.intUnary w .ctz)
  | "popcnt" => some (.intUnary w .popcnt)
  | "eqz" => some (.intEqz w)
  | "not" => some (.intUnary w .not)
  | "add" => some (.intBinary w .add)
  | "sub" => some (.intBinary w .sub)
  | "mul" => some (.intBinary w .mul)
  | "div_s" => some (.intBinary w (.div .signed))
  | "div_u" => some (.intBinary w (.div .unsigned))
  | "rem_s" => some (.intBinary w (.rem .signed))
  | "rem_u" => some (.intBinary w (.rem .unsigned))
  | "and" => some (.intBinary w .and)
  | "or" => some (.intBinary w .or)
  | "xor" => some (.intBinary w .xor)
  | "shl" => some (.intBinary w .shl)
  | "shr_s" => some (.intBinary w (.shr .signed))
  | "shr_u" => some (.intBinary w (.shr .unsigned))
  | "rotl" => some (.intBinary w .rotl)
  | "rotr" => some (.intBinary w .rotr)
  | "eq" => some (.intCompare w .eq)
  | "ne" => some (.intCompare w .ne)
  | "lt_s" => some (.intCompare w (.lt .signed))
  | "lt_u" => some (.intCompare w (.lt .unsigned))
  | "gt_s" => some (.intCompare w (.gt .signed))
  | "gt_u" => some (.intCompare w (.gt .unsigned))
  | "le_s" => some (.intCompare w (.le .signed))
  | "le_u" => some (.intCompare w (.le .unsigned))
  | "ge_s" => some (.intCompare w (.ge .signed))
  | "ge_u" => some (.intCompare w (.ge .unsigned))
  | "wrap_i64" => onlyAt .w32 w (.convert .wrap)
  | "extend_i32_s" => onlyAt .w64 w (.convert (.extend .signed))
  | "extend_i32_u" => onlyAt .w64 w (.convert (.extend .unsigned))
  | "extend8_s" => some (.convert (.extendInPlace w 8))
  | "extend16_s" => some (.convert (.extendInPlace w 16))
  | "extend32_s" => onlyAt .w64 w (.convert (.extendInPlace w 32))
  | "reinterpret_f32" => onlyAt .w32 w (.convert (.reinterpretFloat w))
  | "reinterpret_f64" => onlyAt .w64 w (.convert (.reinterpretFloat w))
  | _ => none

/-- The longer of the two first words is tried first. -/
def readIntName (w : Width) (name : List Char) : Option NumOp :=
  match textAfter "trunc_sat_" name with
  | some rest => readTruncation w true rest
  | none =>
    match textAfter "trunc_" name with
    | some rest => readTruncation w false rest
    | none => intOperation? w (String.ofList name)

/-- The operations on floating-point numbers. -/
def floatOperation? (w : Width) : String → Option NumOp
  | "abs" => some (.floatUnary w .abs)
  | "neg" => some (.floatUnary w .neg)
  | "ceil" => some (.floatUnary w .ceil)
  | "floor" => some (.floatUnary w .floor)
  | "trunc" => some (.floatUnary w .trunc)
  | "nearest" => some (.floatUnary w .nearest)
  | "sqrt" => some (.floatUnary w .sqrt)
  | "add" => some (.floatBinary w .add)
  | "sub" => some (.floatBinary w .sub)
  | "mul" => some (.floatBinary w .mul)
  | "div" => some (.floatBinary w .div)
  | "min" => some (.floatBinary w .min)
  | "max" => some (.floatBinary w .max)
  | "copysign" => some (.floatBinary w .copysign)
  | "eq" => some (.floatCompare w .eq)
  | "ne" => some (.floatCompare w .ne)
  | "lt" => some (.floatCompare w .lt)
  | "gt" => some (.floatCompare w .gt)
  | "le" => some (.floatCompare w .le)
  | "ge" => some (.floatCompare w .ge)
  | "convert_i32_s" => some (.convert (.convert .w32 w .signed))
  | "convert_i32_u" => some (.convert (.convert .w32 w .unsigned))
  | "convert_i64_s" => some (.convert (.convert .w64 w .signed))
  | "convert_i64_u" => some (.convert (.convert .w64 w .unsigned))
  | "demote_f64" => onlyAt .w32 w (.convert .demote)
  | "promote_f32" => onlyAt .w64 w (.convert .promote)
  | "reinterpret_i32" => onlyAt .w32 w (.convert (.reinterpretInt w))
  | "reinterpret_i64" => onlyAt .w64 w (.convert (.reinterpretInt w))
  | _ => none

/-- A numeric instruction by the texts before and behind its dot. -/
def readNumericName (scope name : List Char) : Option NumOp :=
  match String.ofList scope with
  | "i32" => readIntName .w32 name
  | "i64" => readIntName .w64 name
  | "f32" => floatOperation? .w32 (String.ofList name)
  | "f64" => floatOperation? .w64 (String.ofList name)
  | _ => none

def NumOp.read? (cs : List Char) : Option NumOp := do
  let (scope, name) ← splitFirst '.' cs
  readNumericName scope name

/-! ## Loads and stores -/

/-- The width of a narrow access. -/
def narrowWidth? : String → Option AccessWidth
  | "8" => some .b8
  | "16" => some .b16
  | "32" => some .b32
  | _ => none

def signedness? : String → Option Signedness
  | "s" => some .signed
  | "u" => some .unsigned
  | _ => none

/-- A width, if an access of it is narrower than a type. -/
def accessWithin? (t : ValType) (bits : List Char) : Option AccessWidth :=
  (narrowWidth? (String.ofList bits)).filter t.isNarrowed

/-- The type that stands before the dot. -/
def scopeType? (scope : List Char) : Option ValType :=
  (ValType.parse (String.ofList scope)).toOption

/-- A load by what follows its first word. -/
def readLoadName (t : ValType) (rest : List Char) : Option Load :=
  if rest = [] then some ⟨t, t.width.access, .signed, 0⟩
  else do
    let (bits, letter) ← splitFirst '_' rest
    let sign ← signedness? (String.ofList letter)
    let width ← accessWithin? t bits
    return ⟨t, width, sign, 0⟩

/-- A store by what follows its first word. -/
def readStoreName (t : ValType) (rest : List Char) : Option Store :=
  if rest = [] then some ⟨t, t.width.access, 0⟩
  else (accessWithin? t rest).map fun width => ⟨t, width, 0⟩

def Load.read? (cs : List Char) : Option Load := do
  let (scope, name) ← splitFirst '.' cs
  let t ← scopeType? scope
  let rest ← textAfter "load" name
  readLoadName t rest

def Store.read? (cs : List Char) : Option Store := do
  let (scope, name) ← splitFirst '.' cs
  let t ← scopeType? scope
  let rest ← textAfter "store" name
  readStoreName t rest

/-! ## All instructions -/

namespace Instruction

/-- Hands a text to the reader of one family, by the first word behind the dot. -/
def readFamily? (cs : List Char) : Option Instruction :=
  match splitFirst '.' cs with
  | some (_, name) =>
    if startsWith "load" name then (Load.read? cs).map .load
    else if startsWith "store" name then (Store.read? cs).map .store
    else (NumOp.read? cs).map .numeric
  | none => (NumOp.read? cs).map .numeric

/-- **Reads a mnemonic by its parts.** The operations on a memory as a whole come first,
since a memory is no type. -/
def read? : String → Option Instruction
  | "memory.size" => some .memorySize
  | "memory.grow" => some .memoryGrow
  | "memory.fill" => some .memoryFill
  | "memory.copy" => some .memoryCopy
  | s => readFamily? s.toList

end Instruction

/-! ## What was cut off is the front of the text -/

theorem eq_of_splitFirst {separator : Char} {cs before after : List Char}
    (h : splitFirst separator cs = some (before, after)) :
    cs = before ++ separator :: after := by
  induction cs generalizing before with
  | nil => cases h
  | cons c cs ih =>
    rw [splitFirst] at h
    by_cases hc : c = separator
    · rw [if_pos hc] at h
      cases h
      rw [hc, List.nil_append]
    · rw [if_neg hc] at h
      obtain ⟨⟨front, back⟩, hcut, heq⟩ := Option.map_eq_some_iff.mp h
      cases heq
      rw [ih hcut, List.cons_append]

theorem ofList_of_splitFirst {separator : Char} {cs before after : List Char}
    (h : splitFirst separator cs = some (before, after)) :
    String.ofList cs
      = String.ofList before ++ String.singleton separator ++ String.ofList after := by
  apply String.toList_inj.mp
  simp [eq_of_splitFirst h]

theorem ofList_of_textAfter {word : String} {cs rest : List Char}
    (h : textAfter word cs = some rest) : String.ofList cs = word ++ String.ofList rest := by
  obtain ⟨front, hs, hfront⟩ := List.dropPrefix?_eq_some_iff.mp h
  rw [beq_iff_eq] at hfront
  apply String.toList_inj.mp
  simp [hs, hfront]

end WasmExec
