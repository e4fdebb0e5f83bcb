/-
Signatures, read off a mnemonic.

A mnemonic says by itself what an instruction takes and gives. It begins with the
type that the instruction is about, and a type that occurs later in it is the one
that a conversion comes from. All else follows from the first word after the type:
there are names for one operand, names for two, comparisons, loads and stores.

`ofMnemonic?` is these rules and nothing more. It knows nothing of how an
instruction is represented, so that it agrees with the reader of mnemonics, which
looks a text up in a table, is a fact about every row of that table.
-/
import WasmExec.Mnemonic

set_option autoImplicit false

namespace WasmExec

/-! ## Signatures -/

/-- **What an instruction takes and gives**, the deepest operand first, and
whether it needs a memory. -/
structure Signature where
  operands : List ValType
  result : Option ValType
  usesMemory : Bool
deriving DecidableEq

def Instruction.signature (i : Instruction) : Signature := ⟨i.operands, i.result, i.usesMemory⟩

namespace Signature

/-! ## Words of a mnemonic -/

/-- The parts of a text between the places where a character stands. -/
def parts (separator : Char) : List Char → List (List Char)
  | [] => [[]]
  | c :: cs =>
    if c = separator then [] :: parts separator cs
    else match parts separator cs with
      -- never so: even the empty text has one part
      | [] => [[c]]
      | part :: rest => (c :: part) :: rest

/-- The type that a word names. -/
def typeNamed? (word : String) : Option ValType := ValType.all.find? fun t => t.name = word

/-- Operations with one operand of the type that they give. -/
def unaryNames : List String :=
  ["clz", "ctz", "popcnt", "not", "extend8", "extend16", "extend32",
    "abs", "neg", "ceil", "floor", "trunc", "nearest", "sqrt"]

/-- Operations with two operands of the type that they give. -/
def binaryNames : List String :=
  ["add", "sub", "mul", "div", "rem", "and", "or", "xor", "shl", "shr", "rotl", "rotr",
    "min", "max", "copysign"]

/-- Relations between two operands of one type. -/
def relationNames : List String := ["eq", "ne", "lt", "gt", "le", "ge"]

/-! ## Rules -/

/-- The signature that goes with a type and the words of a name. -/
def ofWords? (t : ValType) : List String → Option Signature
  | [] => none
  | word :: rest =>
    -- a second type is where a conversion comes from
    match rest.findSome? typeNamed? with
    | some source => some ⟨[source], some t, false⟩
    | none =>
      if "load".toList.isPrefixOf word.toList then some ⟨[.i32], some t, true⟩
      else if "store".toList.isPrefixOf word.toList then some ⟨[.i32, t], none, true⟩
      else if word = "eqz" then some ⟨[t], some .i32, false⟩
      else if word ∈ relationNames then some ⟨[t, t], some .i32, false⟩
      else if word ∈ unaryNames then some ⟨[t], some t, false⟩
      else if word ∈ binaryNames then some ⟨[t, t], some t, false⟩
      else none

/-- The signature of an operation on a memory as a whole. -/
def ofMemoryName? (name : String) : Option Signature :=
  if name = "size" then some ⟨[], some .i32, true⟩
  else if name = "grow" then some ⟨[.i32], some .i32, true⟩
  else if name = "fill" ∨ name = "copy" then some ⟨[.i32, .i32, .i32], none, true⟩
  else none

/-- **The signature of a mnemonic**, by its text alone. -/
def ofMnemonic? (s : String) : Option Signature :=
  match parts '.' s.toList with
  | [scope, name] =>
    if String.ofList scope = "memory" then ofMemoryName? (String.ofList name)
    else
      match typeNamed? (String.ofList scope) with
      | some t => ofWords? t ((parts '_' name).map String.ofList)
      | none => none
  | _ => none

end Signature

/-! ## The instructions that a mnemonic names -/

namespace Instruction

/-- Whether the parts of an instruction go together: a sign is extended from a
part that a narrower integer has, and an access is as wide as its type allows. -/
def isSupported : Instruction → Bool
  | .numeric (.convert (.extendInPlace w count)) => Conversion.isExtension w count
  | .numeric _ => true
  | .load l => l.type.admits l.width
  | .store s => s.type.admits s.width
  | _ => true

/-- All instructions under their mnemonics. -/
def table : List (String × Instruction) :=
  memoryTable ++ Load.table.map (fun entry => (entry.1, .load entry.2)) ++
    Store.table.map (fun entry => (entry.1, .store entry.2)) ++
    NumOp.table.map (fun entry => (entry.1, .numeric entry.2))

/-- A row that a look-up finds is one of the table, under the text looked up. -/
theorem mem_of_lookup {α : Type} {table : List (String × α)} {s : String} {a : α}
    (h : (table.find? fun entry => entry.1 = s).map (·.2) = some a) : (s, a) ∈ table := by
  obtain ⟨entry, hfind, rfl⟩ := Option.map_eq_some_iff.mp h
  have hkey := List.find?_some hfind
  rw [decide_eq_true_eq] at hkey
  rw [← hkey]
  exact List.mem_of_find?_eq_some hfind

/-- What is read from a text stands in the table under that text. -/
theorem mem_table_of_parse {s : String} {i : Instruction} (h : parse s = .ok i) :
    (s, i) ∈ table := by
  have hparse : parse? s = some i := by
    rw [parse] at h
    split at h
    · next hparse =>
      cases h
      exact hparse
    · cases h
  -- the look-ups come one after another, so the row is in one of the four tables
  rw [parse?] at hparse
  simp only [Option.orElse_eq_orElse, Option.orElse_eq_or, Option.or_eq_some_iff] at hparse
  rw [table, List.mem_append, List.mem_append, List.mem_append]
  rcases hparse with hmemory | ⟨-, hload | ⟨-, hstore | ⟨-, hnumeric⟩⟩⟩
  · exact .inl (.inl (.inl (mem_of_lookup hmemory)))
  · obtain ⟨l, hl, rfl⟩ := Option.map_eq_some_iff.mp hload
    exact .inl (.inl (.inr (List.mem_map.mpr ⟨(s, l), mem_of_lookup hl, rfl⟩)))
  · obtain ⟨st, hst, rfl⟩ := Option.map_eq_some_iff.mp hstore
    exact .inl (.inr (List.mem_map.mpr ⟨(s, st), mem_of_lookup hst, rfl⟩))
  · obtain ⟨op, hop, rfl⟩ := Option.map_eq_some_iff.mp hnumeric
    exact .inr (List.mem_map.mpr ⟨(s, op), mem_of_lookup hop, rfl⟩)

/-- Each row has the signature of its mnemonic. -/
theorem ofMnemonic_of_mem_table : ∀ entry ∈ table,
    Signature.ofMnemonic? entry.1 = some entry.2.signature ∧ entry.2.isSupported = true := by
  decide +kernel

end Instruction

end WasmExec
