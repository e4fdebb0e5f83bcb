/-
What the records of a script are read as.

The reader of a record takes the fields of a document first, all together, and reads them then.
A field with the value that it is read as is a field like any other (`Field.reads`), so a record
is the list of its fields with what they hold (`Command.parts`), and a reader is described by one
equivalence: it reads a record from those documents that give its parts.

For an object this can be said member by member, since an object gives the fields that are found
in it. What else it holds does not enter. From here on nothing about the readers is needed but
these equivalences.
-/
import WasmExec.Proofs.Json.Record

set_option autoImplicit false

namespace WasmExec

/-! ## Fields that are read -/

namespace Json

variable {α : Type} {f : Json → Option α} {name : String} {members : List (Str × Json)} {a : α}

namespace Field

/-- **A field with what it is read as.** -/
def reads (name : String) (f : Json → Option α) (a : α) : Field :=
  required name fun v => f v = some a

/-- A field that may be left out, for a value that it then has. -/
def readsOr (default : α) (name : String) (f : Json → Option α) (a : α) : Field :=
  ⟨name, fun v => f v = some a, a = default⟩

@[simp] theorem name_reads : (reads name f a).name = name := rfl

@[simp] theorem name_readsOr (default : α) : (readsOr default name f a).name = name := rfl

theorem holds_reads_iff {value : Option Json} :
    (reads name f a).Holds value ↔ ∃ v, value = some v ∧ f v = some a := by
  cases value with
  | none => exact ⟨False.elim, nofun⟩
  | some v => exact ⟨fun h => ⟨v, rfl, h⟩, fun ⟨_, hv, h⟩ => Option.some.inj hv ▸ h⟩

theorem holds_readsOr_iff {default : α} {value : Option Json} :
    (readsOr default name f a).Holds value ↔ value.elim (some default) f = some a := by
  cases value with
  | none => exact ⟨fun h => congrArg some h.symm, fun h => (Option.some.inj h).symm⟩
  | some v => exact Iff.rfl

/-- **A field that is read from whatever another field admits.** -/
def Refines (f g : Field) : Prop := f.name = g.name ∧ ∀ value, f.Holds value → g.Holds value

theorem refines_reads {admits : Json → Prop} (h : ∀ v, admits v → f v = some a) :
    (required name admits).Refines (reads name f a) := by
  refine ⟨rfl, fun value hvalue => ?_⟩
  cases value with
  | none => exact hvalue
  | some v => exact h v hvalue

theorem refines_readsOr {admits : Json → Prop} {mayOmit : Prop} {default : α}
    (h : ∀ v, admits v → f v = some a) (homit : mayOmit → a = default) :
    Refines ⟨name, admits, mayOmit⟩ (readsOr default name f a) := by
  refine ⟨rfl, fun value hvalue => ?_⟩
  cases value with
  | none => exact homit hvalue
  | some v => exact h v hvalue

theorem refines_word (name : String) (n : UInt32) :
    (word name n).Refines (reads name uint32? n) := refines_reads fun _ => uint32?_of_isNat

theorem refines_text (name : String) (s : String) :
    (text name s).Refines (reads name string? s) := refines_reads fun _ => string?_of_isText

variable {fields parts : List Field}

theorem map_name_of_refines (h : List.Forall₂ Refines fields parts) :
    parts.map Field.name = fields.map Field.name := by
  induction h with
  | nil => rfl
  | cons hfirst _ ih => rw [List.map_cons, List.map_cons, ih, hfirst.1]

theorem holds_of_refines {values : List (Option Json)} (h : List.Forall₂ Refines fields parts)
    (hvalues : List.Forall₂ Holds fields values) : List.Forall₂ Holds parts values := by
  induction h generalizing values with
  | nil => exact hvalues
  | cons hfirst _ ih =>
    obtain ⟨value, rest, hvalue, hrest, rfl⟩ := List.forall₂_cons_left_iff.mp hvalues
    exact .cons (hfirst.2 value hvalue) (ih hrest)

end Field

/-- A document gives the parts that are read from the fields that it gives. -/
theorem Gives.of_refines {j : Json} {fields parts : List Field} (h : j.Gives fields)
    (hparts : List.Forall₂ Field.Refines fields parts) : j.Gives parts := by
  obtain ⟨values, hread, hvalues⟩ := h
  exact ⟨values, by rw [Field.map_name_of_refines hparts, hread],
    Field.holds_of_refines hparts hvalues⟩

/-- **A member that is there once** and is read as a value. -/
def Has (f : Json → Option α) (name : String) (members : List (Str × Json)) (a : α) : Prop :=
  ∃ v, valuesOf name members = [v] ∧ f v = some a

theorem Field.isFound_reads_iff : (reads name f a).IsFound members ↔ Has f name members a := by
  constructor
  · rintro ⟨value, hholds, hvalue⟩
    obtain ⟨v, rfl, hread⟩ := holds_reads_iff.mp hholds
    exact ⟨v, hvalue, hread⟩
  · rintro ⟨v, hvalue, hread⟩
    exact ⟨some v, hread, hvalue⟩

end Json

open Json (Field Has)

/-! ## Parts -/

/-- The fields of a literal with what they are read as. -/
def Literal.parts (l : Literal) : List Field :=
  [.reads "type" Json.string? l.type, .reads "value" Json.string? l.text]

/-- The fields of the instruction part. -/
def Invocation.parts (call : Invocation) : List Field :=
  [.reads "op" Json.string? call.op, .readsOr 0 "offset" Json.uint32? call.offset,
    .reads "args" literals? call.args]

/-- **The fields of a command with what they are read as**, the tag apart. -/
def Command.parts : Command → List Field
  | .memory line minimum maximum =>
    [.reads "line" Json.uint32? line, .reads "min" Json.uint32? minimum,
      .reads "max" Json.uint32? maximum]
  | .init line offset bytes =>
    [.reads "line" Json.uint32? line, .reads "offset" Json.uint32? offset,
      .reads "bytes" (Json.list? Json.byte?) bytes]
  | .action line call => .reads "line" Json.uint32? line :: call.parts
  | .assertReturn line call expected =>
    .reads "line" Json.uint32? line :: (call.parts ++ [.reads "expected" literals? expected])
  | .assertTrap line call text =>
    .reads "line" Json.uint32? line :: (call.parts ++ [.reads "text" Json.string? text])

/-- The fields of a script. -/
def Script.parts (s : Script) : List Field :=
  [.readsOr "" "source_filename" Json.string? s.source, .reads "commands" commands? s.commands]

/-! ## Readers -/

section

variable {j : Json} {c : Command}

theorem Literal.ofJson?_eq_some_iff {l : Literal} : ofJson? j = some l ↔ j.Gives l.parts := by
  cases l
  simp only [ofJson?, Json.Gives, parts, List.forall₂_cons_left_iff, Field.holds_reads_iff]
  split <;> simp_all [Option.bind_eq_some_iff]

theorem offset?_eq_elim (value : Option Json) :
    offset? value = value.elim (some 0) Json.uint32? := by
  cases value <;> rfl

theorem Invocation.ofFields?_eq_some_iff {op args : Json} {offset : Option Json}
    {call : Invocation} :
    ofFields? op offset args = some call ↔ op.string? = some call.op
      ∧ offset.elim (some 0) Json.uint32? = some call.offset ∧ literals? args = some call.args := by
  cases call
  simp [ofFields?, offset?_eq_elim, Option.bind_eq_some_iff]

-- Each reader either takes a row of the form it wants or does not. Where it does, both sides ask
-- the same of the values, and where it does not, the parts have no such row either.

theorem memoryCommand?_eq_some_iff :
    memoryCommand? j = some c ↔ c.kind = "memory" ∧ j.Gives c.parts := by
  cases c with
  | memory line minimum maximum =>
    simp only [memoryCommand?, Json.Gives, Command.parts, List.forall₂_cons_left_iff,
      Field.holds_reads_iff]
    split <;> simp_all [Option.bind_eq_some_iff, Command.kind]
  | _ =>
    simp only [memoryCommand?, Command.kind]
    split <;> simp [Option.bind_eq_some_iff]

theorem initCommand?_eq_some_iff :
    initCommand? j = some c ↔ c.kind = "init" ∧ j.Gives c.parts := by
  cases c with
  | init line offset bytes =>
    simp only [initCommand?, Json.Gives, Command.parts, List.forall₂_cons_left_iff,
      Field.holds_reads_iff]
    split <;> simp_all [Option.bind_eq_some_iff, Command.kind]
  | _ =>
    simp only [initCommand?, Command.kind]
    split <;> simp [Option.bind_eq_some_iff]

theorem actionCommand?_eq_some_iff :
    actionCommand? j = some c ↔ c.kind = "action" ∧ j.Gives c.parts := by
  cases c with
  | action line call =>
    simp only [actionCommand?, Json.Gives, Command.parts, Invocation.parts,
      List.forall₂_cons_left_iff, Field.holds_reads_iff, Field.holds_readsOr_iff]
    split <;> simp_all [Option.bind_eq_some_iff, Invocation.ofFields?_eq_some_iff, Command.kind]
  | _ =>
    simp only [actionCommand?, Command.kind]
    split <;> simp [Option.bind_eq_some_iff]

theorem returnCommand?_eq_some_iff :
    returnCommand? j = some c ↔ c.kind = "assert_return" ∧ j.Gives c.parts := by
  cases c with
  | assertReturn line call expected =>
    simp only [returnCommand?, Json.Gives, Command.parts, Invocation.parts, List.cons_append,
      List.nil_append, List.forall₂_cons_left_iff, Field.holds_reads_iff, Field.holds_readsOr_iff]
    split <;> simp_all [Option.bind_eq_some_iff, Invocation.ofFields?_eq_some_iff, Command.kind,
      and_assoc]
  | _ =>
    simp only [returnCommand?, Command.kind]
    split <;> simp [Option.bind_eq_some_iff]

theorem trapCommand?_eq_some_iff :
    trapCommand? j = some c ↔ c.kind = "assert_trap" ∧ j.Gives c.parts := by
  cases c with
  | assertTrap line call text =>
    simp only [trapCommand?, Json.Gives, Command.parts, Invocation.parts, List.cons_append,
      List.nil_append, List.forall₂_cons_left_iff, Field.holds_reads_iff, Field.holds_readsOr_iff]
    split <;> simp_all [Option.bind_eq_some_iff, Invocation.ofFields?_eq_some_iff, Command.kind,
      and_assoc]
  | _ =>
    simp only [trapCommand?, Command.kind]
    split <;> simp [Option.bind_eq_some_iff]

/-- **A command is read** from a document that is split into the tag of its kind and a document
that gives its parts. -/
theorem Command.ofJson?_eq_some_iff :
    ofJson? j = some c ↔ ∃ fields, split? j = some (c.kind, fields) ∧ fields.Gives c.parts := by
  rw [ofJson?]
  constructor
  · intro h
    split at h
    · next kind fields hsplit =>
      obtain ⟨hkind, hgives⟩ : c.kind = kind ∧ fields.Gives c.parts := by
        split_ifs at h with hmemory hinit haction hreturn htrap
        · rw [hmemory]
          exact memoryCommand?_eq_some_iff.mp h
        · rw [hinit]
          exact initCommand?_eq_some_iff.mp h
        · rw [haction]
          exact actionCommand?_eq_some_iff.mp h
        · rw [hreturn]
          exact returnCommand?_eq_some_iff.mp h
        · rw [htrap]
          exact trapCommand?_eq_some_iff.mp h
      exact ⟨fields, by rw [hkind]; exact hsplit, hgives⟩
    · cases h
  · rintro ⟨fields, hsplit, hgives⟩
    rw [hsplit]
    cases c with
    | memory => exact memoryCommand?_eq_some_iff.mpr ⟨rfl, hgives⟩
    | init => exact initCommand?_eq_some_iff.mpr ⟨rfl, hgives⟩
    | action => exact actionCommand?_eq_some_iff.mpr ⟨rfl, hgives⟩
    | assertReturn => exact returnCommand?_eq_some_iff.mpr ⟨rfl, hgives⟩
    | assertTrap => exact trapCommand?_eq_some_iff.mpr ⟨rfl, hgives⟩

/-- **A script is read** from a document whose keys have content and that gives its parts. -/
theorem Script.ofJson?_eq_some_iff {s : Script} :
    ofJson? j = some s ↔ j.keysReadable = true ∧ j.Gives s.parts := by
  cases s
  simp only [ofJson?, Json.Gives, parts, List.forall₂_cons_left_iff, Field.holds_reads_iff,
    Field.holds_readsOr_iff]
  split_ifs with hkeys
  · split
    · next source _ _ => cases source <;> simp_all [Option.bind_eq_some_iff, and_comm]
    · simp_all
  · simp [hkeys]

end

/-! ## Objects -/

section

variable {members : List (Json.Str × Json)}

theorem Command.split?_object_iff {kind : String} {fields : Json} :
    split? (.object members) = some (kind, fields)
      ↔ Has Json.string? "type" members kind ∧ fields = .object members := by
  rw [split?]
  constructor
  · intro h
    split at h
    · next tag htag =>
      obtain ⟨k, hk, heq⟩ := Option.map_eq_some_iff.mp h
      obtain ⟨rfl, rfl⟩ := Prod.mk.inj heq
      exact ⟨⟨tag, htag, hk⟩, rfl⟩
    · cases h
  · rintro ⟨⟨tag, htag, hk⟩, rfl⟩
    simp [htag, hk]

/-- **What an object is read as a command for**: its tag tells the kind, and the parts of that
kind are found in it. -/
theorem Command.ofJson?_object_iff {c : Command} :
    ofJson? (.object members) = some c
      ↔ Has Json.string? "type" members c.kind ∧ ∀ f ∈ c.parts, f.IsFound members := by
  simp only [ofJson?_eq_some_iff, split?_object_iff, and_assoc, exists_and_left, exists_eq_left,
    Json.gives_object_iff]

/-- **What an object is read as a script for.** -/
theorem Script.ofJson?_object_iff {s : Script} :
    ofJson? (.object members) = some s
      ↔ (∀ m ∈ members, m.1.isSome = true)
        ∧ (Field.readsOr "" "source_filename" Json.string? s.source).IsFound members
        ∧ Has commands? "commands" members s.commands := by
  rw [ofJson?_eq_some_iff, Json.keysReadable, List.all_eq_true, Json.gives_object_iff, parts,
    List.forall_mem_cons, List.forall_mem_singleton, Field.isFound_reads_iff]

end

end WasmExec
