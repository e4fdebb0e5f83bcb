/-
Records as documents.

A record is written as an object, with its members in any order, or as an array of its
fields. What a field may hold is a predicate on documents (`Field.admits`), so a description
of a record is a list of fields, and a record whose fields hold records is described by
nesting such lists. Only an object can leave a field out.

Reading takes a record apart by the names of its fields and knows nothing of their order.
Names that are all different make this the inverse: each name finds the member that was
written for it and no other (`isFound_of_members`), for a permutation keeps the members of
one name together with their number, and here that number is at most one. What a reader takes
from a document is a row of values, one for each field (`Gives`). A record gives its fields
however it is written (`gives_of_isRecord`), and an object gives them if it has them, one by one
and whatever else it holds (`gives_object_iff`).
-/
import WasmExec.Script.Reading
import WasmExec.Proofs.Text.Numeral
import Mathlib.Data.List.Forall2
import Mathlib.Data.List.Perm.Basic

set_option autoImplicit false

namespace WasmExec.Json

open Text (IsNumeral)

/-! ## Numbers, texts and lists -/

/-- **A number without a sign**, written as an integer. -/
def IsNat (n : Nat) (j : Json) : Prop :=
  ∃ digits, IsNumeral digits n ∧ j = .number ⟨false, digits, none, none⟩

def IsText (s : String) (j : Json) : Prop := j = .string (some s)

/-- **An array with one item for each element of a list**, in order. -/
def IsList {α : Type} (isItem : α → Json → Prop) (xs : List α) (j : Json) : Prop :=
  ∃ items, j = .array items ∧ List.Forall₂ isItem xs items

theorem isNat_toString (n : Nat) : IsNat n (.number ⟨false, (toString n).toList, none, none⟩) :=
  ⟨_, Text.isNumeral_toString n, rfl⟩

theorem string?_of_isText {s : String} {j : Json} (h : IsText s j) : j.string? = some s := by
  rw [h]
  rfl

theorem natUpTo?_of_isNat {n limit : Nat} {j : Json} (h : IsNat n j) (hn : n ≤ limit) :
    j.natUpTo? limit = some n := by
  obtain ⟨digits, ⟨-, -, hvalue⟩, rfl⟩ := h
  simp [natUpTo?, Number.toNat?, hvalue, hn]

theorem uint32?_of_isNat {n : UInt32} {j : Json} (h : IsNat n.toNat j) : j.uint32? = some n := by
  have hn : n.toNat ≤ 4294967295 := Nat.le_of_lt_succ n.toNat_lt
  rw [uint32?, natUpTo?_of_isNat h hn, Option.map_some, UInt32.ofNat_toNat]

theorem byte?_of_isNat {n : UInt8} {j : Json} (h : IsNat n.toNat j) : j.byte? = some n := by
  have hn : n.toNat ≤ 255 := Nat.le_of_lt_succ n.toNat_lt
  rw [byte?, natUpTo?_of_isNat h hn, Option.map_some, UInt8.ofNat_toNat]

/-- **A list is read back** if each of its elements is. -/
theorem list?_of_isList {α : Type} {isItem : α → Json → Prop} {f : Json → Option α}
    (hitem : ∀ x v, isItem x v → f v = some x) {xs : List α} {j : Json}
    (h : IsList isItem xs j) : j.list? f = some xs := by
  obtain ⟨items, rfl, hitems⟩ := h
  rw [list?]
  induction hitems with
  | nil => rfl
  | cons hx _ ih =>
    rw [List.mapM_cons, hitem _ _ hx, ih]
    rfl

/-! ## Records -/

/-- **A field of a record**, by the documents that may stand for what it holds. -/
structure Field where
  name : String
  admits : Json → Prop
  /-- Whether it may be left out of an object. -/
  mayOmit : Prop

namespace Field

/-- A field that has to be written. -/
def required (name : String) (admits : Json → Prop) : Field := ⟨name, admits, False⟩

def word (name : String) (n : UInt32) : Field := required name (IsNat n.toNat)

def text (name : String) (s : String) : Field := required name (IsText s)

/-- **What is found for a field**: a value that it admits, or nothing if it may be left
out. -/
def Holds (f : Field) : Option Json → Prop
  | some v => f.admits v
  | none => f.mayOmit

end Field

/-- **The members of an object**, in the order of the fields. -/
inductive Members : List Field → List (Str × Json) → Prop where
  | nil : Members [] []
  | written {f : Field} {fields : List Field} {v : Json} {members : List (Str × Json)} :
    f.admits v → Members fields members → Members (f :: fields) ((some f.name, v) :: members)
  | omitted {f : Field} {fields : List Field} {members : List (Str × Json)} :
    f.mayOmit → Members fields members → Members (f :: fields) members

/-- **A document that a record is written as.** -/
inductive IsRecord (fields : List Field) : Json → Prop where
  /-- An object, with its members in any order. -/
  | object {ordered members : List (Str × Json)} :
    Members fields ordered → ordered.Perm members → IsRecord fields (.object members)
  /-- An array of all fields in order. -/
  | array {items : List Json} :
    List.Forall₂ Field.admits fields items → IsRecord fields (.array items)

/-- **A field that is found in an object**: its name has one member at most, and what is found
is what the field admits. -/
def Field.IsFound (f : Field) (members : List (Str × Json)) : Prop :=
  ∃ value, f.Holds value ∧ valuesOf f.name members = value.toList

/-- **A document that gives the fields of a record**: a row of values is taken from it, and each
is what its field admits. -/
def Gives (j : Json) (fields : List Field) : Prop :=
  ∃ values, j.fields? (fields.map Field.name) = some values ∧ List.Forall₂ Field.Holds fields values

section

variable {fields : List Field} {ordered members : List (Str × Json)}

theorem exists_field_of_mem (h : Members fields ordered) {m : Str × Json} (hm : m ∈ ordered) :
    ∃ f ∈ fields, m.1 = some f.name ∧ f.admits m.2 := by
  induction h with
  | nil => exact absurd hm List.not_mem_nil
  | @written f fields v ordered hv _ ih =>
    rcases List.mem_cons.mp hm with rfl | hm
    · exact ⟨f, List.mem_cons_self, rfl, hv⟩
    · obtain ⟨g, hg, hm⟩ := ih hm
      exact ⟨g, List.mem_cons_of_mem f hg, hm⟩
  | @omitted f fields ordered _ _ ih =>
    obtain ⟨g, hg, hm⟩ := ih hm
    exact ⟨g, List.mem_cons_of_mem f hg, hm⟩

/-- No member has a name that is not the name of a field. -/
theorem valuesOf_eq_nil (h : Members fields ordered) {name : String}
    (hname : name ∉ fields.map Field.name) : valuesOf name ordered = [] := by
  rw [valuesOf, List.filterMap_eq_nil_iff]
  intro m hm
  obtain ⟨f, hf, hkey, -⟩ := exists_field_of_mem h hm
  have hne : m.1 ≠ some name := by
    rw [hkey]
    intro heq
    rw [← Option.some.inj heq] at hname
    exact hname (List.mem_map_of_mem hf)
  exact if_neg hne

theorem valuesOf_cons (name : String) (key : Str) (v : Json) :
    valuesOf name ((key, v) :: members)
      = if key = some name then v :: valuesOf name members else valuesOf name members := by
  by_cases h : key = some name
  · simp [valuesOf, h]
  · simp [valuesOf, h]

/-- **A name finds what was written for its field**, if no two fields have the same name. -/
theorem isFound_of_members (h : Members fields ordered) (hnames : (fields.map Field.name).Nodup)
    {f : Field} (hf : f ∈ fields) : f.IsFound ordered := by
  induction h with
  | nil => exact absurd hf List.not_mem_nil
  | @written g fields v ordered hv hrest ih =>
    rw [List.map_cons, List.nodup_cons] at hnames
    rw [Field.IsFound, valuesOf_cons]
    rcases List.mem_cons.mp hf with rfl | hf
    · -- no field behind it has the same name, so the value is alone
      refine ⟨some v, hv, ?_⟩
      rw [if_pos rfl, valuesOf_eq_nil hrest hnames.1]
      rfl
    · -- the member in front has another name
      have hne : some g.name ≠ some f.name := by
        intro heq
        rw [Option.some.inj heq] at hnames
        exact hnames.1 (List.mem_map_of_mem hf)
      rw [if_neg hne]
      exact ih hnames.2 hf
  | @omitted g fields ordered homit hrest ih =>
    rw [List.map_cons, List.nodup_cons] at hnames
    rcases List.mem_cons.mp hf with rfl | hf
    · exact ⟨none, homit, valuesOf_eq_nil hrest hnames.1⟩
    · exact ih hnames.2 hf

/-- **The order of the members does not matter**, since a name has one value at most. -/
theorem isFound_of_perm (h : Members fields ordered) (hperm : ordered.Perm members)
    (hnames : (fields.map Field.name).Nodup) {f : Field} (hf : f ∈ fields) :
    f.IsFound members := by
  obtain ⟨value, hholds, hvalue⟩ := isFound_of_members h hnames hf
  refine ⟨value, hholds, ?_⟩
  have hvalues : (valuesOf f.name members).Perm value.toList := by
    rw [← hvalue]
    exact (hperm.filterMap _).symm
  rcases value with _ | v
  · exact List.perm_nil.mp hvalues
  · exact List.perm_singleton.mp hvalues

theorem fields?_object_iff {names : List String} {values : List (Option Json)} :
    (object members).fields? names = some values
      ↔ List.Forall₂ (fun name value => valuesOf name members = value.toList) names values := by
  induction names generalizing values with
  | nil =>
    rw [List.forall₂_nil_left_iff, fields?, List.mapM_nil]
    exact ⟨fun h => (Option.some.inj h).symm, fun h => by rw [h]; rfl⟩
  | cons name names ih =>
    rw [List.forall₂_cons_left_iff]
    rw [fields?] at ih ⊢
    rw [List.mapM_cons]
    simp only [Option.bind_eq_bind, Option.bind_eq_some_iff, Option.pure_def, Option.some.injEq, ih]
    constructor
    · rintro ⟨value, hvalue, rest, hrest, rfl⟩
      refine ⟨value, rest, ?_, hrest, rfl⟩
      split at hvalue
      · next h => rw [h, ← Option.some.inj hvalue]; rfl
      · next h => rw [h, ← Option.some.inj hvalue]; rfl
      · cases hvalue
    · rintro ⟨value, rest, hvalue, hrest, rfl⟩
      refine ⟨value, ?_, rest, hrest, rfl⟩
      rw [hvalue]
      cases value <;> rfl

/-- **An object gives the fields that are found in it**, whatever else it holds. -/
theorem gives_object_iff : (object members).Gives fields ↔ ∀ f ∈ fields, f.IsFound members := by
  simp only [Gives, fields?_object_iff, List.forall₂_map_left_iff]
  induction fields with
  | nil => exact ⟨fun _ => nofun, fun _ => ⟨[], .nil, .nil⟩⟩
  | cons f fields ih =>
    rw [List.forall_mem_cons, ← ih]
    constructor
    · -- the row that is taken is a row of what is found, and its first value is the field's
      rintro ⟨_, hfound, hholds⟩
      obtain ⟨value, values, hvalue, hvalues, rfl⟩ := List.forall₂_cons_left_iff.mp hfound
      obtain ⟨hfirst, hrest⟩ := List.forall₂_cons.mp hholds
      exact ⟨⟨value, hfirst, hvalue⟩, values, hvalues, hrest⟩
    · rintro ⟨⟨value, hholds, hvalue⟩, values, hvalues, hrest⟩
      exact ⟨value :: values, .cons hvalue hvalues, .cons hholds hrest⟩

theorem gives_array {items : List Json} (h : List.Forall₂ Field.admits fields items) :
    (array items).Gives fields := by
  have hlength : items.length = (fields.map Field.name).length := by
    rw [List.length_map, h.length_eq]
  refine ⟨items.map some, by rw [fields?, if_pos hlength], ?_⟩
  rw [List.forall₂_map_right_iff]
  exact h

/-- **The fields of a record are given back**, however it is written. -/
theorem gives_of_isRecord {j : Json} (h : IsRecord fields j)
    (hnames : (fields.map Field.name).Nodup) : j.Gives fields := by
  rcases h with ⟨hmembers, hperm⟩ | hitems
  · exact gives_object_iff.mpr fun f hf => isFound_of_perm hmembers hperm hnames hf
  · exact gives_array hitems

/-- The keys of a record have content. -/
theorem keysReadable_of_isRecord {j : Json} (h : IsRecord fields j) : j.keysReadable = true := by
  rcases h with ⟨hmembers, hperm⟩ | hitems
  · rw [keysReadable, List.all_eq_true]
    intro m hm
    obtain ⟨f, -, hkey, -⟩ := exists_field_of_mem hmembers (hperm.mem_iff.mpr hm)
    rw [hkey]
    rfl
  · rfl

end

end WasmExec.Json
