/-
What is known of the fields of a script.

A document of a script has parts of a few shapes, and an object of a shape has known fields,
each with a name, a shape of its own and perhaps leave to be missing. The table of them is all
that this file says about scripts. Which fields of a command are known depends on its tag, so
the table is asked with the members of the object at hand.

Two things follow for every shape alike. What is read has every known field as it has to be
(`Shape.found_of_read`): there once and read, or missing with leave. And the fields are all that
counts (`Shape.read_of_follows`): objects are read alike if under each known name they have
values that are read alike. The list of commands makes this a little more than it seems, because
it is read only if it can be kept, so what is kept is carried along with what is read.
-/
import WasmExec.Proofs.Json.Kept
import WasmExec.Proofs.Script.Members

set_option autoImplicit false

namespace WasmExec

open Json (Field Str Has valuesOf)

/-! ## Shapes -/

/-- **What a part of a script's document is for.** -/
inductive Shape where
  | text
  /-- The tag of a command. -/
  | tag
  | word
  | byte
  | list (item : Shape)
  | literal
  | command
  | script

/-- **A known field**: its name, what it is for, and whether it may be left out. -/
structure Slot where
  name : String
  shape : Shape
  mayOmit : Bool

namespace Slot

def required (name : String) (shape : Shape) : Slot := ⟨name, shape, false⟩

/-- The instruction part that three kinds of command share. -/
def call : List Slot :=
  [required "op" .text, ⟨"offset", .word, true⟩, required "args" (.list .literal)]

end Slot

/-- The five kinds of command. -/
def Command.kinds : List String := ["memory", "init", "action", "assert_return", "assert_trap"]

/-- **The known fields of a command**, the tag apart, by its kind. -/
def Command.slots : String → List Slot
  | "memory" => [.required "line" .word, .required "min" .word, .required "max" .word]
  | "init" => [.required "line" .word, .required "offset" .word, .required "bytes" (.list .byte)]
  | "action" => .required "line" .word :: Slot.call
  | "assert_return" =>
    .required "line" .word :: (Slot.call ++ [.required "expected" (.list .literal)])
  | "assert_trap" => .required "line" .word :: (Slot.call ++ [.required "text" .text])
  | _ => []

namespace Shape

/-- **The known fields of an object**, which for a command depend on the tag in it. -/
def slots : Shape → List (Str × Json) → List Slot
  | .literal, _ => [.required "type" .text, .required "value" .text]
  | .command, members =>
    .required "type" .tag :: match valuesOf "type" members with
      | [.string (some kind)] => Command.slots kind
      | _ => []
  | .script, _ => [⟨"source_filename", .text, true⟩, .required "commands" (.list .command)]
  | _, _ => []

/-- What a part is read as. -/
def Content : Shape → Type
  | .text => String
  | .tag => String
  | .word => UInt32
  | .byte => UInt8
  | .list item => List item.Content
  | .literal => Literal
  | .command => Command
  | .script => Script

/-- The kind that a tag names. -/
def kind? (j : Json) : Option String := j.string?.filter (· ∈ Command.kinds)

/-- **The reader of a part.** -/
def read : (S : Shape) → Json → Option S.Content
  | .text => Json.string?
  | .tag => kind?
  | .word => Json.uint32?
  | .byte => Json.byte?
  | .list item => Json.list? item.read
  | .literal => Literal.ofJson?
  | .command => Command.ofJson?
  | .script => Script.ofJson?

end Shape

/-- **A field that is as it has to be**: left out where it may be, or there once and read. -/
def Slot.IsFound (slot : Slot) (members : List (Str × Json)) : Prop :=
  (slot.mayOmit = true ∧ valuesOf slot.name members = [])
    ∨ ∃ a, Has slot.shape.read slot.name members a

/-- **A known field with what it is read as.** -/
inductive Slot.Reads : Slot → Field → Prop where
  | required (name : String) {S : Shape} (a : S.Content) :
    Reads (.required name S) (.reads name S.read a)
  | mayOmit (name : String) {S : Shape} (default a : S.Content) :
    Reads ⟨name, S, true⟩ (.readsOr default name S.read a)

theorem Literal.reads_slots (l : Literal) :
    List.Forall₂ Slot.Reads [.required "type" .text, .required "value" .text] l.parts :=
  .cons (@Slot.Reads.required "type" .text l.type)
    (.cons (@Slot.Reads.required "value" .text l.text) .nil)

theorem Invocation.reads_slots (call : Invocation) :
    List.Forall₂ Slot.Reads Slot.call call.parts :=
  .cons (@Slot.Reads.required "op" .text call.op)
    (.cons (@Slot.Reads.mayOmit "offset" .word (0 : UInt32) call.offset)
      (.cons (@Slot.Reads.required "args" (.list .literal) call.args) .nil))

/-- **The known fields of a command are its parts.** -/
theorem Command.reads_slots (c : Command) : List.Forall₂ Slot.Reads (slots c.kind) c.parts := by
  cases c with
  | memory line minimum maximum =>
    exact .cons (@Slot.Reads.required "line" .word line)
      (.cons (@Slot.Reads.required "min" .word minimum)
        (.cons (@Slot.Reads.required "max" .word maximum) .nil))
  | init line offset bytes =>
    exact .cons (@Slot.Reads.required "line" .word line)
      (.cons (@Slot.Reads.required "offset" .word offset)
        (.cons (@Slot.Reads.required "bytes" (.list .byte) bytes) .nil))
  | action line call => exact .cons (@Slot.Reads.required "line" .word line) call.reads_slots
  | assertReturn line call expected =>
    exact .cons (@Slot.Reads.required "line" .word line) (List.rel_append call.reads_slots
      (.cons (@Slot.Reads.required "expected" (.list .literal) expected) .nil))
  | assertTrap line call text =>
    exact .cons (@Slot.Reads.required "line" .word line) (List.rel_append call.reads_slots
      (.cons (@Slot.Reads.required "text" .text text) .nil))

section

variable {members : List (Str × Json)}

theorem Slot.Reads.isFound {slot : Slot} {f : Field} (h : slot.Reads f)
    (hf : f.IsFound members) : slot.IsFound members := by
  cases h with
  | required name a => exact .inr ⟨a, Field.isFound_reads_iff.mp hf⟩
  | mayOmit name default a =>
    obtain ⟨value, hread, hvalue⟩ := hf
    cases value with
    | none => exact .inl ⟨rfl, hvalue⟩
    | some v => exact .inr ⟨a, v, hvalue, hread⟩

/-- Where the parts of a record are found, its known fields are as they have to be. -/
theorem Slot.isFound_of_parts {known : List Slot} {parts : List Field}
    (h : List.Forall₂ Slot.Reads known parts) (hparts : ∀ f ∈ parts, f.IsFound members) :
    ∀ slot ∈ known, slot.IsFound members := by
  induction h with
  | nil => exact nofun
  | cons hfirst _ ih =>
    rw [List.forall_mem_cons] at hparts ⊢
    exact ⟨hfirst.isFound hparts.1, ih hparts.2⟩

theorem Command.kind_mem_kinds (c : Command) : c.kind ∈ kinds := by
  cases c <;> simp [kind, kinds]

theorem Shape.kind?_eq_some_iff {v : Json} {kind : String} :
    kind? v = some kind ↔ v = .string (some kind) ∧ kind ∈ Command.kinds := by
  rw [kind?, Option.filter_eq_some_iff, decide_eq_true_iff]
  constructor
  · rintro ⟨hstring, hkind⟩
    cases v with
    | string s =>
      obtain rfl : s = some kind := hstring
      exact ⟨rfl, hkind⟩
    | _ => cases hstring
  · rintro ⟨rfl, hkind⟩
    exact ⟨rfl, hkind⟩

/-- The tag of a command that is read is the text of its kind. -/
theorem Command.has_tag_iff {kind : String} :
    Has Shape.tag.read "type" members kind
      ↔ valuesOf "type" members = [.string (some kind)] ∧ kind ∈ kinds := by
  constructor
  · rintro ⟨v, hv, hread⟩
    obtain ⟨rfl, hkind⟩ := Shape.kind?_eq_some_iff.mp hread
    exact ⟨hv, hkind⟩
  · rintro ⟨hv, hkind⟩
    exact ⟨_, hv, Shape.kind?_eq_some_iff.mpr ⟨rfl, hkind⟩⟩

theorem Command.has_type_iff (c : Command) :
    Has Json.string? "type" members c.kind ↔ Has Shape.tag.read "type" members c.kind := by
  rw [has_tag_iff]
  constructor
  · rintro ⟨v, hv, hread⟩
    cases v with
    | string s =>
      obtain rfl : s = some c.kind := hread
      exact ⟨hv, c.kind_mem_kinds⟩
    | _ => cases hread
  · rintro ⟨hv, -⟩
    exact ⟨_, hv, rfl⟩

/-- The tag of a command that is read gives it its known fields. -/
theorem Shape.slots_command {kind : String} (h : Has tag.read "type" members kind) :
    slots .command members = .required "type" .tag :: Command.slots kind := by
  rw [slots, (Command.has_tag_iff.mp h).1]

/-- **What is read has all its known fields as they have to be.** -/
theorem Shape.found_of_read {S : Shape} {x : S.Content} (h : S.read (.object members) = some x) :
    ∀ slot ∈ S.slots members, slot.IsFound members := by
  cases S with
  | literal =>
    have hparts := Json.gives_object_iff.mp (Literal.ofJson?_eq_some_iff.mp h)
    exact Slot.isFound_of_parts (Literal.reads_slots x) hparts
  | command =>
    obtain ⟨htype, hparts⟩ := Command.ofJson?_object_iff.mp h
    have htag := (Command.has_type_iff _).mp htype
    rw [slots_command htag, List.forall_mem_cons]
    exact ⟨.inr ⟨_, htag⟩, Slot.isFound_of_parts (Command.reads_slots x) hparts⟩
  | script =>
    obtain ⟨-, hsource, commands, hcommands, hread⟩ := Script.ofJson?_object_iff.mp h
    -- the commands are a list of commands, whatever room they take
    have hlist : (Shape.list .command).read commands = some x.commands := by
      rw [commands?] at hread
      split at hread
      · exact hread
      · cases hread
    rw [slots, List.forall_mem_cons, List.forall_mem_singleton]
    exact ⟨(@Slot.Reads.mayOmit "source_filename" .text "" x.source).isFound hsource,
      .inr ⟨_, commands, hcommands, hlist⟩⟩
  | _ => exact nofun

end

/-! ## Known fields by name -/

namespace Shape

variable {S : Shape} {members members' : List (Str × Json)} {slot : Slot}

theorem nodup_slots (S : Shape) (members : List (Str × Json)) :
    ((S.slots members).map Slot.name).Nodup := by
  cases S with
  | command =>
    rw [slots]
    split
    · next kind _ =>
      unfold Command.slots
      split <;> decide
    · decide
  | literal => exact (by decide : ["type", "value"].Nodup)
  | script => exact (by decide : ["source_filename", "commands"].Nodup)
  | _ => exact List.nodup_nil

/-- A name belongs to one known field at most. -/
theorem eq_of_name_eq {slot' : Slot} (h : slot ∈ S.slots members) (h' : slot' ∈ S.slots members)
    (hname : slot.name = slot'.name) : slot = slot' :=
  List.inj_on_of_nodup_map (S.nodup_slots members) h h' hname

/-- Which fields are known is not changed by the members of a known field, other than the
tag; and the tag itself is always known. -/
theorem mem_slots_of_valuesOf (h : slot ∈ S.slots members)
    (htype : slot.name ≠ "type" → valuesOf "type" members' = valuesOf "type" members) :
    slot ∈ S.slots members' := by
  cases S with
  | command =>
    by_cases hname : slot.name = "type"
    · have htag : slot = .required "type" .tag := eq_of_name_eq h List.mem_cons_self hname
      rw [htag]
      exact List.mem_cons_self
    · rw [slots, htype hname]
      exact h
  | _ => exact h

/-- The values that a known field has in a document that is read. -/
theorem read_of_mem_valuesOf {x : S.Content} (h : S.read (.object members) = some x)
    (hslot : slot ∈ S.slots members) {v : Json} (hv : v ∈ valuesOf slot.name members) :
    valuesOf slot.name members = [v] ∧ (slot.shape.read v).isSome = true := by
  obtain ⟨-, habsent⟩ | ⟨a, u, hu, hread⟩ := found_of_read h slot hslot
  · rw [habsent] at hv
    cases hv
  · rw [hu, List.mem_singleton] at hv
    subst hv
    exact ⟨hu, by rw [hread]; rfl⟩

end Shape

/-! ## Documents that are read alike -/

/-- **A document that is read like another one**, and kept where that one is. -/
def Shape.Follows (S : Shape) (u v : Json) : Prop :=
  (∀ x, S.read u = some x → S.read v = some x) ∧ ∀ room, u.fits room = true → v.fits room = true

theorem Shape.follows_refl (S : Shape) (u : Json) : S.Follows u u := ⟨fun _ h => h, fun _ h => h⟩

section

variable {members members' : List (Str × Json)}

/-- At most one value is followed by at most one value. -/
theorem Shape.exists_follows {S : Shape} {value : Option Json} {values : List Json}
    (h : List.Forall₂ S.Follows value.toList values) :
    ∃ value', values = value'.toList ∧ Option.Rel S.Follows value value' := by
  cases value with
  | none => exact ⟨none, List.forall₂_nil_left_iff.mp h, .none⟩
  | some u =>
    obtain ⟨v, rest, hfollows, hrest, rfl⟩ := List.forall₂_cons_left_iff.mp h
    obtain rfl := List.forall₂_nil_left_iff.mp hrest
    exact ⟨some v, rfl, .some hfollows⟩

/-- A field that is found stays found if the values of its name are followed. -/
theorem Slot.Reads.isFound_of_follows {slot : Slot} {f : Field} (h : slot.Reads f)
    (hfollows : List.Forall₂ slot.shape.Follows (valuesOf slot.name members)
      (valuesOf slot.name members')) (hf : f.IsFound members) : f.IsFound members' := by
  obtain ⟨value, hholds, hvalue⟩ := hf
  have hname : f.name = slot.name := by
    cases h <;> rfl
  rw [hname] at hvalue
  rw [hvalue] at hfollows
  obtain ⟨value', hvalue', hrel⟩ := Shape.exists_follows hfollows
  refine ⟨value', ?_, by rw [hname, hvalue']⟩
  -- a field that is left out stays out, and of a value only what it is read as counts
  cases hrel with
  | none => exact hholds
  | some hread =>
    cases h with
    | required name a => exact hread.1 a hholds
    | mayOmit name default a => exact hread.1 a hholds

/-- Parts that are found stay found if the values of all known fields are followed. -/
theorem Slot.parts_of_follows {known : List Slot} {parts : List Field}
    (h : List.Forall₂ Slot.Reads known parts) (hparts : ∀ f ∈ parts, f.IsFound members)
    (hfollows : ∀ slot ∈ known, List.Forall₂ slot.shape.Follows (valuesOf slot.name members)
      (valuesOf slot.name members')) : ∀ f ∈ parts, f.IsFound members' := by
  induction h with
  | nil => exact nofun
  | cons hfirst _ ih =>
    rw [List.forall_mem_cons] at hparts hfollows ⊢
    exact ⟨hfirst.isFound_of_follows hfollows.1 hparts.1, ih hparts.2 hfollows.2⟩

/-- **An object is read alike** if all its known fields are, and nothing is asked of the others
but that their keys have content. -/
theorem Shape.read_of_follows {S : Shape} {x : S.Content} (h : S.read (.object members) = some x)
    (hslots : ∀ slot ∈ S.slots members,
      List.Forall₂ slot.shape.Follows (valuesOf slot.name members) (valuesOf slot.name members'))
    (hkeys : (∀ m ∈ members, m.1.isSome = true) → ∀ m ∈ members', m.1.isSome = true) :
    S.read (.object members') = some x := by
  cases S with
  | literal =>
    have hparts := Json.gives_object_iff.mp (Literal.ofJson?_eq_some_iff.mp h)
    exact Literal.ofJson?_eq_some_iff.mpr (Json.gives_object_iff.mpr
      (Slot.parts_of_follows (Literal.reads_slots x) hparts hslots))
  | command =>
    obtain ⟨htype, hparts⟩ := Command.ofJson?_object_iff.mp h
    have htag := (Command.has_type_iff _).mp htype
    rw [slots_command htag, List.forall_mem_cons] at hslots
    have htag' := (@Slot.Reads.required "type" .tag x.kind).isFound_of_follows hslots.1
      (Field.isFound_reads_iff.mpr htag)
    exact Command.ofJson?_object_iff.mpr
      ⟨(Command.has_type_iff _).mpr (Field.isFound_reads_iff.mp htag'),
        Slot.parts_of_follows (Command.reads_slots x) hparts hslots.2⟩
  | script =>
    obtain ⟨hnames, hsource, commands, hcommands, hread⟩ := Script.ofJson?_object_iff.mp h
    rw [slots, List.forall_mem_cons, List.forall_mem_singleton] at hslots
    obtain ⟨hsource', hcommands'⟩ := hslots
    -- the list of commands is read alike and can be kept as well
    rw [Slot.required, hcommands] at hcommands'
    obtain ⟨v, rest, hfollows, hrest, hv⟩ := List.forall₂_cons_left_iff.mp hcommands'
    obtain rfl := List.forall₂_nil_left_iff.mp hrest
    rw [commands?] at hread
    split_ifs at hread with hfits
    have hread' : commands? v = some x.commands := by
      rw [commands?, if_pos (hfollows.2 _ hfits)]
      exact hfollows.1 _ hread
    have hsource := (@Slot.Reads.mayOmit "source_filename" .text "" x.source).isFound_of_follows
      hsource' hsource
    exact Script.ofJson?_object_iff.mpr ⟨hkeys hnames, hsource, v, hv, hread'⟩
  | _ => cases h

end

end WasmExec
