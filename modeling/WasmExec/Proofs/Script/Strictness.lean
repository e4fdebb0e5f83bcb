/-
Known fields are held to, and others are passed over.

A document can be spoiled by one change at one place, and it can be given one more field that
nothing knows. Both are relations between documents that follow the document down to the place:
through the members of known fields and the items of lists. So what has to be proved is what
happens at the place, and that it is carried up.

A spoiled part is not read. At the place this is so because a known field is there once and is
read in whatever is read at all, and one step up it is the same fact again. Which field is known
must not be disturbed by the change; the tag of a command is the one field that decides this, and
it is known whatever the tag is.

An extended part is read as before. The new member has none of the known names, and what is kept
can be kept with it, because its value has no brackets and its key has content.
-/
import WasmExec.Proofs.Json.Range
import WasmExec.Proofs.Script.Rendering
import WasmExec.Proofs.Script.Shape

set_option autoImplicit false

namespace WasmExec

open Json (Str valuesOf)

/-! ## Members by name -/

section

variable {front back : List (Str × Json)} {name : String} {v : Json}

theorem Json.valuesOf_append (name : String) (front back : List (Str × Json)) :
    valuesOf name (front ++ back) = valuesOf name front ++ valuesOf name back := by
  rw [valuesOf, List.filterMap_append]
  rfl

theorem Json.valuesOf_insert_self :
    valuesOf name (front ++ (some name, v) :: back)
      = valuesOf name front ++ v :: valuesOf name back := by
  rw [valuesOf_append, valuesOf_cons, if_pos rfl]

theorem Json.valuesOf_insert_of_ne {other : String} (h : other ≠ name) :
    valuesOf name (front ++ (some other, v) :: back) = valuesOf name (front ++ back) := by
  have hne : (some other : Str) ≠ some name := fun heq => h (Option.some.inj heq)
  rw [valuesOf_append, valuesOf_cons, if_neg hne, ← valuesOf_append]

theorem Json.mem_valuesOf_insert_self : v ∈ valuesOf name (front ++ (some name, v) :: back) := by
  rw [valuesOf_insert_self]
  exact List.mem_append_right _ List.mem_cons_self

/-- Without its only member a name has none. -/
theorem Json.valuesOf_eq_nil_of_insert
    (h : valuesOf name (front ++ (some name, v) :: back) = [v]) :
    valuesOf name (front ++ back) = [] := by
  have hlength := congrArg List.length h
  rw [valuesOf_insert_self] at hlength
  rw [valuesOf_append]
  simp only [List.length_append, List.length_cons, List.length_nil] at hlength
  exact List.eq_nil_of_length_eq_zero (by rw [List.length_append]; omega)

theorem Json.mem_valuesOf {members : List (Str × Json)} :
    v ∈ valuesOf name members ↔ (some name, v) ∈ members := by
  rw [valuesOf, List.mem_filterMap]
  constructor
  · rintro ⟨⟨key, u⟩, hmem, heq⟩
    simp only [Option.ite_none_right_eq_some, Option.some.injEq] at heq
    obtain ⟨rfl, rfl⟩ := heq
    exact hmem
  · intro hmem
    exact ⟨_, hmem, if_pos rfl⟩

/-- A list with one item picked out. -/
theorem Json.list?_insert {α : Type} (f : Json → Option α) (front back : List Json) (v : Json) :
    (array (front ++ v :: back)).list? f
      = (front.mapM f).bind fun xs => (f v).bind fun x =>
          (back.mapM f).map fun ys => xs ++ x :: ys := by
  rw [list?, List.mapM_append, List.mapM_cons]
  cases front.mapM f <;> cases f v <;> cases back.mapM f <;> rfl

end

/-! ## Spoiled documents -/

/-- **A value that a field cannot be given**: of another kind, or a number that is no whole
number in range, or for a tag a text that names no kind. -/
def Shape.Refuses : Shape → Json → Prop
  | .text, v => ∀ s, v ≠ .string (some s)
  | .tag, v => ∀ s, v = .string (some s) → s ∉ Command.kinds
  | .word, v => IsNoNatUpTo 4294967295 v
  | .byte, v => IsNoNatUpTo 255 v
  | .list _, v => ∀ items, v ≠ .array items
  | _, v => (∀ members, v ≠ .object members) ∧ ∀ items, v ≠ .array items
where
  /-- Not a number, or one with a sign, a fraction or an exponent, or above a limit. -/
  IsNoNatUpTo (limit : Nat) (v : Json) : Prop :=
    ∀ n, v = .number n → n.negative = true ∨ n.fraction.isSome = true ∨ n.exponent.isSome = true
      ∨ limit < Nat.ofDigitChars 10 n.whole 0

/-- **One change that spoils a document**, anywhere in it: a value that its field or its list
cannot be given, a field that may not be left out and is, or a second member for a field. -/
inductive Spoils : Shape → Json → Json → Prop where
  | replaced {S : Shape} {u v : Json} : S.Refuses v → Spoils S u v
  | dropped {S : Shape} {front back : List (Str × Json)} {slot : Slot} {v : Json} :
    slot ∈ S.slots (front ++ (some slot.name, v) :: back) → slot.mayOmit = false →
      Spoils S (.object (front ++ (some slot.name, v) :: back)) (.object (front ++ back))
  | repeated {S : Shape} {front back : List (Str × Json)} {slot : Slot} {u v : Json} :
    slot ∈ S.slots (front ++ back) → (some slot.name, u) ∈ front ++ back →
      Spoils S (.object (front ++ back)) (.object (front ++ (some slot.name, v) :: back))
  | member {S : Shape} {front back : List (Str × Json)} {slot : Slot} {u v : Json} :
    slot ∈ S.slots (front ++ (some slot.name, u) :: back) → Spoils slot.shape u v →
      Spoils S (.object (front ++ (some slot.name, u) :: back))
        (.object (front ++ (some slot.name, v) :: back))
  | item {S : Shape} {front back : List Json} {u v : Json} :
    Spoils S u v → Spoils (.list S) (.array (front ++ u :: back)) (.array (front ++ v :: back))

theorem Json.natUpTo?_of_isNoNatUpTo {limit : Nat} {v : Json}
    (h : Shape.Refuses.IsNoNatUpTo limit v) : v.natUpTo? limit = none := by
  cases v with
  | number n =>
    have hn := h n rfl
    rw [natUpTo?, Number.toNat?]
    by_cases hplain : (n.negative || n.fraction.isSome || n.exponent.isSome) = true
    · rw [if_pos hplain]
    · rw [if_neg hplain]
      simp only [Bool.or_eq_true, not_or] at hplain
      have hlarge : ¬ Nat.ofDigitChars 10 n.whole 0 ≤ limit := by
        obtain h | h | h | h := hn
        · exact absurd h hplain.1.1
        · exact absurd h hplain.1.2
        · exact absurd h hplain.2
        · omega
      exact if_neg hlarge
  | _ => rfl

theorem Shape.read_of_refuses {S : Shape} {v : Json} (h : S.Refuses v) : S.read v = none := by
  cases S with
  | text =>
    cases v with
    | string s =>
      cases s with
      | none => rfl
      | some s => exact absurd rfl (h s)
    | _ => rfl
  | tag =>
    cases v with
    | string s =>
      cases s with
      | none => rfl
      | some s => exact if_neg (by simpa using h s rfl)
    | _ => rfl
  | word => exact congrArg (Option.map _) (Json.natUpTo?_of_isNoNatUpTo h)
  | byte => exact congrArg (Option.map _) (Json.natUpTo?_of_isNoNatUpTo h)
  | list item =>
    cases v with
    | array items => exact absurd rfl (h items)
    | _ => rfl
  | literal | command | script =>
    cases v with
    | object members => exact absurd rfl (h.1 members)
    | array items => exact absurd rfl (h.2 items)
    | _ => rfl

namespace Shape

variable {S : Shape}

/-- **A spoiled document is not read.** -/
theorem read_of_spoils {u v : Json} (h : Spoils S u v) (hu : (S.read u).isSome = true) :
    S.read v = none := by
  induction h with
  | replaced hrefuses => exact read_of_refuses hrefuses
  | @dropped S front back slot v hslot homit =>
    obtain ⟨x, hx⟩ := Option.isSome_iff_exists.mp hu
    -- the member that is dropped was the only one of its name
    have hone := (read_of_mem_valuesOf hx hslot Json.mem_valuesOf_insert_self).1
    have hnone := Json.valuesOf_eq_nil_of_insert hone
    have hslot' : slot ∈ S.slots (front ++ back) :=
      mem_slots_of_valuesOf hslot fun hne => (Json.valuesOf_insert_of_ne hne).symm
    refine Option.eq_none_iff_forall_ne_some.mpr fun y hy => ?_
    obtain ⟨hmay, -⟩ | ⟨a, w, hw, -⟩ := found_of_read hy slot hslot'
    · rw [homit] at hmay
      cases hmay
    · rw [hnone] at hw
      cases hw
  | @repeated S front back slot u v hslot hmem =>
    have hslot' : slot ∈ S.slots (front ++ (some slot.name, v) :: back) :=
      mem_slots_of_valuesOf hslot fun hne => Json.valuesOf_insert_of_ne hne
    refine Option.eq_none_iff_forall_ne_some.mpr fun y hy => ?_
    -- if it were read, the new member would be the only one of its name
    have hone := (read_of_mem_valuesOf hy hslot' Json.mem_valuesOf_insert_self).1
    have hfirst := Json.mem_valuesOf.mpr hmem
    rw [Json.valuesOf_eq_nil_of_insert hone] at hfirst
    cases hfirst
  | @member S front back slot u v hslot _ ih =>
    obtain ⟨x, hx⟩ := Option.isSome_iff_exists.mp hu
    have hnone := ih (read_of_mem_valuesOf hx hslot Json.mem_valuesOf_insert_self).2
    have hslot' : slot ∈ S.slots (front ++ (some slot.name, v) :: back) :=
      mem_slots_of_valuesOf hslot fun hne => by
        rw [Json.valuesOf_insert_of_ne hne, Json.valuesOf_insert_of_ne hne]
    refine Option.eq_none_iff_forall_ne_some.mpr fun y hy => ?_
    have hsome := (read_of_mem_valuesOf hy hslot' Json.mem_valuesOf_insert_self).2
    rw [hnone] at hsome
    cases hsome
  | @item S front back u v _ ih =>
    have hitem : (S.read u).isSome = true := by
      obtain ⟨xs, hxs⟩ := Option.isSome_iff_exists.mp hu
      rw [read, Json.list?_insert] at hxs
      obtain ⟨_, -, hxs⟩ := Option.bind_eq_some_iff.mp hxs
      obtain ⟨x, hx, -⟩ := Option.bind_eq_some_iff.mp hxs
      rw [hx]
      rfl
    rw [read, Json.list?_insert, ih hitem]
    cases front.mapM S.read <;> rfl

end Shape

/-! ## Extended documents -/

/-- **A value that may stand in a field that is passed over**, wherever the field is. -/
inductive Json.IsPlain : Json → Prop where
  | null : IsPlain .null
  | bool (b : Bool) : IsPlain (.bool b)
  | string (s : String) : IsPlain (.string (some s))
  | number (n : Json.Number) : n.inRange = true → IsPlain (.number n)

/-- **One more field in an object**, anywhere in a document, with a name that is none of the
known fields of the object. -/
inductive Extends : Shape → Json → Json → Prop where
  | added {S : Shape} {front back : List (Str × Json)} {name : String} {v : Json} :
    name ∉ (S.slots (front ++ back)).map Slot.name → v.IsPlain →
      Extends S (.object (front ++ back)) (.object (front ++ (some name, v) :: back))
  | member {S : Shape} {front back : List (Str × Json)} {slot : Slot} {u v : Json} :
    slot ∈ S.slots (front ++ (some slot.name, u) :: back) → Extends slot.shape u v →
      Extends S (.object (front ++ (some slot.name, u) :: back))
        (.object (front ++ (some slot.name, v) :: back))
  | item {S : Shape} {front back : List Json} {u v : Json} :
    Extends S u v → Extends (.list S) (.array (front ++ u :: back)) (.array (front ++ v :: back))

theorem Json.fits_object {room : Nat} {members : List (Str × Json)} :
    (object members).fits room = true
      ↔ 0 < room ∧ ∀ m ∈ members, m.1.isSome = true ∧ m.2.fits (room - 1) = true := by
  rw [fits, Bool.and_eq_true, decide_eq_true_iff, membersFit_iff]

theorem Json.fits_array {room : Nat} {items : List Json} :
    (array items).fits room = true ↔ 0 < room ∧ ∀ v ∈ items, v.fits (room - 1) = true := by
  rw [fits, Bool.and_eq_true, decide_eq_true_iff, allFit_iff]

theorem Json.IsPlain.fits {v : Json} (h : v.IsPlain) (room : Nat) : v.fits room = true := by
  cases h with
  | number n hn => exact hn
  | _ => rfl

theorem forall_mem_insert {α : Type} {P : α → Prop} {front back : List α} {a : α} :
    (∀ m ∈ front ++ a :: back, P m) ↔ P a ∧ ∀ m ∈ front ++ back, P m := by
  rw [List.forall_mem_append, List.forall_mem_cons, List.forall_mem_append, and_left_comm]

/-- **An extended document is read alike, and kept where the other one is.** -/
theorem Shape.follows_of_extends {S : Shape} {u v : Json} (h : Extends S u v) : S.Follows u v := by
  have hrefl : ∀ (S : Shape) (vs : List Json), List.Forall₂ S.Follows vs vs := fun S vs =>
    List.forall₂_same.mpr fun w _ => S.follows_refl w
  induction h with
  | @added S front back name v hname hplain =>
    refine ⟨fun x hx => read_of_follows hx (fun slot hslot => ?_) fun hkeys => ?_,
      fun room hroom => ?_⟩
    · -- the new member has another name than every known field
      have hne : name ≠ slot.name := fun heq => hname (heq ▸ List.mem_map_of_mem hslot)
      rw [Json.valuesOf_insert_of_ne hne]
      exact hrefl _ _
    · exact forall_mem_insert.mpr ⟨rfl, hkeys⟩
    · rw [Json.fits_object] at hroom ⊢
      exact ⟨hroom.1, forall_mem_insert.mpr ⟨⟨rfl, hplain.fits _⟩, hroom.2⟩⟩
  | @member S front back slot u v hslot _ ih =>
    refine ⟨fun x hx => read_of_follows hx (fun slot' hslot' => ?_) fun hkeys => ?_,
      fun room hroom => ?_⟩
    · by_cases hname : slot.name = slot'.name
      · obtain rfl := eq_of_name_eq hslot hslot' hname
        rw [Json.valuesOf_insert_self, Json.valuesOf_insert_self]
        exact List.rel_append (hrefl _ _) (.cons ih (hrefl _ _))
      · rw [Json.valuesOf_insert_of_ne hname, Json.valuesOf_insert_of_ne hname]
        exact hrefl _ _
    · rw [forall_mem_insert] at hkeys ⊢
      exact hkeys
    · rw [Json.fits_object, forall_mem_insert] at hroom ⊢
      exact ⟨hroom.1, ⟨rfl, ih.2 _ hroom.2.1.2⟩, hroom.2.2⟩
  | @item S front back u v _ ih =>
    refine ⟨fun xs hxs => ?_, fun room hroom => ?_⟩
    · rw [read, Json.list?_insert] at hxs ⊢
      obtain ⟨as, has, hxs⟩ := Option.bind_eq_some_iff.mp hxs
      obtain ⟨x, hx, hxs⟩ := Option.bind_eq_some_iff.mp hxs
      rw [has, ih.1 x hx]
      exact hxs
    · rw [Json.fits_array, forall_mem_insert] at hroom ⊢
      exact ⟨hroom.1, ih.2 _ hroom.2.1, hroom.2.2⟩

/-! ## Texts of scripts -/

/-- **Known fields are held to, and others are passed over.** All renderings of a script are read
as the script, and what is read as it need not be one of them. Of a document that is read as a
script, one spoiled field, wherever it is, leaves nothing to be read, and one more field with
another name, in whatever object, changes nothing. The text may be any that is read as the
changed document, and so any that spells it (`Json.parse?_of_spells`). A number in a field that
is passed over has to be within range, and numbers up to a power of ten not far below the
overflow are. -/
theorem Script.strict_and_blind (s : Script) :
    (∀ j, s.RendersAs j → ofJson? j = some s)
      ∧ (∀ j j' text, ofJson? j = some s → Spoils .script j j' → Json.parse? text = some j' →
        parse? text = none)
      ∧ (∀ j j' text, ofJson? j = some s → Extends .script j j' → Json.parse? text = some j' →
        parse? text = some s)
      ∧ ∀ cs n, Json.SpellsNumber cs n → |n.value| ≤ 10 ^ 307 → n.inRange = true := by
  refine ⟨fun j => ofJson?_of_rendersAs, fun j j' text h hspoils htext => ?_,
    fun j j' text h hextends htext => ?_, fun cs n => Json.Number.inRange_of_le⟩
  · have hread : (Shape.script.read j).isSome = true := by
      rw [Shape.read, h]
      rfl
    rw [parse?, htext]
    exact Shape.read_of_spoils hspoils hread
  · rw [parse?, htext]
    exact (Shape.follows_of_extends hextends).1 s h

/-- A command that makes a memory: with its minimum twice it is no command any more, with a
maximum that has a fraction it is none either, and with the name of an instruction, which such
a command does not have, it is the same command. -/
theorem Script.strict_and_blind_memory :
    (∃ j, Script.RendersAs ⟨"", [.memory 1 0 2]⟩ j ∧ Json.parse? "\x7b\"commands\":
        [\x7b\"type\":\"memory\",\"line\":1,\"min\":0,\"max\":2\x7d]\x7d" = some j)
      ∧ parse? "\x7b\"commands\":
        [\x7b\"type\":\"memory\",\"line\":1,\"min\":0,\"max\":2,\"min\":0\x7d]\x7d" = none
      ∧ parse? "\x7b\"commands\":
        [\x7b\"type\":\"memory\",\"line\":1,\"min\":0,\"max\":2.0\x7d]\x7d" = none
      ∧ parse? "\x7b\"commands\":
        [\x7b\"type\":\"memory\",\"line\":1,\"min\":0,\"max\":2,\"op\":\"nop\"\x7d]\x7d"
          = some ⟨"", [.memory 1 0 2]⟩ := by
  let digit (c : Char) : Json := .number ⟨false, [c], none, none⟩
  let front : List (Str × Json) :=
    [(some "type", .string (some "memory")), (some "line", digit '1'), (some "min", digit '0')]
  let members : List (Str × Json) := front ++ [(some "max", digit '2')]
  have hmemory : (Command.memory 1 0 2).RendersAs (.object members) :=
    .object (.written rfl (.written (Json.isNat_toString 1) (.written (Json.isNat_toString 0)
      (.written (Json.isNat_toString 2) .nil)))) (List.Perm.refl _)
  have hscript : Script.RendersAs ⟨"", [.memory 1 0 2]⟩
      (.object [(some "commands", .array [.object members])]) :=
    .object (.omitted rfl (.written ⟨_, rfl, .cons hmemory .nil⟩ .nil)) (List.Perm.refl _)
  obtain ⟨hrendered, hspoiled, hextended, -⟩ := strict_and_blind ⟨"", [.memory 1 0 2]⟩
  have hbase := hrendered _ hscript
  have hcommands : Slot.required "commands" (.list .command)
      ∈ Shape.slots .script [(some "commands", .array [.object members])] := .tail _ (.head _)
  have hminimum : Slot.required "min" .word ∈ Shape.slots .command members :=
    .tail _ (.tail _ (.head _))
  have hmaximum : Slot.required "max" .word ∈ Shape.slots .command members :=
    .tail _ (.tail _ (.tail _ (.head _)))
  refine ⟨⟨_, hscript, rfl⟩, ?_, ?_, ?_⟩
  · have htwice := @Spoils.repeated .command members [] (.required "min" .word) (digit '0')
      (digit '0') hminimum (.tail _ (.tail _ (.head _)))
    exact hspoiled _ _ _ hbase (@Spoils.member .script [] [] _ _ _ hcommands
      (@Spoils.item .command [] [] _ _ htwice)) rfl
  · have hfraction : Shape.Refuses .word (.number ⟨false, ['2'], some ['0'], none⟩) := by
      rintro n ⟨⟩
      exact .inr (.inl rfl)
    have hspoils := @Spoils.member .command front [] (.required "max" .word) (digit '2') _
      hmaximum (.replaced hfraction)
    exact hspoiled _ _ _ hbase (@Spoils.member .script [] [] _ _ _ hcommands
      (@Spoils.item .command [] [] _ _ hspoils)) rfl
  · have hextends := @Extends.added .command members [] "op" (.string (some "nop")) (by decide)
      (.string "nop")
    exact hextended _ _ _ hbase (@Extends.member .script [] [] _ _ _ hcommands
      (@Extends.item .command [] [] _ _ hextends)) rfl

end WasmExec
