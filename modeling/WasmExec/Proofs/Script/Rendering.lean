/-
Scripts are read back.

What a script may be written as is a relation between scripts and documents
(`Script.RendersAs`), and with the grammar of texts a relation between scripts and texts.
Each record has a list of fields, and every writer's choice is left open: an object or an
array for each record, the order of the members, a field of zero or of no text that is left
out, the blanks between lexemes and the spelling of each string.

The proof goes up the same way: literals, the instruction part, commands, scripts. Only two
things are not plain reading. A command is known by its tag, which an object may have in any
place; the tag is one more field of its record, so the reading of records finds it, and finds
the other fields when it is passed over (`Command.split?_of_isRecord`). And the list of
commands has to be a document that can be kept; a command has three levels of brackets, so
the list has four, whatever the script is.
-/
import WasmExec.Proofs.Json.Acceptance
import WasmExec.Proofs.Json.Kept
import WasmExec.Proofs.Json.Writing
import WasmExec.Proofs.Script.Members

set_option autoImplicit false

namespace WasmExec

open Json (Field IsNat IsText IsList IsRecord FitsIn)

/-! ## Renderings -/

/-- **The fields of a literal**, in the order in which an array has them. -/
def Literal.fields (l : Literal) : List Field := [.text "type" l.type, .text "value" l.text]

/-- A document that a literal is written as. -/
def Literal.RendersAs (l : Literal) (j : Json) : Prop := IsRecord l.fields j

/-- The fields of the instruction part. An offset of zero may be left out. -/
def Invocation.fields (call : Invocation) : List Field :=
  [.text "op" call.op, ⟨"offset", IsNat call.offset.toNat, call.offset = 0⟩,
    .required "args" (IsList Literal.RendersAs call.args)]

/-- **The fields of a command**, after its tag. The offset of bytes has to be written, also
if it is zero. -/
def Command.fields : Command → List Field
  | .memory line minimum maximum => [.word "line" line, .word "min" minimum, .word "max" maximum]
  | .init line offset bytes =>
    [.word "line" line, .word "offset" offset,
      .required "bytes" (IsList (fun b : UInt8 => IsNat b.toNat) bytes)]
  | .action line call => .word "line" line :: call.fields
  | .assertReturn line call expected =>
    .word "line" line ::
      (call.fields ++ [.required "expected" (IsList Literal.RendersAs expected)])
  | .assertTrap line call text => .word "line" line :: (call.fields ++ [.text "text" text])

/-- A document that a command is written as. -/
def Command.RendersAs (c : Command) (j : Json) : Prop :=
  IsRecord (.text "type" c.kind :: c.fields) j

/-- **The fields of a script.** A name without characters may be left out. -/
def Script.fields (s : Script) : List Field :=
  [⟨"source_filename", IsText s.source, s.source = ""⟩,
    .required "commands" (IsList Command.RendersAs s.commands)]

/-- A document that a script is written as. -/
def Script.RendersAs (s : Script) (j : Json) : Prop := IsRecord s.fields j

/-- **A text of a script.** -/
def Script.IsWrittenIn (s : Script) (text : String) : Prop :=
  ∃ j, s.RendersAs j ∧ Json.Spells text j

/-- **A property of all fields of a command** is one of five kinds of field. -/
theorem Command.forall_fields {P : Field → Prop} (c : Command) (hword : ∀ name n, P (.word name n))
    (htext : ∀ name s, P (.text name s))
    (hoffset : ∀ n : UInt32, P ⟨"offset", IsNat n.toNat, n = 0⟩)
    (hbytes : ∀ bytes, P (.required "bytes" (IsList (fun b : UInt8 => IsNat b.toNat) bytes)))
    (hliterals : ∀ name ls, P (.required name (IsList Literal.RendersAs ls))) :
    ∀ f ∈ .text "type" c.kind :: c.fields, P f := by
  have hcall : ∀ call : Invocation, ∀ f ∈ call.fields, P f := by
    intro call
    simp [Invocation.fields, htext, hoffset, hliterals]
  rw [List.forall_mem_cons]
  refine ⟨htext _ _, ?_⟩
  cases c with
  | memory line minimum maximum => simp [fields, hword]
  | init line offset bytes => simp [fields, hword, hbytes]
  | action line call =>
    rw [fields, List.forall_mem_cons]
    exact ⟨hword _ _, hcall call⟩
  | assertReturn line call expected =>
    rw [fields, List.forall_mem_cons, List.forall_mem_append, List.forall_mem_singleton]
    exact ⟨hword _ _, hcall call, hliterals _ _⟩
  | assertTrap line call text =>
    rw [fields, List.forall_mem_cons, List.forall_mem_append, List.forall_mem_singleton]
    exact ⟨hword _ _, hcall call, htext _ _⟩

/-! ## Literals and the instruction part -/

theorem Literal.refines_parts (l : Literal) : List.Forall₂ Field.Refines l.fields l.parts :=
  .cons (Field.refines_text _ _) (.cons (Field.refines_text _ _) .nil)

theorem Literal.ofJson?_of_rendersAs (l : Literal) (j : Json) (h : l.RendersAs j) :
    ofJson? j = some l := by
  have hnames : (["type", "value"] : List String).Nodup := by decide
  exact ofJson?_eq_some_iff.mpr ((Json.gives_of_isRecord h hnames).of_refines l.refines_parts)

theorem literals?_of_isList {ls : List Literal} {j : Json} (h : IsList Literal.RendersAs ls j) :
    literals? j = some ls := Json.list?_of_isList Literal.ofJson?_of_rendersAs h

/-- The instruction part is read back. An offset is left out only where it is what the reader
takes it for. -/
theorem Invocation.refines_parts (call : Invocation) :
    List.Forall₂ Field.Refines call.fields call.parts :=
  .cons (Field.refines_text _ _)
    (.cons (Field.refines_readsOr (fun _ => Json.uint32?_of_isNat) id)
      (.cons (Field.refines_reads fun _ => literals?_of_isList) .nil))

/-! ## Commands -/

/-- **The tag of a command is found** wherever it stands, and the other fields are found
without it. -/
theorem Command.split?_of_isRecord {kind : String} {fields : List Field} {j : Json}
    (h : IsRecord (.text "type" kind :: fields) j)
    (hnames : ("type" :: fields.map Field.name).Nodup) :
    ∃ rest, split? j = some (kind, rest) ∧ rest.Gives fields := by
  rcases h with ⟨hmembers, hperm⟩ | hitems
  · -- in an object all fields are found by name, and the tag is one of them
    rename_i ordered members
    have hfound := fun f hf => Json.isFound_of_perm (f := f) hmembers hperm hnames hf
    obtain ⟨tag, hholds, hvalue⟩ := hfound _ List.mem_cons_self
    rcases tag with _ | tag
    · exact absurd hholds id
    · have htag : Json.valuesOf "type" members = [tag] := hvalue
      refine ⟨.object members, ?_,
        Json.gives_object_iff.mpr fun f hf => hfound f (List.mem_cons_of_mem _ hf)⟩
      simp [split?, htag, Json.string?_of_isText hholds]
  · -- an array has the tag in front, and the others are an array again
    rcases hitems with _ | ⟨htag, hitems⟩
    rename_i tag items
    refine ⟨.array items, ?_, Json.gives_array hitems⟩
    simp [split?, Json.string?_of_isText htag]

theorem Command.nodup_names (c : Command) : ("type" :: c.fields.map Field.name).Nodup := by
  cases c with
  | memory => exact (by decide : ["type", "line", "min", "max"].Nodup)
  | init => exact (by decide : ["type", "line", "offset", "bytes"].Nodup)
  | action => exact (by decide : ["type", "line", "op", "offset", "args"].Nodup)
  | assertReturn => exact (by decide : ["type", "line", "op", "offset", "args", "expected"].Nodup)
  | assertTrap => exact (by decide : ["type", "line", "op", "offset", "args", "text"].Nodup)

theorem Command.refines_parts (c : Command) : List.Forall₂ Field.Refines c.fields c.parts := by
  cases c with
  | memory line minimum maximum =>
    exact .cons (Field.refines_word _ _)
      (.cons (Field.refines_word _ _) (.cons (Field.refines_word _ _) .nil))
  | init line offset bytes =>
    have hbytes : ∀ v, IsList (fun b : UInt8 => IsNat b.toNat) bytes v →
        v.list? Json.byte? = some bytes :=
      fun _ => Json.list?_of_isList fun _ _ hbyte => Json.byte?_of_isNat hbyte
    exact .cons (Field.refines_word _ _)
      (.cons (Field.refines_word _ _) (.cons (Field.refines_reads hbytes) .nil))
  | action line call => exact .cons (Field.refines_word _ _) call.refines_parts
  | assertReturn line call expected =>
    exact .cons (Field.refines_word _ _) (List.rel_append call.refines_parts
      (.cons (Field.refines_reads fun _ => literals?_of_isList) .nil))
  | assertTrap line call text =>
    exact .cons (Field.refines_word _ _)
      (List.rel_append call.refines_parts (.cons (Field.refines_text _ _) .nil))

/-- **A command is read back**: its tag is found, and the others are the parts of its kind. -/
theorem Command.ofJson?_of_rendersAs (c : Command) (j : Json) (h : c.RendersAs j) :
    ofJson? j = some c := by
  obtain ⟨rest, hsplit, hgives⟩ := split?_of_isRecord h c.nodup_names
  exact ofJson?_eq_some_iff.mpr ⟨rest, hsplit, hgives.of_refines c.refines_parts⟩

/-! ## Scripts -/

theorem Literal.fitsIn_of_rendersAs (l : Literal) (j : Json) (h : l.RendersAs j) : FitsIn 1 j := by
  refine Json.fitsIn_of_isRecord h ?_
  simp [fields, Field.fitsIn_text]

theorem fitsIn_bytes (bytes : List UInt8) :
    (Field.required "bytes" (IsList (fun b => IsNat b.toNat) bytes)).FitsIn 2 := by
  intro v hv
  have hbyte : ∀ b ∈ bytes, ∀ u, IsNat b.toNat u → FitsIn 0 u := by
    intro b _ u hu
    have hlt := b.toNat_lt
    exact Json.fitsIn_of_isNat hu (by omega)
  exact (Json.fitsIn_of_isList hv hbyte).mono (by decide)

/-- **A command has three levels of brackets** at most. -/
theorem Command.fitsIn_of_rendersAs (c : Command) (j : Json) (h : c.RendersAs j) : FitsIn 3 j := by
  refine Json.fitsIn_of_isRecord h (c.forall_fields Field.fitsIn_word Field.fitsIn_text ?_
    fitsIn_bytes ?_)
  · exact Field.fitsIn_word "offset"
  · -- the literals of a list have one level each
    exact fun _ ls v hv => Json.fitsIn_of_isList hv fun l _ => l.fitsIn_of_rendersAs

/-- **A script is read back from its document.** -/
theorem Script.ofJson?_of_rendersAs {s : Script} {j : Json} (h : s.RendersAs j) :
    ofJson? j = some s := by
  have hnames : ["source_filename", "commands"].Nodup := by decide
  have hcommands : ∀ v, IsList Command.RendersAs s.commands v → commands? v = some s.commands := by
    intro v hv
    -- three levels for a command and one for the list
    have hkept : v.fits commandRoom = true :=
      Json.fitsIn_of_isList hv (fun c _ => c.fitsIn_of_rendersAs) commandRoom (by decide)
    rw [commands?, if_pos hkept]
    exact Json.list?_of_isList Command.ofJson?_of_rendersAs hv
  refine ofJson?_eq_some_iff.mpr ⟨Json.keysReadable_of_isRecord h,
    (Json.gives_of_isRecord h hnames).of_refines ?_⟩
  exact .cons (Field.refines_readsOr (fun _ => Json.string?_of_isText) id)
    (.cons (Field.refines_reads hcommands) .nil)

/-! ## Texts of scripts -/

theorem Literal.exists_rendering (l : Literal) : ∃ j, l.RendersAs j ∧ j.Writable := by
  refine Json.exists_record ?_
  simp [fields, Field.isWritable_text]

theorem Command.exists_rendering (c : Command) : ∃ j, c.RendersAs j ∧ j.Writable := by
  refine Json.exists_record (c.forall_fields Field.isWritable_word Field.isWritable_text ?_ ?_ ?_)
  · exact Field.isWritable_word "offset"
  · exact fun bytes => Field.isWritable_list "bytes" bytes fun b _ => Json.exists_nat b.toNat
  · exact fun name ls => Field.isWritable_list name ls fun l _ => l.exists_rendering

/-- **Every script has a text.** -/
theorem Script.exists_text (s : Script) : ∃ text, s.IsWrittenIn text := by
  have hcommands := Field.isWritable_list "commands" s.commands
    fun c _ => c.exists_rendering
  have hfields : ∀ f ∈ s.fields, f.IsWritable := by
    rw [fields, List.forall_mem_cons, List.forall_mem_singleton]
    exact ⟨Field.isWritable_text "source_filename" s.source, hcommands⟩
  obtain ⟨j, hj, hwritable⟩ := Json.exists_record hfields
  obtain ⟨text, htext⟩ := Json.exists_text hwritable
  exact ⟨text, j, hj, htext⟩

/-- **Every script has a text, and is read back from each of its texts.** -/
theorem Script.every_text_reads_back (s : Script) :
    (∃ text, s.IsWrittenIn text) ∧ ∀ text, s.IsWrittenIn text → parse? text = some s := by
  refine ⟨s.exists_text, fun text h => ?_⟩
  obtain ⟨j, hj, htext⟩ := h
  rw [parse?, Json.parse?_of_spells htext]
  exact ofJson?_of_rendersAs hj

/-- The tag and the line come last, an offset is left out, characters are escaped, and one
command is an array. -/
theorem Script.every_text_reads_back_tag_last :
    parse? "\x7b\"commands\": [[\"memory\", 1, 0, 2],
        \x7b\"args\": [\x7b\"value\": \"\\ud83d\\ude00\", \"type\": \"i32\"\x7d],
        \"op\": \"\\u006eop\", \"line\": 7, \"type\": \"action\"\x7d]\x7d"
      = some ⟨"", [.memory 1 0 2, .action 7 ⟨"nop", 0, [⟨"i32", "😀"⟩]⟩]⟩ := by
  have hmemory : (Command.memory 1 0 2).RendersAs (.array [.string (some "memory"),
      .number ⟨false, ['1'], none, none⟩, .number ⟨false, ['0'], none, none⟩,
      .number ⟨false, ['2'], none, none⟩]) :=
    .array (.cons rfl (.cons (Json.isNat_toString 1) (.cons (Json.isNat_toString 0)
      (.cons (Json.isNat_toString 2) .nil))))
  have hliteral : Literal.RendersAs ⟨"i32", "😀"⟩ (.object [(some "value", .string (some "😀")),
      (some "type", .string (some "i32"))]) :=
    .object (.written rfl (.written rfl .nil)) (List.reverse_perm _).symm
  have haction : (Command.action 7 ⟨"nop", 0, [⟨"i32", "😀"⟩]⟩).RendersAs (.object
      [(some "args", .array [.object [(some "value", .string (some "😀")),
        (some "type", .string (some "i32"))]]), (some "op", .string (some "nop")),
        (some "line", .number ⟨false, ['7'], none, none⟩),
        (some "type", .string (some "action"))]) :=
    .object (.written rfl (.written (Json.isNat_toString 7) (.written rfl (.omitted rfl
      (.written ⟨_, rfl, .cons hliteral .nil⟩ .nil))))) (List.reverse_perm _).symm
  have hscript : Script.RendersAs ⟨"", _⟩ _ :=
    .object (.omitted rfl (.written ⟨_, rfl, .cons hmemory (.cons haction .nil)⟩ .nil))
      (List.Perm.refl _)
  exact (every_text_reads_back _).2 _
    ⟨_, hscript, Json.row_of_tokens (by decide +kernel) (by decide)⟩

/-- **The offset of bytes may not be left out**, also if it is zero. If it could be, the text
would be one of the script with `init 1 0 []` as its only command; but it is no script. -/
theorem Script.init_offset_not_omitted :
    ∃ command : Json,
      IsRecord [.text "type" "init", .word "line" 1, ⟨"offset", IsNat 0, (0 : UInt32) = 0⟩,
          .required "bytes" (IsList (fun b : UInt8 => IsNat b.toNat) [])] command
        ∧ Json.Spells "\x7b\"commands\":[\x7b\"type\":\"init\",\"line\":1,\"bytes\":[]\x7d]\x7d"
          (.object [(some "commands", .array [command])])
        ∧ parse? "\x7b\"commands\":[\x7b\"type\":\"init\",\"line\":1,\"bytes\":[]\x7d]\x7d"
          = none := by
  refine ⟨.object [(some "type", .string (some "init")),
    (some "line", .number ⟨false, ['1'], none, none⟩), (some "bytes", .array [])], ?_, ?_, ?_⟩
  · exact .object (.written rfl (.written (Json.isNat_toString 1) (.omitted rfl
      (.written ⟨[], rfl, .nil⟩ .nil)))) (List.Perm.refl _)
  · exact Json.spells_iff.mpr ⟨rfl, by decide⟩
  · decide +kernel

end WasmExec
