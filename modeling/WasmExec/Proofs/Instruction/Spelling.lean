/-
Which instructions have a mnemonic, and that it is theirs alone.

Not every instruction that can be built can be written. An offset is no part of a
mnemonic, a sign is extended from a part of 8, 16 or 32 bits only, a load of a whole
type has one spelling although its sign could be either, and an access narrower than
its type exists for integers only. `isSpelled` collects these conditions, and they are
said of the parts of an instruction, without a list.

The list is the table. A case analysis on the instruction finds a row for every one that
is spelled, and a check of the rows finds every one spelled, so the table lists the
spelled instructions and no others (`mem_table_iff`).
-/
import WasmExec.Proofs.Instruction.Signature

set_option autoImplicit false

namespace WasmExec

/-! ## The instructions that can be written -/

/-- Whether an access reaches only a part of a type. Only integers have parts. -/
def ValType.isNarrowed (t : ValType) (width : AccessWidth) : Bool :=
  t.isInt && width.bytes < t.width.bytes

namespace Instruction

/-- **Whether an instruction has a mnemonic.** -/
def isSpelled : Instruction → Bool
  | .numeric (.convert (.extendInPlace w count)) =>
    (w, count) ∈ [(.w32, 8), (.w32, 16), (.w64, 8), (.w64, 16), (.w64, 32)]
  | .numeric _ => true
  -- the sign of a load of the whole type changes nothing, so only one of the two is written
  | .load l =>
    l.offset = 0 &&
      ((l.width = l.type.width.access && l.sign = .signed) || l.type.isNarrowed l.width)
  | .store s =>
    s.offset = 0 && (s.width = s.type.width.access || s.type.isNarrowed s.width)
  | .memorySize => true
  | .memoryGrow => true
  | .memoryFill => true
  | .memoryCopy => true

end Instruction

/-! ## Every one of them is in the table -/

theorem Width.mem_all (w : Width) : w ∈ Width.all := by cases w <;> decide

theorem Signedness.mem_all (sign : Signedness) : sign ∈ Signedness.all := by
  cases sign <;> decide

theorem ValType.mem_all (t : ValType) : t ∈ ValType.all := by
  rcases t with w | w <;> cases w <;> decide

theorem IntUnary.mem_all (op : IntUnary) : op ∈ IntUnary.all := by cases op <;> decide

theorem IntBinary.mem_all (op : IntBinary) : op ∈ IntBinary.all := by
  cases op with
  | div sign => cases sign <;> decide
  | rem sign => cases sign <;> decide
  | shr sign => cases sign <;> decide
  | _ => decide

theorem IntCompare.mem_all (op : IntCompare) : op ∈ IntCompare.all := by
  cases op with
  | eq => decide
  | ne => decide
  | _ sign => cases sign <;> decide

theorem FloatUnary.mem_all (op : FloatUnary) : op ∈ FloatUnary.all := by cases op <;> decide

theorem FloatBinary.mem_all (op : FloatBinary) : op ∈ FloatBinary.all := by cases op <;> decide

theorem FloatCompare.mem_all (op : FloatCompare) : op ∈ FloatCompare.all := by
  cases op <;> decide

theorem Conversion.mem_all {op : Conversion}
    (h : (Instruction.numeric (.convert op)).isSpelled = true) : op ∈ Conversion.all := by
  have hw := Width.mem_all
  have hs := Signedness.mem_all
  cases op with
  | extendInPlace w count =>
    simp only [Instruction.isSpelled, List.mem_cons, Prod.mk.injEq, List.not_mem_nil, or_false,
      decide_eq_true_eq] at h
    rcases h with ⟨rfl, rfl⟩ | ⟨rfl, rfl⟩ | ⟨rfl, rfl⟩ | ⟨rfl, rfl⟩ | ⟨rfl, rfl⟩ <;> decide
  | truncate source target sign saturating => cases saturating <;> simp [Conversion.all, hw, hs]
  | _ => simp [Conversion.all, hw, hs]

theorem NumOp.mem_all {op : NumOp} (h : (Instruction.numeric op).isSpelled = true) :
    op ∈ NumOp.all := by
  have hw := Width.mem_all
  cases op with
  | intUnary w op => simp [NumOp.all, hw, op.mem_all]
  | intEqz w => simp [NumOp.all, hw]
  | intBinary w op => simp [NumOp.all, hw, op.mem_all]
  | intCompare w op => simp [NumOp.all, hw, op.mem_all]
  | floatUnary w op => simp [NumOp.all, hw, op.mem_all]
  | floatBinary w op => simp [NumOp.all, hw, op.mem_all]
  | floatCompare w op => simp [NumOp.all, hw, op.mem_all]
  | convert op => simp [NumOp.all, Conversion.mem_all h]

/-- A narrow access is 8, 16 or 32 bits wide. -/
theorem mem_narrowAccesses {w : Width} {width : AccessWidth}
    (h : (ValType.int w).isNarrowed width = true) : width ∈ w.narrowAccesses := by
  cases w <;> cases width <;> revert h <;> decide

theorem Load.mem_all {l : Load} (h : (Instruction.load l).isSpelled = true) : l ∈ Load.all := by
  obtain ⟨t, width, sign, offset⟩ := l
  simp only [Instruction.isSpelled, Bool.and_eq_true, Bool.or_eq_true, decide_eq_true_eq] at h
  obtain ⟨rfl, ⟨rfl, rfl⟩ | hnarrow⟩ := h
  · exact List.mem_append_left _ (List.mem_map.mpr ⟨t, t.mem_all, rfl⟩)
  · cases t with
    | float w => cases hnarrow
    | int w =>
      have hwidth := mem_narrowAccesses hnarrow
      refine List.mem_append_right _ (List.mem_flatMap.mpr ⟨w, w.mem_all, ?_⟩)
      exact List.mem_flatMap.mpr ⟨width, hwidth, List.mem_map.mpr ⟨sign, sign.mem_all, rfl⟩⟩

theorem Store.mem_all {s : Store} (h : (Instruction.store s).isSpelled = true) :
    s ∈ Store.all := by
  obtain ⟨t, width, offset⟩ := s
  simp only [Instruction.isSpelled, Bool.and_eq_true, Bool.or_eq_true, decide_eq_true_eq] at h
  obtain ⟨rfl, rfl | hnarrow⟩ := h
  · exact List.mem_append_left _ (List.mem_map.mpr ⟨t, t.mem_all, rfl⟩)
  · cases t with
    | float w => cases hnarrow
    | int w =>
      have hwidth := mem_narrowAccesses hnarrow
      refine List.mem_append_right _ (List.mem_flatMap.mpr ⟨w, w.mem_all, ?_⟩)
      exact List.mem_map.mpr ⟨width, hwidth, rfl⟩

namespace Instruction

/-! ## The rows of the table -/

/-- A row of the table belongs to one of the four families. -/
theorem mem_table_cases (s : String) (i : Instruction) :
    (s, i) ∈ table ↔ (s, i) ∈ memoryTable ∨ (∃ l, (s, l) ∈ Load.table ∧ i = .load l)
      ∨ (∃ st, (s, st) ∈ Store.table ∧ i = .store st)
      ∨ ∃ op, (s, op) ∈ NumOp.table ∧ i = .numeric op := by
  simp only [table, List.mem_append, List.mem_map, Prod.mk.injEq, Prod.exists]
  grind

/-- Each row has a spelled instruction under its mnemonic. -/
theorem isSpelled_of_mem_table : ∀ entry ∈ table,
    entry.2.isSpelled = true ∧ entry.1 = entry.2.mnemonic := by
  decide +kernel

/-- **The table has exactly the spelled instructions**, each under its mnemonic. -/
theorem mem_table_iff (s : String) (i : Instruction) :
    (s, i) ∈ table ↔ i.isSpelled = true ∧ s = i.mnemonic := by
  refine ⟨isSpelled_of_mem_table (s, i), ?_⟩
  rintro ⟨h, rfl⟩
  rw [mem_table_cases]
  cases i with
  | numeric op => exact .inr (.inr (.inr ⟨op, List.mem_map.mpr ⟨op, op.mem_all h, rfl⟩, rfl⟩))
  | load l => exact .inr (.inl ⟨l, List.mem_map.mpr ⟨l, l.mem_all h, rfl⟩, rfl⟩)
  | store s => exact .inr (.inr (.inl ⟨s, List.mem_map.mpr ⟨s, s.mem_all h, rfl⟩, rfl⟩))
  | memorySize => exact .inl (by decide)
  | memoryGrow => exact .inl (by decide)
  | memoryFill => exact .inl (by decide)
  | memoryCopy => exact .inl (by decide)

end Instruction

end WasmExec
