/-
The reader of mnemonics and the table of mnemonics are the same function.

The printer stands between the two. Each step of the reader accepts a text only if the
text is what the printer prints for the instruction that is read; the lemmas follow the
reader step by step, and each puts back together what its step has cut. The other way
round each mnemonic of the table is read back, which is checked row by row. So no text
is the mnemonic of two instructions, and a look-up finds what the reader finds.

What cannot be written cannot be applied either: the only numeric instructions without a
mnemonic are those that answer every operand with an unknown operator.
-/
import WasmExec.Proofs.Instruction.Reader
import WasmExec.Proofs.Instruction.Spelling
import WasmExec.Proofs.Instruction.TypeSoundness

set_option autoImplicit false

namespace WasmExec

open CommandLine (splitFirst)

/-! ## What is read is spelled as it was read -/

theorem eq_of_onlyAt {width w : Width} {op op' : NumOp} (h : onlyAt width w op = some op') :
    w = width ∧ op' = op := by
  unfold onlyAt at h
  by_cases hw : w = width
  · rw [if_pos hw] at h
    exact ⟨hw, (Option.some.inj h).symm⟩
  · rw [if_neg hw] at h
    cases h

theorem mnemonic_of_intOperation {w : Width} {name : String} {op : NumOp}
    (h : intOperation? w name = some op) :
    (Instruction.numeric op).isSpelled = true
      ∧ op.mnemonic = (ValType.int w).name ++ "." ++ name := by
  unfold intOperation? at h
  split at h
  -- the names that one width has
  case h_31 | h_32 | h_33 | h_36 | h_37 | h_38 =>
    obtain ⟨rfl, rfl⟩ := eq_of_onlyAt h
    exact ⟨rfl, rfl⟩
  -- a zero test, and the two extensions that both widths have
  case h_4 | h_34 | h_35 =>
    cases h
    cases w <;> exact ⟨rfl, rfl⟩
  case h_39 => cases h
  all_goals
    cases h
    exact ⟨rfl, rfl⟩

theorem mnemonic_of_readTruncation {w : Width} {saturating : Bool} {rest : List Char}
    {op : NumOp} (h : readTruncation w saturating rest = some op) :
    (Instruction.numeric op).isSpelled = true
      ∧ op.mnemonic = (ValType.int w).name ++ "."
          ++ ((if saturating then "trunc_sat_" else "trunc_") ++ String.ofList rest) := by
  obtain ⟨source, hsource, rfl⟩ := Option.map_eq_some_iff.mp h
  refine ⟨rfl, ?_⟩
  unfold truncationSource? at hsource
  split at hsource
  case h_5 => cases hsource
  case h_1 hrest | h_2 hrest | h_3 hrest | h_4 hrest =>
    cases hsource
    rw [hrest]
    cases w <;> cases saturating <;> rfl

theorem mnemonic_of_readIntName {w : Width} {name : List Char} {op : NumOp}
    (h : readIntName w name = some op) :
    (Instruction.numeric op).isSpelled = true
      ∧ op.mnemonic = (ValType.int w).name ++ "." ++ String.ofList name := by
  unfold readIntName at h
  split at h
  · next rest hrest =>
    have hop := mnemonic_of_readTruncation h
    rwa [ofList_of_textAfter hrest]
  · split at h
    · next rest hrest =>
      have hop := mnemonic_of_readTruncation h
      rwa [ofList_of_textAfter hrest]
    · exact mnemonic_of_intOperation h

theorem mnemonic_of_floatOperation {w : Width} {name : String} {op : NumOp}
    (h : floatOperation? w name = some op) :
    (Instruction.numeric op).isSpelled = true
      ∧ op.mnemonic = (ValType.float w).name ++ "." ++ name := by
  unfold floatOperation? at h
  split at h
  case h_25 | h_26 | h_27 | h_28 =>
    obtain ⟨rfl, rfl⟩ := eq_of_onlyAt h
    exact ⟨rfl, rfl⟩
  case h_29 => cases h
  all_goals
    cases h
    exact ⟨rfl, rfl⟩

/-- A numeric instruction is read from no text but its mnemonic. -/
theorem NumOp.mnemonic_of_read {cs : List Char} {op : NumOp} (h : NumOp.read? cs = some op) :
    (Instruction.numeric op).isSpelled = true ∧ String.ofList cs = op.mnemonic := by
  obtain ⟨⟨scope, name⟩, hcut, hname⟩ := Option.bind_eq_some_iff.mp h
  have hs := ofList_of_splitFirst hcut
  have hop : (Instruction.numeric op).isSpelled = true
      ∧ op.mnemonic = String.ofList scope ++ "." ++ String.ofList name := by
    change readNumericName scope name = some op at hname
    unfold readNumericName at hname
    split at hname
    case h_1 hscope | h_2 hscope => rw [hscope]; exact mnemonic_of_readIntName hname
    case h_3 hscope | h_4 hscope => rw [hscope]; exact mnemonic_of_floatOperation hname
    case h_5 => cases hname
  exact ⟨hop.1, hs.trans hop.2.symm⟩

theorem ofList_of_scopeType {scope : List Char} {t : ValType} (h : scopeType? scope = some t) :
    String.ofList scope = t.name := by
  unfold scopeType? ValType.parse at h
  split at h
  · next t' hfind =>
    cases h
    have hname := List.find?_some hfind
    rw [decide_eq_true_eq] at hname
    exact hname.symm
  · cases h

/-- A width that is read is narrower than the type, and its digits are its number of
bits. -/
theorem ofList_of_accessWithin {t : ValType} {bits : List Char} {width : AccessWidth}
    (h : accessWithin? t bits = some width) :
    t.isNarrowed width = true ∧ String.ofList bits = toString width.bits := by
  obtain ⟨hwidth, hnarrow⟩ := Option.filter_eq_some_iff.mp h
  refine ⟨hnarrow, ?_⟩
  unfold narrowWidth? at hwidth
  split at hwidth
  case h_1 hbits | h_2 hbits | h_3 hbits =>
    cases hwidth
    rw [hbits]
    rfl
  case h_4 => cases hwidth

theorem letter_of_signedness {letter : String} {sign : Signedness}
    (h : signedness? letter = some sign) : letter = sign.letter := by
  unfold signedness? at h
  split at h
  case h_3 => cases h
  all_goals
    cases h
    rfl

/-- An access narrower than its type does not have the width of the type. -/
theorem ne_access_of_isNarrowed {t : ValType} {width : AccessWidth}
    (h : t.isNarrowed width = true) : width ≠ t.width.access := by
  rintro rfl
  rcases t with w | w <;> cases w <;> cases h

theorem Load.mnemonic_of_readLoadName {t : ValType} {rest : List Char} {l : Load}
    (h : readLoadName t rest = some l) :
    (Instruction.load l).isSpelled = true
      ∧ l.mnemonic = t.name ++ ".load" ++ String.ofList rest := by
  unfold readLoadName at h
  by_cases hrest : rest = []
  · rw [if_pos hrest] at h
    cases h
    refine ⟨by simp [Instruction.isSpelled], ?_⟩
    rw [mnemonic, if_pos rfl, hrest, String.ofList_nil]
  · rw [if_neg hrest] at h
    obtain ⟨⟨bits, letter⟩, hcut, h⟩ := Option.bind_eq_some_iff.mp h
    obtain ⟨sign, hsign, h⟩ := Option.bind_eq_some_iff.mp h
    obtain ⟨width, hwidth, h⟩ := Option.bind_eq_some_iff.mp h
    cases h
    obtain ⟨hnarrow, hbits⟩ := ofList_of_accessWithin hwidth
    have hletter := letter_of_signedness hsign
    refine ⟨by simp [Instruction.isSpelled, hnarrow], ?_⟩
    rw [mnemonic, if_neg (ne_access_of_isNarrowed hnarrow), ofList_of_splitFirst hcut, hbits,
      hletter]
    rfl

theorem Store.mnemonic_of_readStoreName {t : ValType} {rest : List Char} {s : Store}
    (h : readStoreName t rest = some s) :
    (Instruction.store s).isSpelled = true
      ∧ s.mnemonic = t.name ++ ".store" ++ String.ofList rest := by
  unfold readStoreName at h
  by_cases hrest : rest = []
  · rw [if_pos hrest] at h
    cases h
    refine ⟨by simp [Instruction.isSpelled], ?_⟩
    rw [mnemonic, if_pos rfl, hrest, String.ofList_nil]
  · rw [if_neg hrest] at h
    obtain ⟨width, hwidth, rfl⟩ := Option.map_eq_some_iff.mp h
    obtain ⟨hnarrow, hbits⟩ := ofList_of_accessWithin hwidth
    refine ⟨by simp [Instruction.isSpelled, hnarrow], ?_⟩
    rw [mnemonic, if_neg (ne_access_of_isNarrowed hnarrow), hbits]

/-- A type, a dot, a first word and a rest, put together again. -/
theorem ofList_of_access {cs scope name rest : List Char} {word : String} {t : ValType}
    (hcut : splitFirst '.' cs = some (scope, name)) (hscope : scopeType? scope = some t)
    (hname : textAfter word name = some rest) :
    String.ofList cs = t.name ++ ("." ++ word) ++ String.ofList rest := by
  have hdot : String.singleton '.' = "." := rfl
  rw [ofList_of_splitFirst hcut, ofList_of_textAfter hname, ofList_of_scopeType hscope, hdot,
    ← String.append_assoc, ← String.append_assoc]

/-- A load is read from no text but its mnemonic. -/
theorem Load.mnemonic_of_read {cs : List Char} {l : Load} (h : Load.read? cs = some l) :
    (Instruction.load l).isSpelled = true ∧ String.ofList cs = l.mnemonic := by
  obtain ⟨⟨scope, name⟩, hcut, h⟩ := Option.bind_eq_some_iff.mp h
  obtain ⟨t, hscope, h⟩ := Option.bind_eq_some_iff.mp h
  obtain ⟨rest, hname, hrest⟩ := Option.bind_eq_some_iff.mp h
  have hl := mnemonic_of_readLoadName hrest
  exact ⟨hl.1, (ofList_of_access hcut hscope hname).trans hl.2.symm⟩

/-- A store is read from no text but its mnemonic. -/
theorem Store.mnemonic_of_read {cs : List Char} {s : Store} (h : Store.read? cs = some s) :
    (Instruction.store s).isSpelled = true ∧ String.ofList cs = s.mnemonic := by
  obtain ⟨⟨scope, name⟩, hcut, h⟩ := Option.bind_eq_some_iff.mp h
  obtain ⟨t, hscope, h⟩ := Option.bind_eq_some_iff.mp h
  obtain ⟨rest, hname, hrest⟩ := Option.bind_eq_some_iff.mp h
  have hst := mnemonic_of_readStoreName hrest
  exact ⟨hst.1, (ofList_of_access hcut hscope hname).trans hst.2.symm⟩

namespace Instruction

theorem mnemonic_of_readFamily {cs : List Char} {i : Instruction}
    (h : readFamily? cs = some i) : i.isSpelled = true ∧ String.ofList cs = i.mnemonic := by
  have hload : (Load.read? cs).map .load = some i →
      i.isSpelled = true ∧ String.ofList cs = i.mnemonic := by
    intro hi
    obtain ⟨l, hl, rfl⟩ := Option.map_eq_some_iff.mp hi
    exact Load.mnemonic_of_read hl
  have hstore : (Store.read? cs).map .store = some i →
      i.isSpelled = true ∧ String.ofList cs = i.mnemonic := by
    intro hi
    obtain ⟨s, hs, rfl⟩ := Option.map_eq_some_iff.mp hi
    exact Store.mnemonic_of_read hs
  have hnumeric : (NumOp.read? cs).map .numeric = some i →
      i.isSpelled = true ∧ String.ofList cs = i.mnemonic := by
    intro hi
    obtain ⟨op, hop, rfl⟩ := Option.map_eq_some_iff.mp hi
    exact NumOp.mnemonic_of_read hop
  unfold readFamily? at h
  split at h
  · split at h
    · exact hload h
    · split at h
      · exact hstore h
      · exact hnumeric h
  · exact hnumeric h

/-- **An instruction is read from no text but its mnemonic.** -/
theorem mnemonic_of_read {s : String} {i : Instruction} (h : read? s = some i) :
    i.isSpelled = true ∧ s = i.mnemonic := by
  unfold read? at h
  split at h
  case h_5 =>
    have hi := mnemonic_of_readFamily h
    rwa [String.ofList_toList] at hi
  all_goals
    cases h
    exact ⟨rfl, rfl⟩

/-! ## And from its mnemonic it is read -/

/-- Each row of the table is read back. -/
theorem read_of_mem_table : ∀ entry ∈ table, read? entry.1 = some entry.2 := by
  decide +kernel

/-- **Reading by parts finds exactly the spelled instructions**, each under its
mnemonic. -/
theorem read_eq_some_iff (s : String) (i : Instruction) :
    read? s = some i ↔ i.isSpelled = true ∧ s = i.mnemonic := by
  refine ⟨mnemonic_of_read, ?_⟩
  intro h
  exact read_of_mem_table (s, i) ((mem_table_iff s i).mpr h)

/-! ## The table is looked up by mnemonics -/

/-- No text begins two rows of the table. -/
theorem eq_of_mem_table {s : String} {i i' : Instruction} (h : (s, i) ∈ table)
    (h' : (s, i') ∈ table) : i = i' := by
  have hi := read_of_mem_table (s, i) h
  have hi' := read_of_mem_table (s, i') h'
  exact Option.some.inj (hi.symm.trans hi')

/-- A look-up in a table in which no text begins two rows finds exactly its rows. -/
theorem lookup_eq_some_iff {α : Type} {table : List (String × α)} {s : String}
    (htable : ∀ a b, (s, a) ∈ table → (s, b) ∈ table → a = b) (a : α) :
    (table.find? fun entry => entry.1 = s).map (·.2) = some a ↔ (s, a) ∈ table := by
  refine ⟨mem_of_lookup, ?_⟩
  intro hmem
  cases hfind : (table.find? fun entry => entry.1 = s).map (·.2) with
  | none =>
    have hno := List.find?_eq_none.mp (Option.map_eq_none_iff.mp hfind) (s, a) hmem
    exact absurd (decide_eq_true rfl) hno
  | some b => rw [htable b a (mem_of_lookup hfind) hmem]

/-- Looking a text up in the families one after another is a look-up in the whole
table. -/
theorem parse?_eq_lookup (s : String) :
    parse? s = (table.find? fun entry => entry.1 = s).map (·.2) := by
  simp only [parse?, Load.parse?, Store.parse?, NumOp.parse?, table, List.find?_append,
    List.find?_map, Option.orElse_eq_orElse, Option.orElse_eq_or, Option.map_or, Option.map_map,
    Option.or_assoc]
  rfl

/-- **The two readers are one.** -/
theorem read_eq_parse (s : String) : read? s = parse? s := by
  apply Option.ext
  intro i
  rw [read_eq_some_iff, ← mem_table_iff, parse?_eq_lookup,
    lookup_eq_some_iff fun _ _ => eq_of_mem_table]

end Instruction

/-! ## One family at a time -/

namespace Instruction

/-- What is read as a load, a store or a numeric instruction was read by the reader of
that family. -/
theorem family_of_read {s : String} {i : Instruction} (h : read? s = some i) :
    match i with
    | .load l => Load.read? s.toList = some l
    | .store st => Store.read? s.toList = some st
    | .numeric op => NumOp.read? s.toList = some op
    | _ => True := by
  unfold read? at h
  split at h
  case h_5 =>
    have hfamily : (∃ l, Load.read? s.toList = some l ∧ Instruction.load l = i)
        ∨ (∃ st, Store.read? s.toList = some st ∧ Instruction.store st = i)
        ∨ ∃ op, NumOp.read? s.toList = some op ∧ Instruction.numeric op = i := by
      unfold readFamily? at h
      split at h
      · split at h
        · exact .inl (Option.map_eq_some_iff.mp h)
        · split at h
          · exact .inr (.inl (Option.map_eq_some_iff.mp h))
          · exact .inr (.inr (Option.map_eq_some_iff.mp h))
      · exact .inr (.inr (Option.map_eq_some_iff.mp h))
    rcases hfamily with ⟨l, hl, rfl⟩ | ⟨st, hst, rfl⟩ | ⟨op, hop, rfl⟩
    · exact hl
    · exact hst
    · exact hop
  all_goals
    cases h
    trivial

end Instruction

theorem Load.read_iff (s : String) (l : Load) :
    Load.read? s.toList = some l ↔ Instruction.read? s = some (.load l) := by
  refine ⟨?_, Instruction.family_of_read⟩
  intro h
  have hl := Load.mnemonic_of_read h
  rw [String.ofList_toList] at hl
  exact (Instruction.read_eq_some_iff s (.load l)).mpr hl

theorem Store.read_iff (s : String) (st : Store) :
    Store.read? s.toList = some st ↔ Instruction.read? s = some (.store st) := by
  refine ⟨?_, Instruction.family_of_read⟩
  intro h
  have hst := Store.mnemonic_of_read h
  rw [String.ofList_toList] at hst
  exact (Instruction.read_eq_some_iff s (.store st)).mpr hst

theorem NumOp.read_iff (s : String) (op : NumOp) :
    NumOp.read? s.toList = some op ↔ Instruction.read? s = some (.numeric op) := by
  refine ⟨?_, Instruction.family_of_read⟩
  intro h
  have hop := NumOp.mnemonic_of_read h
  rw [String.ofList_toList] at hop
  exact (Instruction.read_eq_some_iff s (.numeric op)).mpr hop

namespace Instruction

/-- A look-up in the table of one family finds what the reader finds, if the rows of the
family are rows of the whole table. -/
theorem lookup_family_iff {α : Type} {make : α → Instruction} {family : List (String × α)}
    {s : String} (hmake : ∀ a b, make a = make b → a = b)
    (hfamily : ∀ a, (s, a) ∈ family ↔ (s, make a) ∈ table) (a : α) :
    (family.find? fun entry => entry.1 = s).map (·.2) = some a ↔ read? s = some (make a) := by
  have hunique : ∀ a b, (s, a) ∈ family → (s, b) ∈ family → a = b := by
    intro a b ha hb
    rw [hfamily] at ha hb
    exact hmake a b (eq_of_mem_table ha hb)
  rw [lookup_eq_some_iff hunique, hfamily, mem_table_iff, read_eq_some_iff]

end Instruction

theorem Load.parse?_iff (s : String) (l : Load) :
    Load.parse? s = some l ↔ Instruction.read? s = some (.load l) := by
  refine Instruction.lookup_family_iff (fun _ _ => Instruction.load.inj) ?_ l
  simp [Instruction.mem_table_cases, Instruction.memoryTable]

theorem Store.parse?_iff (s : String) (st : Store) :
    Store.parse? s = some st ↔ Instruction.read? s = some (.store st) := by
  refine Instruction.lookup_family_iff (fun _ _ => Instruction.store.inj) ?_ st
  simp [Instruction.mem_table_cases, Instruction.memoryTable]

theorem NumOp.parse?_iff (s : String) (op : NumOp) :
    NumOp.parse? s = some op ↔ Instruction.read? s = some (.numeric op) := by
  refine Instruction.lookup_family_iff (fun _ _ => Instruction.numeric.inj) ?_ op
  simp [Instruction.mem_table_cases, Instruction.memoryTable]

/-- A reader of a family and the look-up in its table find the same. -/
theorem Load.read_eq_parse (s : String) : Load.read? s.toList = Load.parse? s := by
  apply Option.ext
  intro l
  rw [Load.read_iff, Load.parse?_iff]

theorem Store.read_eq_parse (s : String) : Store.read? s.toList = Store.parse? s := by
  apply Option.ext
  intro st
  rw [Store.read_iff, Store.parse?_iff]

theorem NumOp.read_eq_parse (s : String) : NumOp.read? s.toList = NumOp.parse? s := by
  apply Option.ext
  intro op
  rw [NumOp.read_iff, NumOp.parse?_iff]

/-! ## What cannot be written cannot be applied -/

theorem Conversion.isExtension_iff (w : Width) (count : Nat) :
    isExtension w count = true
      ↔ (Instruction.numeric (.convert (.extendInPlace w count))).isSpelled = true := by
  cases w <;> simp [isExtension, Instruction.isSpelled, or_assoc]

theorem NumOp.isSupported_of_isSpelled {op : NumOp}
    (h : (Instruction.numeric op).isSpelled = true) :
    (Instruction.numeric op).isSupported = true := by
  cases op with
  | convert op =>
    cases op with
    | extendInPlace w count => exact (Conversion.isExtension_iff w count).mpr h
    | _ => rfl
  | _ => rfl

/-- **A numeric instruction has a mnemonic** exactly if it never answers that there is no
such operator. -/
theorem NumOp.isSpelled_iff (op : NumOp) :
    (Instruction.numeric op).isSpelled = true
      ↔ ∀ args, op.apply args ≠ .error (.validation .unknownOperator) := by
  constructor
  · intro h args hunknown
    by_cases hlen : args.length = op.arity
    · rcases NumOp.apply_typed (isSupported_of_isSpelled h) hlen with
        ⟨-, ⟨v, hv, -⟩ | ⟨reason, hv⟩⟩ | ⟨-, hv⟩
      -- a value, a trap and a mismatch of types are all something else
      · rw [hv] at hunknown
        cases hunknown
      · rw [hv] at hunknown
        cases hunknown
      · rw [hv] at hunknown
        cases hunknown
    · rw [NumOp.apply_argumentCount hlen] at hunknown
      cases hunknown
  · intro h
    cases op with
    | convert op =>
      cases op with
      | extendInPlace w count =>
        rw [← Conversion.isExtension_iff]
        by_contra hno
        apply h [.int w 0]
        rw [apply, Conversion.apply, if_neg hno]
      | _ => rfl
    | _ => rfl

/-! ## One spelling for each instruction -/

/-- An answer that is what a look-up found, or else a fault. -/
theorem ok_iff_of_lookup {α : Type} {found : Option α} {answer : Except Fault α} {fault : Fault}
    (hsome : ∀ a, found = some a → answer = .ok a) (hnone : found = none → answer = .error fault)
    (a : α) : answer = .ok a ↔ found = some a := by
  cases found with
  | none => simp [hnone rfl]
  | some b => simp [hsome b rfl]

namespace Instruction

/-- **One spelling for each instruction.** A text is read as an instruction exactly if
the instruction is spelled and the text is its mnemonic, and any other text is an unknown
operator. A numeric instruction is spelled exactly if it can be applied. Reading a text by
its parts gives the same, for all instructions and in each family, and a text is read by
at most one family, the one that it is handed to. -/
theorem spelling_exact :
    (∀ s i, parse s = .ok i ↔ i.isSpelled = true ∧ s = i.mnemonic)
      ∧ (∀ s, (∃ i, parse s = .ok i) ∨ parse s = .error (.validation .unknownOperator))
      ∧ (∀ op, (numeric op).isSpelled = true
        ↔ ∀ args, op.apply args ≠ .error (.validation .unknownOperator))
      ∧ (∀ s, read? s = parse? s ∧ Load.read? s.toList = Load.parse? s
        ∧ Store.read? s.toList = Store.parse? s ∧ NumOp.read? s.toList = NumOp.parse? s)
      ∧ (∀ s, (∀ l, Load.parse s = .ok l ↔ parse s = .ok (.load l))
        ∧ (∀ st, Store.parse s = .ok st ↔ parse s = .ok (.store st))
        ∧ ∀ op, NumOp.parse s = .ok op ↔ parse s = .ok (.numeric op))
      ∧ ∀ s l st op, ¬ (Load.parse s = .ok l ∧ Store.parse s = .ok st)
        ∧ ¬ (Load.parse s = .ok l ∧ NumOp.parse s = .ok op)
        ∧ ¬ (Store.parse s = .ok st ∧ NumOp.parse s = .ok op) := by
  have hparse : ∀ s i, parse s = .ok i ↔ read? s = some i := by
    intro s i
    rw [read_eq_parse]
    exact ok_iff_of_lookup (fun a h => by rw [parse, h]) (fun h => by rw [parse, h]) i
  have hload : ∀ s l, Load.parse s = .ok l ↔ parse s = .ok (.load l) := by
    intro s l
    rw [hparse, ← Load.parse?_iff]
    exact ok_iff_of_lookup (fun a h => by rw [Load.parse, h]) (fun h => by rw [Load.parse, h]) l
  have hstore : ∀ s st, Store.parse s = .ok st ↔ parse s = .ok (.store st) := by
    intro s st
    rw [hparse, ← Store.parse?_iff]
    exact ok_iff_of_lookup (fun a h => by rw [Store.parse, h]) (fun h => by rw [Store.parse, h]) st
  have hnumeric : ∀ s op, NumOp.parse s = .ok op ↔ parse s = .ok (.numeric op) := by
    intro s op
    rw [hparse, ← NumOp.parse?_iff]
    exact ok_iff_of_lookup (fun a h => by rw [NumOp.parse, h]) (fun h => by rw [NumOp.parse, h]) op
  refine ⟨?_, ?_, NumOp.isSpelled_iff, ?_, ?_, ?_⟩
  · intro s i
    rw [hparse, read_eq_some_iff]
  · intro s
    rw [parse]
    cases parse? s with
    | none => exact .inr rfl
    | some i => exact .inl ⟨i, rfl⟩
  · intro s
    exact ⟨read_eq_parse s, Load.read_eq_parse s, Store.read_eq_parse s, NumOp.read_eq_parse s⟩
  · intro s
    exact ⟨hload s, hstore s, hnumeric s⟩
  -- one text handed to two families would be read as two instructions
  · intro s l st op
    rw [hload, hstore, hnumeric]
    refine ⟨?_, ?_, ?_⟩ <;>
    · rintro ⟨h, h'⟩
      rw [h] at h'
      cases h'

end Instruction

end WasmExec
