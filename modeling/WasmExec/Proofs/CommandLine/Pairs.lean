/-
Pairs of digits, and pairs of bytes.

The digits of a segment are read in pairs, and what a pair is depends on who looks. To the author of
the text it is two characters. To the reader it is two encoded bytes, which it takes for a number
to the base sixteen, and a number may have a plus sign in front. So a row of pairs can be more
than was meant: a plus sign passes where a first digit would be zero (`AcceptsBytes`), and this
is all that passes (`readPairs_eq_ok_iff`). And it can be less than a text: where two bytes end
inside a character there is no pair to be had (`readPairs_eq_split_iff`).

The second part walks over the text by bytes. A slice is taken at every second byte until one is no
number, and the walk is in step with the reader of characters as long as each pair is two ASCII
characters. The first pair that is not ends both, whatever stands behind it (`readPairsFrom_eq`).
-/
import WasmExec.Proofs.CommandLine.Segment
import WasmExec.Proofs.Machine.Text

set_option autoImplicit false

namespace WasmExec

namespace CommandLine

open Text (hexValue?)

/-! ## Pairs of digits -/

/-- A pair of digits is read as its byte, and as nothing else. -/
theorem readByte_eq_some_iff_hexValue {a : Char} (ha : a ≠ '+') (b : Char) (byte : UInt8) :
    readByte? a b = some byte
      ↔ hexValue? a = some (byte.toNat / 16) ∧ hexValue? b = some (byte.toNat % 16) := by
  unfold readByte? readByte?.hexPart
  rw [if_neg ha]
  constructor
  · intro h
    split at h
    · next high low hhigh hlow =>
      have hhigh' := Text.hexValue_lt hhigh
      have hlow' := Text.hexValue_lt hlow
      have hsum : byte.toNat = 16 * high + low := by
        rw [← Option.some.inj h, UInt8.toNat_ofNat', Nat.mod_eq_of_lt (by omega)]
      rw [hhigh, hlow, hsum]
      exact ⟨congrArg some (by omega), congrArg some (by omega)⟩
    · cases h
  · rintro ⟨hhigh, hlow⟩
    rw [hhigh, hlow]
    simp only [Nat.div_add_mod, UInt8.ofNat_toNat]

/-- Two characters write a byte if they have the values of its digits. -/
theorem map_toLower_eq_writeByte_iff (a b : Char) (byte : UInt8) :
    [a, b].map Char.toLower = writeByte byte
      ↔ hexValue? a = some (byte.toNat / 16) ∧ hexValue? b = some (byte.toNat % 16) := by
  have hbyte := byte.toNat_lt
  have hhigh : byte.toNat / 16 < 16 := by omega
  have hlow : byte.toNat % 16 < 16 := by omega
  rw [Text.hexValue_eq_some_iff, Text.hexValue_eq_some_iff, and_iff_right hhigh,
    and_iff_right hlow, writeByte, List.map_cons, List.map_cons, List.map_nil, List.cons.injEq,
    List.cons.injEq, and_iff_left rfl]

/-! ## What is accepted -/

/-- **What is read as one byte**: two digits, in either case, or a plus sign where the first digit
would be zero. -/
def AcceptsPair (a b : Char) (byte : UInt8) : Prop :=
  [a, b].map Char.toLower = writeByte byte
    ∨ (a = '+' ∧ ['0', b].map Char.toLower = writeByte byte)

theorem readByte_eq_some_iff (a b : Char) (byte : UInt8) :
    readByte? a b = some byte ↔ AcceptsPair a b byte := by
  rw [AcceptsPair, map_toLower_eq_writeByte_iff, map_toLower_eq_writeByte_iff]
  by_cases ha : a = '+'
  · -- a plus sign has no value, and counts as a zero
    subst ha
    have hnone : hexValue? '+' = none := by decide
    have hzero : readByte? '+' b = readByte? '0' b := rfl
    rw [hzero, readByte_eq_some_iff_hexValue (by decide), hnone]
    simp
  · rw [readByte_eq_some_iff_hexValue ha]
    simp [ha]

/-- **What is read as bytes**, pair by pair. -/
inductive AcceptsBytes : List Char → List UInt8 → Prop where
  | nil : AcceptsBytes [] []
  | cons {a b : Char} {byte : UInt8} {cs : List Char} {bytes : List UInt8} :
    AcceptsPair a b byte → AcceptsBytes cs bytes → AcceptsBytes (a :: b :: cs) (byte :: bytes)

/-- **Without a plus sign, only digits are accepted**, two for each byte. -/
theorem AcceptsBytes.map_toLower {cs : List Char} {bytes : List UInt8} (h : AcceptsBytes cs bytes)
    (hplus : '+' ∉ cs) : cs.map Char.toLower = bytes.flatMap writeByte := by
  induction h with
  | nil => rfl
  | @cons a b byte cs bytes hpair _ ih =>
    simp only [List.mem_cons, not_or] at hplus
    obtain hdigits | ⟨ha, -⟩ := hpair
    · rw [List.flatMap_cons, ← ih hplus.2.2, ← hdigits]
      rfl
    · exact absurd ha.symm hplus.1

/-- A byte that is read fills a pair of ASCII characters. -/
theorem utf8Size_of_readByte {a b : Char} {byte : UInt8} (h : readByte? a b = some byte) :
    a.utf8Size = 1 ∧ b.utf8Size = 1 := by
  unfold readByte? readByte?.hexPart at h
  split at h
  · next high low hhigh hlow =>
    refine ⟨?_, Text.utf8Size_of_hexValue hlow⟩
    split at hhigh
    · next hplus => exact hplus ▸ rfl
    · exact Text.utf8Size_of_hexValue hhigh
  · cases h

theorem readPairs_cons {a b : Char} {byte : UInt8} (h : readByte? a b = some byte)
    (cs : List Char) : readPairs (a :: b :: cs) = (readPairs cs).map (byte :: ·) := by
  obtain ⟨ha, hb⟩ := utf8Size_of_readByte h
  rw [readPairs, if_pos ha, if_pos hb, h]

/-- **The reader accepts what is accepted**, and nothing else. -/
theorem readPairs_eq_ok_iff (cs : List Char) (bytes : List UInt8) :
    readPairs cs = .ok bytes ↔ AcceptsBytes cs bytes := by
  constructor
  · intro h
    fun_induction readPairs cs generalizing bytes with
    | case1 =>
      obtain rfl := Except.ok.inj h
      exact .nil
    | case3 a b cs ha hb byte hbyte ih =>
      cases hcs : readPairs cs with
      | error error =>
        rw [hcs] at h
        cases h
      | ok rest =>
        rw [hcs] at h
        obtain rfl := Except.ok.inj h
        exact .cons ((readByte_eq_some_iff a b byte).mp hbyte) (ih rest hcs)
    | _ => cases h
  · intro h
    induction h with
    | nil => rfl
    | cons hpair _ ih =>
      rw [readPairs_cons ((readByte_eq_some_iff _ _ _).mpr hpair), ih]
      rfl

/-- Bytes are written with digits only. -/
theorem hexValue_of_mem_map {cs : List Char} {bytes : List UInt8}
    (h : cs.map Char.toLower = bytes.flatMap writeByte) {c : Char} (hc : c ∈ cs) :
    (hexValue? c).isSome = true := by
  have hmem : c.toLower ∈ bytes.flatMap writeByte := h ▸ List.mem_map_of_mem hc
  obtain ⟨byte, -, hdigit⟩ := List.mem_flatMap.mp hmem
  have hbyte := byte.toNat_lt
  obtain ⟨d, hd, hlower⟩ : ∃ d < 16, c.toLower = Nat.digitChar d := by
    rw [writeByte, List.mem_cons, List.mem_singleton] at hdigit
    obtain hhigh | hlow := hdigit
    · exact ⟨_, by omega, hhigh⟩
    · exact ⟨_, by omega, hlow⟩
  rw [Text.hexValue_of_toLower hd hlower]
  rfl

/-- What writes bytes is accepted for them. -/
theorem acceptsBytes_of_map {cs : List Char} {bytes : List UInt8}
    (h : cs.map Char.toLower = bytes.flatMap writeByte) : AcceptsBytes cs bytes :=
  (readPairs_eq_ok_iff cs bytes).mp (readPairs_of_spells (spellsBytes_of_map h))

/-! ## Where a pair is cut -/

/-- A place in a text is in front of it or not inside its first character. -/
theorem isValid_cons_iff (c : Char) (cs : List Char) (i : Nat) :
    String.Pos.Raw.IsValid (String.ofList (c :: cs)) ⟨i⟩
      ↔ i = 0 ∨ (c.utf8Size ≤ i ∧ String.Pos.Raw.IsValid (String.ofList cs) ⟨i - c.utf8Size⟩) := by
  have htext : String.ofList (c :: cs) = String.singleton c ++ String.ofList cs := by
    rw [String.singleton_eq_ofList, ← String.ofList_append, List.singleton_append]
  by_cases hle : c.utf8Size ≤ i
  · have hbehind := Machine.isValid_append_iff (String.singleton c) (String.ofList cs)
      (i - c.utf8Size)
    rw [String.utf8ByteSize_singleton, Nat.add_sub_cancel' hle] at hbehind
    have hpos := c.utf8Size_pos
    rw [htext, hbehind, and_iff_right hle, or_iff_right (by omega)]
  · have hfront : (⟨i⟩ : String.Pos.Raw) = 0 ↔ i = 0 := String.Pos.Raw.ext_iff
    have hnot : ¬ (String.singleton c).rawEndPos ≤ ⟨i⟩ := by
      rw [String.Pos.Raw.le_iff]
      exact fun h => hle ((String.utf8ByteSize_singleton (c := c)).symm.trans_le h)
    rw [htext, String.Pos.Raw.isValid_append, String.Pos.Raw.isValid_singleton, hfront]
    have hsize : i ≠ c.utf8Size := fun h => hle h.symm.le
    simp only [hnot, hle, hsize, or_false, false_and]

/-- **Two bytes from the start are inside a character**, or behind the text. -/
def CutsFront (cs : List Char) : Prop :=
  cs ≠ [] ∧ ¬ String.Pos.Raw.IsValid (String.ofList cs) ⟨2⟩

theorem isValid_nil_iff (i : Nat) : String.Pos.Raw.IsValid (String.ofList []) ⟨i⟩ ↔ i = 0 := by
  rw [String.ofList_nil, String.Pos.Raw.isValid_empty_iff]
  exact String.Pos.Raw.ext_iff

theorem cutsFront_singleton_iff (c : Char) : CutsFront [c] ↔ c.utf8Size ≠ 2 := by
  have hpos := c.utf8Size_pos
  rw [CutsFront, isValid_cons_iff, isValid_nil_iff]
  simp only [ne_eq, reduceCtorEq, not_false_eq_true, true_and, OfNat.ofNat_ne_zero, false_or]
  omega

theorem cutsFront_cons_iff (a b : Char) (cs : List Char) :
    CutsFront (a :: b :: cs)
      ↔ (a.utf8Size = 1 ∧ b.utf8Size ≠ 1) ∨ 2 < a.utf8Size := by
  have ha := a.utf8Size_pos
  have hb := b.utf8Size_pos
  have hplace : String.Pos.Raw.IsValid (String.ofList (a :: b :: cs)) ⟨2⟩
      ↔ a.utf8Size = 2 ∨ (a.utf8Size = 1 ∧ b.utf8Size = 1) := by
    rw [isValid_cons_iff]
    constructor
    · rintro (h | ⟨hle, hrest⟩)
      · cases h
      · refine or_iff_not_imp_left.mpr fun htwo => ?_
        have hone : a.utf8Size = 1 := by omega
        rw [hone, isValid_cons_iff] at hrest
        exact ⟨hone, by omega⟩
    · rintro (htwo | ⟨hone, hone'⟩)
      · rw [htwo]
        exact .inr ⟨le_rfl, String.Pos.Raw.isValid_zero⟩
      · rw [hone, isValid_cons_iff, hone']
        exact .inr ⟨by decide, .inr ⟨le_rfl, String.Pos.Raw.isValid_zero⟩⟩
  rw [CutsFront, hplace, and_iff_right (List.cons_ne_nil a (b :: cs))]
  omega

theorem readPairs_of_cutsFront {cs : List Char} (h : CutsFront cs) :
    readPairs cs = .error .split := by
  match cs, h with
  | [], h => exact absurd rfl h.1
  | [c], h => rw [readPairs, if_neg ((cutsFront_singleton_iff c).mp h)]
  | a :: b :: cs, h =>
    rw [readPairs]
    obtain ⟨ha, hb⟩ | ha := (cutsFront_cons_iff a b cs).mp h
    · rw [if_pos ha, if_neg hb]
    · rw [if_neg (by omega), if_neg (by omega)]

/-- **The reader is cut short** where pairs that are accepted are followed by one that is cut. -/
theorem readPairs_eq_split_iff (cs : List Char) :
    readPairs cs = .error .split
      ↔ ∃ good rest bytes, cs = good ++ rest ∧ AcceptsBytes good bytes ∧ CutsFront rest := by
  constructor
  · intro h
    fun_induction readPairs cs with
    | case1 => cases h
    | case2 c =>
      refine ⟨[], [c], [], rfl, .nil, (cutsFront_singleton_iff c).mpr fun hc => ?_⟩
      rw [if_pos hc] at h
      cases h
    | case3 a b cs ha hb byte hbyte ih =>
      cases hcs : readPairs cs with
      | ok rest =>
        rw [hcs] at h
        cases h
      | error error =>
        rw [hcs] at h
        obtain ⟨good, rest, bytes, rfl, hgood, hrest⟩ := ih (by rw [hcs]; exact h)
        exact ⟨a :: b :: good, rest, byte :: bytes, rfl,
          .cons ((readByte_eq_some_iff a b byte).mp hbyte) hgood, hrest⟩
    | case4 => cases h
    | case5 a b cs ha hb =>
      exact ⟨[], _, [], rfl, .nil, (cutsFront_cons_iff a b cs).mpr (.inl ⟨ha, hb⟩)⟩
    | case6 a b cs ha =>
      have hpos := a.utf8Size_pos
      have htwo : a.utf8Size ≠ 2 := by
        intro ha
        rw [if_pos ha] at h
        cases h
      exact ⟨[], _, [], rfl, .nil, (cutsFront_cons_iff a b cs).mpr (.inr (by omega))⟩
  · rintro ⟨good, rest, bytes, rfl, hgood, hrest⟩
    induction hgood with
    | nil => exact readPairs_of_cutsFront hrest
    | cons hpair _ ih =>
      rw [List.cons_append, List.cons_append,
        readPairs_cons ((readByte_eq_some_iff _ _ _).mpr hpair), ih]
      rfl

end CommandLine

/-! ## In steps -/

namespace Machine

open CommandLine (readByte? readPairs CutsFront)
open Text (hexValue? readHex?)

/-- The byte that a text denotes to the base sixteen, perhaps with a plus sign in front. -/
def readRadix? (cs : List Char) : Option UInt8 :=
  let digits := if cs.head? = some '+' then cs.tail else cs
  if digits.isEmpty then none
  else (readHex? digits).bind fun n => if n < 256 then some (UInt8.ofNat n) else none

/-- **The bytes of a text from a place on**, a slice of two encoded bytes for each. The first slice
that is no number ends the walk. -/
def readPairsFrom (digits : String) (place : Nat) : Except Hazard (Option (List UInt8)) :=
  if place < digits.utf8ByteSize then do
    let pair ← sliceText digits place (place + 2)
    match readRadix? pair.toList with
    | some byte => return (← readPairsFrom digits (place + 2)).map (byte :: ·)
    | none => return none
  else return some []
termination_by digits.utf8ByteSize - place

/-- Two characters are no number that is too large for a byte. -/
theorem readRadix_pair (a b : Char) : readRadix? [a, b] = readByte? a b := by
  unfold readRadix? readByte? readByte?.hexPart readHex?
  by_cases ha : a = '+'
  · subst ha
    cases hb : hexValue? b with
    | none => simp [hb]
    | some low =>
      have hlow := Text.hexValue_lt hb
      have hfits : low < 256 := by omega
      simp [hb, hfits]
  · cases hhigh : hexValue? a with
    | none => simp [ha, hhigh]
    | some high =>
      cases hb : hexValue? b with
      | none => simp [ha, hhigh, hb]
      | some low =>
        have hhigh' := Text.hexValue_lt hhigh
        have hlow := Text.hexValue_lt hb
        have hfits : 16 * high + low < 256 := by omega
        simp [ha, hhigh, hb, hfits]

/-- No digit takes two bytes. -/
theorem readRadix_wide {c : Char} (hc : c.utf8Size = 2) : readRadix? [c] = none := by
  have hplus : c ≠ '+' := by
    rintro rfl
    exact absurd hc (by decide)
  have hnone : hexValue? c = none := by
    refine Option.eq_none_iff_forall_ne_some.mpr fun d h => ?_
    rw [Text.utf8Size_of_hexValue h] at hc
    cases hc
  simp [readRadix?, readHex?, hplus, hnone]

section

variable {before : String} {cs : List Char}

theorem readPairsFrom_nil : readPairsFrom before before.utf8ByteSize = .ok (some []) := by
  rw [readPairsFrom, if_neg (lt_irrefl _)]
  rfl

/-- Where a pair is cut, the walk ends in a hazard. -/
theorem readPairsFrom_of_cutsFront (h : CutsFront cs) :
    readPairsFrom (before ++ String.ofList cs) before.utf8ByteSize = .error .slice := by
  have hmore : before.utf8ByteSize < (before ++ String.ofList cs).utf8ByteSize := by
    obtain ⟨c, cs, rfl⟩ := List.exists_cons_of_ne_nil h.1
    have hpos := c.utf8Size_pos
    rw [String.utf8ByteSize_append, String.utf8ByteSize_ofList, String.utf8Len_cons]
    omega
  rw [readPairsFrom, if_pos hmore, sliceText_of_not_isValid h.2]
  rfl

/-- Two bytes that are a text are read as its number, and the walk goes on behind them. -/
theorem readPairsFrom_append {pair : String} (hpair : pair.utf8ByteSize = 2) (after : String) :
    readPairsFrom (before ++ pair ++ after) before.utf8ByteSize
      = match readRadix? pair.toList with
        | some byte => (readPairsFrom (before ++ pair ++ after)
          (before ++ pair).utf8ByteSize).map (Option.map (byte :: ·))
        | none => .ok none := by
  have hmore : before.utf8ByteSize < (before ++ pair ++ after).utf8ByteSize := by
    rw [String.utf8ByteSize_append, String.utf8ByteSize_append]
    omega
  have hslice := sliceText_append before pair after
  rw [hpair] at hslice
  rw [readPairsFrom, if_pos hmore, hslice, String.utf8ByteSize_append, hpair]
  cases hbyte : readRadix? pair.toList with
  | none =>
    show (match readRadix? pair.toList with | some byte => _ | none => _) = _
    rw [hbyte]
    rfl
  | some byte =>
    show (match readRadix? pair.toList with | some byte => _ | none => _) = _
    rw [hbyte]
    cases readPairsFrom (before ++ pair ++ after) (before.utf8ByteSize + 2) <;> rfl

/-- A character that fills a pair by itself is no number. -/
theorem readPairsFrom_wide {c : Char} (hc : c.utf8Size = 2) (cs : List Char) :
    readPairsFrom (before ++ String.ofList (c :: cs)) before.utf8ByteSize = .ok none := by
  have hpair : (String.singleton c).utf8ByteSize = 2 := by
    rw [String.utf8ByteSize_singleton, hc]
  have htext : String.ofList (c :: cs) = String.singleton c ++ String.ofList cs := by
    rw [String.singleton_eq_ofList, ← String.ofList_append, List.singleton_append]
  rw [htext, ← String.append_assoc, readPairsFrom_append hpair, String.singleton_eq_ofList,
    String.toList_ofList, readRadix_wide hc]

/-- A pair of ASCII characters is read as its byte. -/
theorem readPairsFrom_ascii {a b : Char} (ha : a.utf8Size = 1) (hb : b.utf8Size = 1)
    (cs : List Char) :
    readPairsFrom (before ++ String.ofList (a :: b :: cs)) before.utf8ByteSize
      = match readByte? a b with
        | some byte => (readPairsFrom (before ++ String.ofList [a, b] ++ String.ofList cs)
          (before ++ String.ofList [a, b]).utf8ByteSize).map (Option.map (byte :: ·))
        | none => .ok none := by
  have hpair : (String.ofList [a, b]).utf8ByteSize = 2 := by
    rw [String.utf8ByteSize_ofList, String.utf8Len_cons, String.utf8Len_cons, ha, hb,
      String.utf8Len_nil]
  have htext : String.ofList (a :: b :: cs) = String.ofList [a, b] ++ String.ofList cs := by
    rw [← String.ofList_append]
    rfl
  rw [htext, ← String.append_assoc, readPairsFrom_append hpair, String.toList_ofList,
    readRadix_pair]

end

/-- **By bytes and by characters the same is read**, and what ends the reading in one way is what
ends it in the other. -/
theorem readPairsFrom_eq (before : String) (cs : List Char) :
    readPairsFrom (before ++ String.ofList cs) before.utf8ByteSize
      = match readPairs cs with
        | .ok bytes => .ok (some bytes)
        | .error .malformed => .ok none
        | .error .split => .error .slice := by
  -- the text in front grows by each pair, so the induction is over all of them
  fun_induction readPairs cs generalizing before with
  | case1 =>
    rw [String.ofList_nil, String.append_empty]
    exact readPairsFrom_nil
  | case2 c =>
    by_cases hc : c.utf8Size = 2
    · rw [readPairsFrom_wide hc, if_pos hc]
    · rw [readPairsFrom_of_cutsFront ((CommandLine.cutsFront_singleton_iff c).mpr hc), if_neg hc]
  | case3 a b cs ha hb byte hbyte ih =>
    rw [readPairsFrom_ascii ha hb, hbyte]
    simp only
    rw [ih (before ++ String.ofList [a, b])]
    cases readPairs cs with
    | ok bytes => rfl
    | error error => cases error <;> rfl
  | case4 a b cs ha hb hbyte => rw [readPairsFrom_ascii ha hb, hbyte]
  | case5 a b cs ha hb =>
    exact readPairsFrom_of_cutsFront
      ((CommandLine.cutsFront_cons_iff a b cs).mpr (.inl ⟨ha, hb⟩))
  | case6 a b cs ha =>
    by_cases htwo : a.utf8Size = 2
    · rw [readPairsFrom_wide htwo, if_pos htwo]
    · have hpos := a.utf8Size_pos
      rw [if_neg htwo]
      exact readPairsFrom_of_cutsFront
        ((CommandLine.cutsFront_cons_iff a b cs).mpr (.inr (by omega)))

end Machine

end WasmExec
