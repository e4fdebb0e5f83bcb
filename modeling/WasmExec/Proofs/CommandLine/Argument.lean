/-
Arguments that are spelled as they should be.

Each of the small languages is a printer away from the value that an argument stands for:
a size is two numerals with a colon between them, a segment a numeral, a colon and two
digits for each byte, an operand a text, a colon and the name of a type. Here these
spellings are relations between texts and values, and every reader reads what is spelled.
The relations leave open what the text may leave open, zeros in front of a number and the
case of a digit.

What makes the splits right is that the colon is missing on one side: no numeral has one,
and no name of a type has one. A text in front of a type may have any.
-/
import WasmExec.CommandLine.Argument
import WasmExec.Proofs.Script.Literal
import WasmExec.Proofs.Text.Hexadecimal
import WasmExec.Proofs.Text.Numeral
import Mathlib.Data.String.Basic

set_option autoImplicit false

namespace WasmExec.CommandLine

open Text (IsNumeral hexValue?)

/-! ## Splitting -/

theorem splitFirst_append {separator : Char} {before : List Char} (h : separator ∉ before)
    (after : List Char) :
    splitFirst separator (before ++ separator :: after) = some (before, after) := by
  induction before with
  | nil => simp [splitFirst]
  | cons c before ih =>
    have hne : c ≠ separator := by
      intro hc
      exact h (hc ▸ List.mem_cons_self)
    have hrest : separator ∉ before := fun hmem => h (List.mem_cons_of_mem c hmem)
    simp [splitFirst, hne, ih hrest]

theorem splitLast_append {separator : Char} {after : List Char} (h : separator ∉ after)
    (before : List Char) :
    splitLast separator (before ++ separator :: after) = some (before, after) := by
  have hreverse : (before ++ separator :: after).reverse
      = after.reverse ++ separator :: before.reverse := by simp
  have habsent : separator ∉ after.reverse := by simpa using h
  have hsplit := splitFirst_append habsent before.reverse
  rw [splitLast, hreverse, hsplit]
  simp

theorem splitFirst_of_not_mem {separator : Char} {cs : List Char} (h : separator ∉ cs) :
    splitFirst separator cs = none := by
  induction cs with
  | nil => rfl
  | cons c cs ih =>
    rw [List.mem_cons, not_or] at h
    rw [splitFirst, if_neg (Ne.symm h.1), ih h.2]
    rfl

theorem splitLast_of_not_mem {separator : Char} {cs : List Char} (h : separator ∉ cs) :
    splitLast separator cs = none := by
  rw [splitLast, splitFirst_of_not_mem (by simpa using h)]
  rfl

/-- A separator that occurs has a last occurrence. -/
theorem exists_append_last {separator : Char} {cs : List Char} (h : separator ∈ cs) :
    ∃ before after, cs = before ++ separator :: after ∧ separator ∉ after := by
  obtain ⟨back, front, hreverse, habsent⟩ :=
    List.eq_append_cons_of_mem (List.mem_reverse.mpr h)
  refine ⟨front.reverse, back.reverse, ?_, by simpa using habsent⟩
  rw [← List.reverse_reverse cs, hreverse]
  simp

theorem colon_not_mem_of_isNumeral {cs : List Char} {n : Nat} (h : IsNumeral cs n) :
    ':' ∉ cs := by
  intro hmem
  exact absurd (h.2.1 ':' hmem) (by decide)

/-- A text with a colon in it, taken apart. -/
theorem toList_colon (before after : String) :
    (before ++ ":" ++ after).toList = before.toList ++ ':' :: after.toList := by
  rw [String.toList_append, String.toList_append]
  simp

/-! ## Limits -/

/-- **The spelling of limits**: two numerals with a colon between them. -/
def SpellsLimits (arg : String) (minimum maximum : UInt32) : Prop :=
  ∃ a b : String, arg = a ++ ":" ++ b ∧ IsNumeral a.toList minimum.toNat
    ∧ IsNumeral b.toList maximum.toNat

theorem parseLimits_of_spells {arg : String} {minimum maximum : UInt32}
    (h : SpellsLimits arg minimum maximum) : parseLimits arg = .ok (minimum, maximum) := by
  obtain ⟨a, b, rfl, ha, hb⟩ := h
  have hsplit := splitFirst_append (colon_not_mem_of_isNumeral ha) b.toList
  have hminimum : readPageCount a.toList = .ok minimum := by
    rw [readPageCount, Text.readUInt32_of_isNumeral ha]
  have hmaximum : readPageCount b.toList = .ok maximum := by
    rw [readPageCount, Text.readUInt32_of_isNumeral hb]
  rw [parseLimits, toList_colon, hsplit]
  simp only [hminimum, hmaximum]
  rfl

/-! ## Segments -/

/-- **The spelling of bytes**: two hexadecimal digits for each, in either case. -/
inductive SpellsBytes : List Char → List UInt8 → Prop where
  | nil : SpellsBytes [] []
  | cons {a b : Char} {high low : Nat} {cs : List Char} {bytes : List UInt8} :
    hexValue? a = some high → hexValue? b = some low → SpellsBytes cs bytes →
      SpellsBytes (a :: b :: cs) (UInt8.ofNat (16 * high + low) :: bytes)

/-- **The spelling of a segment.** -/
def SpellsSegment (arg : String) (segment : UInt32 × List UInt8) : Prop :=
  ∃ offset digits : String, arg = offset ++ ":" ++ digits
    ∧ IsNumeral offset.toList segment.1.toNat ∧ SpellsBytes digits.toList segment.2

/-- A plus sign is no digit, so it never stands for one here. -/
theorem readByte_of_hexValue {a b : Char} {high low : Nat} (ha : hexValue? a = some high)
    (hb : hexValue? b = some low) : readByte? a b = some (UInt8.ofNat (16 * high + low)) := by
  have hplus : a ≠ '+' := by
    rintro rfl
    have hnone : hexValue? '+' = none := by decide
    simp [hnone] at ha
  simp [readByte?, readByte?.hexPart, hplus, ha, hb]

theorem readPairs_of_spells {cs : List Char} {bytes : List UInt8} (h : SpellsBytes cs bytes) :
    readPairs cs = .ok bytes := by
  induction h with
  | nil => rfl
  | cons ha hb hcs ih =>
    have hsize := Text.utf8Size_of_hexValue ha
    have hsize' := Text.utf8Size_of_hexValue hb
    have hbyte := readByte_of_hexValue ha hb
    simp [readPairs, hsize, hsize', hbyte, ih, Except.map]

theorem even_utf8Len_of_spells {cs : List Char} {bytes : List UInt8} (h : SpellsBytes cs bytes) :
    String.utf8Len cs % 2 = 0 := by
  induction h with
  | nil => rfl
  | cons ha hb hcs ih =>
    rw [String.utf8Len_cons, String.utf8Len_cons, Text.utf8Size_of_hexValue ha,
      Text.utf8Size_of_hexValue hb]
    omega

theorem parseSegment_of_spells {arg : String} {segment : UInt32 × List UInt8}
    (h : SpellsSegment arg segment) : parseSegment arg = .ok segment := by
  obtain ⟨offset, digits, rfl, hoffset, hdigits⟩ := h
  have hsplit := splitFirst_append (colon_not_mem_of_isNumeral hoffset) digits.toList
  have heven : ¬ (String.ofList digits.toList).utf8ByteSize % 2 ≠ 0 := by
    rw [String.utf8ByteSize_ofList, even_utf8Len_of_spells hdigits]
    simp
  have hbytes : readBytes digits.toList = .ok segment.2 := by
    rw [readBytes]
    simp only [if_neg heven, readPairs_of_spells hdigits]
  rw [parseSegment, toList_colon, hsplit]
  simp only [Text.readUInt32_of_isNumeral hoffset, hbytes]
  rfl

/-- **A spelled segment is copied in** exactly as its offset and its bytes are. -/
theorem applySegment_of_spells {arg : String} {segment : UInt32 × List UInt8}
    (h : SpellsSegment arg segment) (m : Memory) :
    applySegment m arg = (m.init segment.1 segment.2).mapError .segmentRefused := by
  obtain ⟨offset, bytes⟩ := segment
  rw [applySegment, parseSegment_of_spells h]
  simp only
  cases m.init offset bytes <;> rfl

/-! ## Operands -/

/-- **The spelling of an operand**: the text of a literal, a colon, and the name of its
type. Where the type is a floating-point one, the text has to look like a decimal numeral,
since an operand has no other way to write one, and may not be one of the texts that stand
for any NaN. -/
def SpellsOperand (arg : String) (l : Literal) : Prop :=
  arg = l.text ++ ":" ++ l.type ∧ ∃ t : ValType, l.type = t.name
    ∧ (t.isInt = true
      ∨ (Literal.looksDecimal l.text.toList = true ∧ Literal.isAnyNaN l.text.toList = false))

theorem colon_not_mem_name (t : ValType) : ':' ∉ t.name.toList := by
  rcases t with w | w <;> cases w <;> decide

/-- At an integer type, and wherever a text looks like a decimal numeral, an operand and a
literal are read alike. -/
theorem readValue_eq_read {t : ValType} {cs : List Char}
    (h : t.isInt = true ∨ (Literal.looksDecimal cs = true ∧ Literal.isAnyNaN cs = false)) :
    readValue? t cs = Literal.read? t cs := by
  cases t with
  | int w => rw [readValue?, Literal.read?, ← (Text.readInteger_eq_or w cs).1,
      ← (Text.readInteger_eq_or w cs).2]
  | float w =>
    obtain hint | ⟨hdecimal, hnan⟩ := h
    · cases hint
    · simp [readValue?, Literal.read?, Literal.readFloat?, hdecimal, hnan]

/-- With the type known, only the text can be wrong, and that is all in front of the last
colon. -/
theorem parseOperand_of_name (t : ValType) (s : String) :
    parseOperand (s ++ ":" ++ t.name) = match readValue? t s.toList with
      | some v => .ok v
      | none => .error (.malformedOperand s t) := by
  rw [parseOperand, toList_colon, splitLast_append (colon_not_mem_name t)]
  cases hread : readValue? t s.toList <;> simp only [String.ofList_toList, t.parse_name, hread]

/-- **An operand is read as its literal is**, or both are refused. -/
theorem parseOperand_of_spells {arg : String} {l : Literal} (h : SpellsOperand arg l) :
    (parseOperand arg).toOption = l.value.toOption := by
  obtain ⟨rfl, t, htype, hread⟩ := h
  obtain ⟨name, text⟩ := l
  obtain rfl : name = t.name := htype
  rw [parseOperand_of_name, Literal.value_of_name, readValue_eq_read hread]
  cases Literal.read? t text.toList <;> rfl

end WasmExec.CommandLine
