/-
The literal of a bit pattern.

A value of any type can be written as its type and the number of its bits. For an integer
this is one of the two ways to write it. For a floating-point value it is the way that
keeps everything, the payload of a NaN included, and it works because a row of digits has
none of the marks by which a decimal numeral is told: no sign, no point, no exponent, and
no letter of a word.
-/
import WasmExec.Script.Literal
import WasmExec.Proofs.Text.Numeral
import Mathlib.Data.List.Basic

set_option autoImplicit false

namespace WasmExec

open Text (IsNumeral)

theorem ValType.parse_name (t : ValType) : ValType.parse t.name = .ok t := by
  rcases t with w | w <;> cases w <;> decide

namespace Literal

/-! ## Marks of a decimal numeral -/

theorem mem_of_isPrefixOf {c : Char} {word cs : List Char}
    (h : (c :: word).isPrefixOf cs = true) : c ∈ cs := by
  cases cs with
  | nil => simp [List.isPrefixOf] at h
  | cons d cs =>
    simp only [List.isPrefixOf, Bool.and_eq_true, beq_iff_eq] at h
    rw [h.1]
    exact List.mem_cons_self

/-- A word can only occur where its first letter does. -/
theorem mem_of_occurs {c : Char} {word cs : List Char} (h : occurs (c :: word) cs = true) :
    c ∈ cs := by
  induction cs with
  | nil => simp [occurs] at h
  | cons d cs ih =>
    simp only [occurs, Bool.or_eq_true] at h
    obtain hfront | hlater := h
    · exact mem_of_isPrefixOf hfront
    · exact List.mem_cons_of_mem d (ih hlater)

section

variable {cs : List Char} {n : Nat}

/-- A numeral has only digits, so a mark that begins with anything else is not in it. -/
theorem not_mem_of_isNumeral (h : IsNumeral cs n) {c : Char} (hc : c.isDigit = false) :
    c ∉ cs := by
  intro hmem
  have hdigit := h.2.1 c hmem
  simp [hc] at hdigit

theorem looksDecimal_of_isNumeral (h : IsNumeral cs n) : looksDecimal cs = false := by
  have hminus : ['-'].isPrefixOf cs = false := by
    rw [Bool.eq_false_iff]
    intro hprefix
    exact not_mem_of_isNumeral h (by decide) (mem_of_isPrefixOf hprefix)
  have hmarks : cs.any (fun c => c = '.' || c = 'e' || c = 'E') = false := by
    rw [List.any_eq_false]
    intro c hmem hmark
    have hdigit := h.2.1 c hmem
    simp only [Bool.or_eq_true, decide_eq_true_eq] at hmark
    obtain (rfl | rfl) | rfl := hmark <;> exact absurd hdigit (by decide)
  have hinf : occurs ['i', 'n', 'f'] cs = false := by
    rw [Bool.eq_false_iff]
    intro hword
    exact not_mem_of_isNumeral h (by decide) (mem_of_occurs hword)
  have hnan : occurs ['n', 'a', 'n'] cs = false := by
    rw [Bool.eq_false_iff]
    intro hword
    exact not_mem_of_isNumeral h (by decide) (mem_of_occurs hword)
  simp [looksDecimal, hminus, hmarks, hinf, hnan]

theorem isAnyNaN_of_isNumeral (h : IsNumeral cs n) : isAnyNaN cs = false := by
  rw [Bool.eq_false_iff]
  intro hprefix
  exact not_mem_of_isNumeral h (by decide) (mem_of_isPrefixOf hprefix)

end

/-! ## Values by their bits -/

/-- With the type known, only the text can be wrong. -/
theorem value_of_name (t : ValType) (s : String) :
    (Literal.mk t.name s).value = match read? t s.toList with
      | some v => .ok v
      | none => .error (.malformed t s) := by
  cases hread : read? t s.toList <;> simp only [value, t.parse_name, hread]

/-- The literal of a value: its type, and its bits as a number. -/
def ofBits (v : Value) : Literal := ⟨v.type.name, toString v.bits⟩

/-- **The literal of a value is read as the value**, bit for bit. -/
theorem value_ofBits (v : Value) : (ofBits v).value = .ok v := by
  have hnumeral := Text.isNumeral_toString v.bits
  have hread : read? v.type (toString v.bits).toList = some v := by
    cases v with
    | int w b =>
      have hword := Text.readInteger_of_isNumeral hnumeral b.isLt
      rw [(Text.readInteger_eq_or w _).2] at hword
      show ((Text.readBits? w _).or (Text.readSigned? w _)).map (Value.int w) = _
      rw [hword]
      simp [Value.bits]
    | float w b =>
      have hword := Text.readBits_of_isNumeral hnumeral b.isLt
      show (readFloat? w _).map (Value.float w) = _
      rw [readFloat?, isAnyNaN_of_isNumeral hnumeral, looksDecimal_of_isNumeral hnumeral]
      simp only [Bool.false_eq_true, if_false, hword]
      simp [Value.bits]
  rw [ofBits, value_of_name, hread]

end Literal

end WasmExec
