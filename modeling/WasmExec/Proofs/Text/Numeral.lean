/-
Numerals and the readers of integers.

A numeral is a row of digits and stands for one number; zeros in front change nothing.
Every reader of integers reads a numeral as its number, as long as the number fits. The
text that a number is printed as is such a numeral, so printed numbers are read back.

There are two ways to read a word that may be written signed or unsigned. One tries the
signed numbers first and the unsigned ones if that fails, the other begins with the
unsigned ones. Neither order matters: where both attempts succeed they read the same
number, and where only one can succeed the order decides nothing. So both are the single
reader `readInteger?`, whose range is the union of the two.
-/
import WasmExec.Text.Numeral
import Mathlib.Tactic.Ring

set_option autoImplicit false

namespace WasmExec.Text

/-! ## Numerals -/

/-- **A decimal numeral for a number**: at least one digit, and the value of the digits. -/
def IsNumeral (cs : List Char) (n : Nat) : Prop :=
  cs ≠ [] ∧ (∀ c ∈ cs, c.isDigit = true) ∧ Nat.ofDigitChars 10 cs 0 = n

/-- **A text that does not go on with a digit.** -/
def NoDigit (cs : List Char) : Prop := ∀ c ∈ cs.head?, c.isDigit = false

/-- A run of digits ends where no digit follows. -/
theorem takeWhile_isDigit {digits rest : List Char} (h : ∀ c ∈ digits, c.isDigit = true)
    (hrest : NoDigit rest) :
    (digits ++ rest).takeWhile Char.isDigit = digits
      ∧ (digits ++ rest).dropWhile Char.isDigit = rest := by
  rw [List.takeWhile_append_of_pos h, List.dropWhile_append_of_pos h]
  cases rest with
  | nil => simp
  | cons c rest =>
    have hc : c.isDigit = false := hrest c rfl
    simp [hc]

/-- A number is printed as a numeral for it. -/
theorem isNumeral_toString (n : Nat) : IsNumeral (toString n).toList n := by
  have hprinted : (toString n).toList = Nat.toDigits 10 n := Nat.toList_repr
  rw [hprinted]
  refine ⟨Nat.toDigits_ne_nil, ?_, Nat.ofDigitChars_toDigits (by decide) (by decide)⟩
  intro c hc
  exact Nat.isDigit_of_mem_toDigits (by decide) (by decide) hc

section

variable {cs : List Char} {n : Nat} {w : Width}

theorem readDigits_of_isNumeral (h : IsNumeral cs n) : readDigits? cs = some n := by
  obtain ⟨hne, hdigits, hvalue⟩ := h
  have hempty : cs.isEmpty = false := by simpa using hne
  have hall : cs.all Char.isDigit = true := List.all_eq_true.mpr hdigits
  simp [readDigits?, hempty, hall, hvalue]

/-- A text that begins with neither sign. -/
def IsUnsigned (cs : List Char) : Prop := ∀ c ∈ cs.head?, c ≠ '-' ∧ c ≠ '+'

theorem splitSign_of_isUnsigned (h : IsUnsigned cs) : splitSign cs = (false, cs) := by
  unfold splitSign
  split
  · exact absurd rfl (h '-' rfl).1
  · exact absurd rfl (h '+' rfl).2
  · rfl

/-- No sign is a digit. -/
theorem isUnsigned_of_isDigit {c : Char} (h : c.isDigit = true) (cs : List Char) :
    IsUnsigned (c :: cs) := by
  rintro d ⟨⟩
  constructor
  · rintro rfl
    exact absurd h (by decide)
  · rintro rfl
    exact absurd h (by decide)

theorem isUnsigned_of_isNumeral (h : IsNumeral cs n) : IsUnsigned cs := by
  obtain ⟨c, rest, rfl⟩ := List.exists_cons_of_ne_nil h.1
  exact isUnsigned_of_isDigit (h.2.1 c List.mem_cons_self) rest

theorem splitSign_of_isNumeral (h : IsNumeral cs n) : splitSign cs = (false, cs) :=
  splitSign_of_isUnsigned (isUnsigned_of_isNumeral h)

theorem readInt_of_isNumeral (h : IsNumeral cs n) : readInt? cs = some (n : Int) := by
  simp [readInt?, splitSign_of_isNumeral h, readDigits_of_isNumeral h]

/-- A reader without a minus sign takes what stands behind no sign or a plus sign. -/
theorem readNat_eq (cs : List Char) :
    readNat? cs = if (splitSign cs).1 then none else readDigits? (splitSign cs).2 := by
  unfold readNat? splitSign
  split
  · rfl
  · split
    · simp [readDigits?]
    · next hplus => exact absurd rfl (hplus _)
    · rfl

theorem readNat_of_isNumeral (h : IsNumeral cs n) : readNat? cs = some n := by
  simp [readNat_eq, splitSign_of_isNumeral h, readDigits_of_isNumeral h]

/-! ## Words -/

/-- The numbers that fit a word are those up to the greatest without a sign. -/
theorem le_unsigned_greatest (hn : n < 2 ^ w.bits) : (n : Int) ≤ Signedness.unsigned.greatest w := by
  have hgreatest : Signedness.unsigned.greatest w = 2 ^ w.bits - 1 := by cases w <;> rfl
  have hcast : (n : Int) < 2 ^ w.bits := by exact_mod_cast hn
  omega

theorem readBits_of_isNumeral (h : IsNumeral cs n) (hn : n < 2 ^ w.bits) :
    readBits? w cs = some (BitVec.ofNat w.bits n) := by
  have hle := le_unsigned_greatest hn
  simp [readBits?, readNat_of_isNumeral h, hle]

/-- **An integer of a width.** Both readings of a word may be written, so the range goes from the
least signed to the greatest unsigned integer. -/
def readInteger? (w : Width) (cs : List Char) : Option (Word w) :=
  match readInt? cs with
  | some z =>
    if Signedness.signed.least w ≤ z ∧ z ≤ Signedness.unsigned.greatest w then
      some (BitVec.ofInt w.bits z)
    else none
  | none => none

theorem readInteger_of_isNumeral (h : IsNumeral cs n) (hn : n < 2 ^ w.bits) :
    readInteger? w cs = some (BitVec.ofNat w.bits n) := by
  have hle := le_unsigned_greatest hn
  have hge : Signedness.signed.least w ≤ n := by
    have hleast : Signedness.signed.least w ≤ 0 := by cases w <;> decide
    omega
  simp [readInteger?, readInt_of_isNumeral h, hle, hge]

theorem readUInt32_of_isNumeral {n : UInt32} (h : IsNumeral cs n.toNat) :
    readUInt32? cs = some n := by
  have hbits : readBits? .w32 cs = some (BitVec.ofNat 32 n.toNat) :=
    readBits_of_isNumeral h n.toNat_lt
  rw [readUInt32?, hbits]
  simp

/-! ## The order of two attempts -/

/-- **The order of the two attempts does not matter.** A number below zero is signed or it
is nothing, and any other is read as the same word by both. -/
theorem readInteger_eq_or (w : Width) (cs : List Char) :
    readInteger? w cs = (readSigned? w cs).or (readBits? w cs)
      ∧ readInteger? w cs = (readBits? w cs).or (readSigned? w cs) := by
  have hleast : Signedness.signed.least w ≤ 0 := by cases w <;> decide
  have hgreatest : 0 ≤ Signedness.signed.greatest w := by cases w <;> decide
  have hwider : Signedness.signed.greatest w ≤ Signedness.unsigned.greatest w := by
    cases w <;> decide
  unfold readInteger? readSigned? readBits? readInt?
  rw [readNat_eq]
  cases hnumber : readDigits? (splitSign cs).2 with
  | none => simp
  | some n =>
    by_cases hnegative : (splitSign cs).1 = true
    · have hsigned : -(n : Int) ≤ Signedness.signed.greatest w := by omega
      have hunsigned : -(n : Int) ≤ Signedness.unsigned.greatest w := by omega
      simp [hnegative, hsigned, hunsigned]
    · have hlow : Signedness.signed.least w ≤ n := by omega
      by_cases hsigned : (n : Int) ≤ Signedness.signed.greatest w
      · have hunsigned : (n : Int) ≤ Signedness.unsigned.greatest w := by omega
        simp [hnegative, hlow, hsigned, hunsigned]
      · simp [hnegative, hlow, hsigned]

end

end WasmExec.Text
