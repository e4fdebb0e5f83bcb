/-
Hexadecimal digits and the numbers of rows of them.

Sixteen characters are written as digits and twenty-two are read as one. What a reader takes them
for is settled by one equivalence: a character has the value of the digit that it is in lower case,
and no other (`hexValue_eq_some_iff`). It is a bounded search, because no character behind the
letter f has a value. That digits are below sixteen and that they are ASCII characters are what the
other parts of the library ask of them.

A row of digits is read from the front, so each further digit multiplies what was read by sixteen
and adds its value. That is how a row is written too, and zeros in front of it change nothing.
-/
import WasmExec.Text.Hexadecimal
import Mathlib.Algebra.Group.Nat.Defs
import Mathlib.Data.List.Basic

set_option autoImplicit false

namespace WasmExec.Text

/-! ## Digits -/

theorem toNat_le_of_hexValue {c : Char} {value : Nat} (h : hexValue? c = some value) :
    c.toNat ≤ 102 := by
  unfold hexValue? at h
  split at h
  · next hdigit =>
    simp only [Char.isDigit, Bool.and_eq_true, decide_eq_true_eq] at hdigit
    have hnine : c.toNat ≤ 57 := hdigit.2
    omega
  · split at h
    · next hlower => exact hlower.2
    · split at h
      · next hupper =>
        have hletter : c.toNat ≤ 70 := hupper.2
        omega
      · cases h

/-- A digit is an ASCII character. -/
theorem utf8Size_of_hexValue {c : Char} {value : Nat} (h : hexValue? c = some value) :
    c.utf8Size = 1 := by
  rw [Char.utf8Size_eq_one_iff, UInt32.le_iff_toNat_le]
  exact Nat.le_trans (toNat_le_of_hexValue h) (by decide)

/-- A digit that is written is read. -/
theorem hexValue_digitChar : ∀ d < 16, hexValue? (Nat.digitChar d) = some d := by decide

/-- A letter is the digit that it is in lower case. -/
theorem hexValue_of_toLower {c : Char} {d : Nat} (hd : d < 16)
    (h : c.toLower = Nat.digitChar d) : hexValue? c = some d := by
  by_cases hupper : c.isUpper = true
  · have hletters : ∀ n ≤ 90, ∀ d < 16, (Char.ofNat n).toLower = Nat.digitChar d →
        hexValue? (Char.ofNat n) = some d := by decide +kernel
    have hlast : c.toNat ≤ 90 := (of_decide_eq_true hupper).2
    rw [← Char.ofNat_toNat c] at h ⊢
    exact hletters c.toNat hlast d hd h
  · have hsame : c.toLower = c := dif_neg fun hc => hupper (decide_eq_true hc)
    rw [← hsame, h, hexValue_digitChar d hd]

/-- **A character has the value of the digit that it is in lower case**, and no other. -/
theorem hexValue_eq_some_iff (c : Char) (d : Nat) :
    hexValue? c = some d ↔ d < 16 ∧ c.toLower = Nat.digitChar d := by
  constructor
  · intro h
    -- no character behind the letter f has a value, which leaves a bounded search
    have hletters : ∀ n ≤ 102, ∀ d ∈ hexValue? (Char.ofNat n),
        d < 16 ∧ (Char.ofNat n).toLower = Nat.digitChar d := by decide +kernel
    rw [← Char.ofNat_toNat c] at h ⊢
    rw [Char.ofNat_toNat] at h
    exact hletters c.toNat (toNat_le_of_hexValue h) d (by rwa [Char.ofNat_toNat])
  · rintro ⟨hd, h⟩
    exact hexValue_of_toLower hd h

theorem hexValue_lt {c : Char} {d : Nat} (h : hexValue? c = some d) : d < 16 :=
  ((hexValue_eq_some_iff c d).mp h).1

/-! ## Rows -/

/-- **The number of a row of hexadecimal digits.** -/
def readHex? (cs : List Char) : Option Nat :=
  cs.foldlM (fun n c => (hexValue? c).map (16 * n + ·)) 0

theorem readHex_append_digit {cs : List Char} {n d : Nat} (h : readHex? cs = some n)
    (hd : d < 16) : readHex? (cs ++ [Nat.digitChar d]) = some (16 * n + d) := by
  rw [readHex?, List.foldlM_append]
  rw [readHex?] at h
  rw [h]
  simp [hexValue_digitChar d hd]

/-- What a number is written as is read as the number. -/
theorem readHex_toDigits (n : Nat) : readHex? (Nat.toDigits 16 n) = some n := by
  induction n using Nat.strongRecOn with
  | ind n ih =>
    by_cases hn : n < 16
    · rw [Nat.toDigits_of_lt_base hn]
      have hdigit : readHex? ([] ++ [Nat.digitChar n]) = some (16 * 0 + n) :=
        readHex_append_digit rfl hn
      rwa [List.nil_append, Nat.mul_zero, Nat.zero_add] at hdigit
    · rw [Nat.toDigits_of_base_le (by decide) (by omega),
        readHex_append_digit (ih (n / 16) (by omega)) (Nat.mod_lt n (by decide)),
        Nat.div_add_mod]

/-- Zeros in front change nothing. -/
theorem readHex_hexDigits (width n : Nat) : readHex? (hexDigits width n) = some n := by
  rw [hexDigits]
  generalize width - (Nat.toDigits 16 n).length = k
  induction k with
  | zero => exact readHex_toDigits n
  | succ k ih => exact ih

theorem length_hexDigits {width n : Nat} (hwidth : 0 < width) (hn : n < 16 ^ width) :
    (hexDigits width n).length = width := by
  have hle := (Nat.length_toDigits_le_iff (by decide) hwidth).mpr hn
  simp only [hexDigits, List.length_append, List.length_replicate]
  omega

/-- A character that is no digit spoils a number. -/
theorem not_mem_of_readHex {cs : List Char} {n : Nat} (h : readHex? cs = some n) {c : Char}
    (hc : hexValue? c = none) : c ∉ cs := by
  unfold readHex? at h
  generalize 0 = start at h
  induction cs generalizing start with
  | nil => exact List.not_mem_nil
  | cons d cs ih =>
    rw [List.foldlM_cons] at h
    obtain ⟨next, hd, hcs⟩ := Option.bind_eq_some_iff.mp h
    rw [List.mem_cons, not_or]
    refine ⟨?_, ih next hcs⟩
    rintro rfl
    rw [hc] at hd
    cases hd

end WasmExec.Text
