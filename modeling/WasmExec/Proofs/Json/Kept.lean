/-
Documents that can be kept.

A reader that has to keep a document for later asks more of it than that it is well formed:
a limit on the nesting of brackets, and on the size of numbers. For the first it is enough to
count levels (`FitsIn`): a list or a record has one level more than what is inside, and a
document that fits so many levels fits any greater number.

The limit on numbers is tested by a product of two numbers of double precision, the digits
and the power of ten that goes with them. Only integers of at most 32 bits are of interest
here, and for them nothing is rounded: the digits make a number of this format, the other
factor is one, and so the product is the number again (`inRange_of_isNumeral`).
-/
import WasmExec.Proofs.Floating.Exact
import WasmExec.Proofs.Json.Record

set_option autoImplicit false

namespace WasmExec

/-- **An exact product of two exact factors** is a number. -/
theorem Floating.magnitude_mul_ofRat {w : Width} {p q : Rat} (hp : IsRepresentable w p)
    (hq : IsRepresentable w q) (hpq : IsRepresentable w (p * q)) (s : Bool) :
    magnitude (mul (ofRat w s p) (ofRat w s q)) < w.infinityMagnitude := by
  rw [mul, decode_ofRat hp, decode_ofRat hq]
  exact (value_of_finite (decode_ofRat hpq _)).1

namespace Json

open Text (IsNumeral)

/-! ## The size of numbers -/

/-- Digits only make a number longer. -/
theorem le_ofDigitChars (cs : List Char) (n : Nat) : n ≤ Nat.ofDigitChars 10 cs n := by
  induction cs generalizing n with
  | nil => exact Nat.le_refl n
  | cons c cs ih =>
    have hrest := ih (10 * n + (c.toNat - '0'.toNat))
    rw [Nat.ofDigitChars_cons]
    omega

/-- Digits are taken up as long as their number fits, so all of them are if their whole number
does. -/
theorem absorb_eq {cs : List Char} {n : Nat}
    (h : Nat.ofDigitChars 10 cs n ≤ 18446744073709551615) :
    Number.absorb n cs = (Nat.ofDigitChars 10 cs n, 0) := by
  induction cs generalizing n with
  | nil => rfl
  | cons c cs ih =>
    rw [Nat.ofDigitChars_cons] at h ⊢
    have hnext : 10 * n + (c.toNat - 48) ≤ 18446744073709551615 :=
      (le_ofDigitChars cs _).trans h
    rw [Number.absorb, if_pos hnext]
    exact ih h

/-- **Small integers are within range.** Both factors of the test are exact, and so is their
product. -/
theorem inRange_of_isNumeral {digits : List Char} {n : Nat} (h : IsNumeral digits n)
    (hn : n ≤ 4294967295) : Number.inRange ⟨false, digits, none, none⟩ = true := by
  have hdigits : Number.absorb 0 digits = (n, 0) := by
    have hle : Nat.ofDigitChars 10 digits 0 ≤ 18446744073709551615 := by
      rw [h.2.2]
      omega
    rw [absorb_eq hle, h.2.2]
  have hscientific : Number.scientific ⟨false, digits, none, none⟩ = (n, 0) := by
    simp [Number.scientific, hdigits, Number.absorb]
  -- the power of ten is one, so that only integers of 32 bits are multiplied
  have hsmall : ∀ i : Int, i.natAbs ≤ 4294967295 → Floating.IsRepresentable .w64 (i : Rat) := by
    intro i hi
    refine Floating.isRepresentable_intCast ?_
    have hbit : Width.implicitBit .w64 = 4503599627370496 := rfl
    omega
  have hfactor : Floating.IsRepresentable .w64 ((n : Int) : Rat) := hsmall n (by omega)
  have hone : Floating.IsRepresentable .w64 ((10 : Rat) ^ (0 : Int)) := by
    have hcast := hsmall 1 (by decide)
    rwa [Int.cast_one, ← zpow_zero (10 : Rat)] at hcast
  have hproduct : Floating.IsRepresentable .w64 (((n : Int) : Rat) * (10 : Rat) ^ (0 : Int)) := by
    rwa [zpow_zero, mul_one]
  have hfinite := Floating.magnitude_mul_ofRat hfactor hone hproduct false
  rw [Number.inRange, hscientific]
  have hexponent : ¬ (308 : Int) < 0 := by decide
  simp only [hexponent, if_false]
  split
  · rfl
  · exact decide_eq_true hfinite

/-! ## The nesting of brackets -/

/-- **A document that can be kept where there are so many levels of brackets.** -/
def FitsIn (levels : Nat) (j : Json) : Prop := ∀ room, levels ≤ room → j.fits room = true

theorem FitsIn.mono {levels levels' : Nat} {j : Json} (h : FitsIn levels j)
    (hle : levels ≤ levels') : FitsIn levels' j := fun room hroom => h room (hle.trans hroom)

section

variable {levels : Nat} {members : List (Str × Json)}

theorem allFit_iff {room : Nat} {items : List Json} :
    allFit room items = true ↔ ∀ v ∈ items, v.fits room = true := by
  induction items with
  | nil => simp [allFit]
  | cons v items ih => simp [allFit, ih]

theorem membersFit_iff {room : Nat} :
    membersFit room members = true ↔ ∀ m ∈ members, m.1.isSome = true ∧ m.2.fits room = true := by
  induction members with
  | nil => simp [membersFit]
  | cons m members ih => simp [membersFit, ih]

theorem fitsIn_array {items : List Json} (h : ∀ v ∈ items, FitsIn levels v) :
    FitsIn (levels + 1) (.array items) := by
  intro room hroom
  have hpos : 0 < room := by omega
  have hitems : allFit (room - 1) items = true :=
    allFit_iff.mpr fun v hv => h v hv (room - 1) (by omega)
  rw [fits, hitems, decide_eq_true hpos]
  rfl

theorem fitsIn_object
    (h : ∀ m ∈ members, m.1.isSome = true ∧ FitsIn levels m.2) :
    FitsIn (levels + 1) (.object members) := by
  intro room hroom
  have hpos : 0 < room := by omega
  have hmembers : membersFit (room - 1) members = true :=
    membersFit_iff.mpr fun m hm => ⟨(h m hm).1, (h m hm).2 (room - 1) (by omega)⟩
  rw [fits, hmembers, decide_eq_true hpos]
  rfl

theorem fitsIn_of_isText {s : String} {j : Json} (h : IsText s j) : FitsIn 0 j := by
  intro room _
  rw [h]
  rfl

theorem fitsIn_of_isNat {n : Nat} {j : Json} (h : IsNat n j) (hn : n ≤ 4294967295) :
    FitsIn 0 j := by
  obtain ⟨digits, hdigits, rfl⟩ := h
  intro room _
  rw [fits, inRange_of_isNumeral hdigits hn]

theorem exists_of_mem_of_forall₂ {α β : Type} {R : α → β → Prop} {xs : List α} {ys : List β}
    (h : List.Forall₂ R xs ys) {y : β} (hy : y ∈ ys) : ∃ x ∈ xs, R x y := by
  induction h with
  | nil => exact absurd hy List.not_mem_nil
  | @cons x y' xs ys hxy _ ih =>
    rcases List.mem_cons.mp hy with rfl | hy
    · exact ⟨x, List.mem_cons_self, hxy⟩
    · obtain ⟨z, hz, hzy⟩ := ih hy
      exact ⟨z, List.mem_cons_of_mem x hz, hzy⟩

theorem fitsIn_of_isList {α : Type} {isItem : α → Json → Prop} {xs : List α}
    {j : Json} (h : IsList isItem xs j) (hitem : ∀ x ∈ xs, ∀ v, isItem x v → FitsIn levels v) :
    FitsIn (levels + 1) j := by
  obtain ⟨items, rfl, hitems⟩ := h
  refine fitsIn_array fun v hv => ?_
  obtain ⟨x, hx, hxv⟩ := exists_of_mem_of_forall₂ hitems hv
  exact hitem x hx v hxv

/-- What a field holds can be kept where there are so many levels. -/
def Field.FitsIn (levels : Nat) (f : Field) : Prop := ∀ v, f.admits v → Json.FitsIn levels v

theorem Field.fitsIn_word (name : String) (n : UInt32) : (Field.word name n).FitsIn levels :=
  fun _ hv => (fitsIn_of_isNat hv (Nat.le_of_lt_succ n.toNat_lt)).mono (Nat.zero_le levels)

theorem Field.fitsIn_text (name s : String) : (Field.text name s).FitsIn levels :=
  fun _ hv => (fitsIn_of_isText hv).mono (Nat.zero_le levels)

/-- **A record needs one level more than its fields.** -/
theorem fitsIn_of_isRecord {fields : List Field} {j : Json} (h : IsRecord fields j)
    (hfields : ∀ f ∈ fields, f.FitsIn levels) : FitsIn (levels + 1) j := by
  rcases h with ⟨hmembers, hperm⟩ | hitems
  · refine fitsIn_object fun m hm => ?_
    obtain ⟨f, hf, hkey, hv⟩ := exists_field_of_mem hmembers (hperm.mem_iff.mpr hm)
    rw [hkey]
    exact ⟨rfl, hfields f hf _ hv⟩
  · refine fitsIn_array fun v hv => ?_
    obtain ⟨f, hf, hfv⟩ := exists_of_mem_of_forall₂ hitems hv
    exact hfields f hf v hfv

end

end Json

end WasmExec
