/-
The numbers of the interchange formats.

IEEE 754 describes a word by three fields, a sign bit, a biased exponent and a fraction,
and gives the number for each kind of exponent field. The library's `decode` does not
look at fields. It compares the bits below the sign, taken as one natural number, with
the magnitude of infinity, and splits them by a division. Here the standard's table is
written out on the fields (`interchange`), and the two are the same function
(`decode_eq_interchange`): the bits below the sign are the exponent field above the
fraction field, so the division that splits them finds the fields again.
-/
import WasmExec.Proofs.Floating.Magnitude

set_option autoImplicit false

namespace WasmExec

/-! ## The fields -/

namespace Width

/-- The length of the exponent field. -/
def exponentBits : Width → Nat
  | .w32 => 8
  | .w64 => 11

/-- The length of the fraction field, which does not hold the leading digit. -/
def fractionBits (w : Width) : Nat := w.precision - 1

/-- What the exponent field is above the exponent. -/
def bias (w : Width) : Int := 2 ^ (w.exponentBits - 1) - 1

end Width

namespace Floating

variable {w : Width}

def exponentField (x : Word w) : BitVec w.exponentBits :=
  x.extractLsb' w.fractionBits w.exponentBits

def fractionField (x : Word w) : BitVec w.fractionBits :=
  x.extractLsb' 0 w.fractionBits

/-- **The number that the standard gives a word.** The greatest exponent field is that of
the infinities and the NaNs, and the least that of the numbers without a leading one. -/
def interchange (x : Word w) : Number :=
  let sign : Rat := if x.msb then -1 else 1
  let fraction : Nat := (fractionField x).toNat
  let exponent : Nat := (exponentField x).toNat
  if exponentField x = BitVec.allOnes w.exponentBits then
    if fractionField x = 0 then .infinite x.msb else .nan
  else if exponentField x = 0 then
    .finite x.msb (sign * fraction * 2 ^ (1 - w.bias - w.fractionBits))
  else
    .finite x.msb
      (sign * (2 ^ w.fractionBits + fraction) * 2 ^ (exponent - w.bias - w.fractionBits))

/-! ## The fields and the magnitude -/

theorem isNegative_eq_msb (x : Word w) : isNegative x = x.msb := by
  rw [BitVec.msb_eq_decide, isNegative, w.signBit_eq]

/-- The bits below the sign are the exponent field above the fraction field. -/
theorem magnitude_eq_fields (x : Word w) :
    magnitude x = (exponentField x).toNat * w.implicitBit + (fractionField x).toNat := by
  have hsign : w.signBit = 2 ^ w.fractionBits * 2 ^ w.exponentBits := by cases w <;> rfl
  have hbit : w.implicitBit = 2 ^ w.fractionBits := w.implicitBit_eq
  rw [magnitude, hsign, Nat.mod_mul, hbit, exponentField, fractionField,
    BitVec.extractLsb'_toNat, BitVec.extractLsb'_toNat, Nat.shiftRight_eq_div_pow,
    Nat.shiftRight_zero]
  ring

theorem fractionField_lt (x : Word w) : (fractionField x).toNat < w.implicitBit := by
  rw [w.implicitBit_eq]
  exact (fractionField x).isLt

/-- A magnitude reaches that of infinity exactly if the exponent field is all ones. -/
theorem exponentField_eq_allOnes_iff (x : Word w) :
    exponentField x = BitVec.allOnes w.exponentBits ↔ w.infinityMagnitude ≤ magnitude x := by
  have htop : w.topBinade + 1 = 2 ^ w.exponentBits - 1 := by cases w <;> rfl
  have hexponent := (exponentField x).isLt
  have hfraction := fractionField_lt x
  have hinf : w.infinityMagnitude = (w.topBinade + 1) * w.implicitBit := by
    rw [w.infinityMagnitude_eq]
    ring
  rw [← BitVec.toNat_inj, BitVec.toNat_allOnes, ← htop, magnitude_eq_fields, hinf]
  constructor
  · intro h
    rw [h]
    omega
  · intro h
    by_contra hne
    have hle : (exponentField x).toNat + 1 ≤ w.topBinade + 1 := by omega
    have hmul := Nat.mul_le_mul_right w.implicitBit hle
    rw [Nat.add_mul, Nat.one_mul] at hmul
    omega

/-- **Both give the same number.** -/
theorem decode_eq_interchange (x : Word w) : decode x = interchange x := by
  have hfields := magnitude_eq_fields x
  have hfraction := fractionField_lt x
  have hones := exponentField_eq_allOnes_iff x
  have hleast : w.leastExponent = 1 - w.bias - w.fractionBits := by cases w <;> rfl
  unfold interchange
  simp only
  by_cases htop : exponentField x = BitVec.allOnes w.exponentBits
  · rw [if_pos htop]
    have hinf : w.infinityMagnitude + (fractionField x).toNat = magnitude x := by
      have hnat : w.infinityMagnitude = (exponentField x).toNat * w.implicitBit := by
        rw [htop]
        cases w <;> rfl
      omega
    by_cases hzero : fractionField x = 0
    · rw [if_pos hzero, decode_of_infinite (by rw [← hinf, hzero]; rfl), isNegative_eq_msb]
    · have hpos : 0 < (fractionField x).toNat := by
        rw [Nat.pos_iff_ne_zero]
        exact fun h => hzero (BitVec.eq_of_toNat_eq h)
      rw [if_neg hzero, decode_of_isNaN (decide_eq_true (by omega))]
  · have hfinite : magnitude x < w.infinityMagnitude := by
      rw [hones] at htop
      omega
    have hsigned : ∀ q : Rat, (if x.msb then -q else q) = (if x.msb then -1 else 1) * q := by
      intro q
      cases x.msb <;> simp
    rw [if_neg htop, decode_of_finite hfinite, value, isNegative_eq_msb, hsigned]
    by_cases hlow : exponentField x = 0
    · have hmag : magnitude x = (fractionField x).toNat := by
        rw [hfields, hlow]
        simp
      rw [if_pos hlow, hmag, magnitudeValue, if_pos hfraction, hleast, mul_assoc]
    · have hpos : 0 < (exponentField x).toNat := by
        rw [Nat.pos_iff_ne_zero]
        exact fun h => hlow (BitVec.eq_of_toNat_eq h)
      have hsteps : magnitude x = ((exponentField x).toNat - 1) * w.implicitBit
          + (w.implicitBit + (fractionField x).toNat) := by
        rw [hfields, ← Nat.sub_add_cancel hpos, Nat.add_mul, Nat.add_sub_cancel]
        omega
      have hbit : w.implicitBit = 2 ^ w.fractionBits := w.implicitBit_eq
      have hexp : w.leastExponent + (((exponentField x).toNat - 1 : Nat) : Int)
          = (exponentField x).toNat - w.bias - w.fractionBits := by
        rw [hleast, Nat.cast_sub hpos]
        ring
      rw [if_neg hlow, hsteps, magnitudeValue_grid w (by omega) (.inr (by omega)), hexp, hbit,
        mul_assoc]
      push_cast
      rfl

theorem isNaN_iff_interchange (x : Word w) : isNaN x = true ↔ interchange x = .nan := by
  rw [isNaN_iff_decode, decode_eq_interchange]

theorem interchange_ne_nan_iff (x : Word w) : interchange x ≠ .nan ↔ isNaN x = false := by
  rw [Ne, ← isNaN_iff_interchange, Bool.not_eq_true]

end Floating

end WasmExec
