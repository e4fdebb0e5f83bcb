/-
Results that are not rounded.

Every operation computes an exact rational and rounds it. Where the rational is already
a number of the format the rounding has to be the identity, and much rests on that:
widening a word, dropping its fraction and converting a small integer all go through
the same `ofRat`.

The argument follows `roundMagnitude`. A positive rational that is `n` steps of the
spacing with exponent `leastExponent + j`, in the sense of `magnitudeValue_grid`, lies in
a binade known from the length of `n`; so the spacing that the rounding chooses is this
one, the quotient by it is the integer `n`, and the result is the magnitude that was
taken apart (`roundMagnitude_grid`).

The rationals of a format are the multiples `n * 2 ^ k` with few digits in `n`, a large
enough `k` and a bound on the size (`isRepresentable_iff`). In this form it is plain that
the numbers of the narrow format are numbers of the wide one, and that the two integers
next to a number of a format are numbers of the format as well.
-/
import WasmExec.Floating.Conversion
import WasmExec.Proofs.Floating.Magnitude

set_option autoImplicit false

namespace WasmExec.Floating

variable {w : Width}

/-! ## The binade of a rational -/

theorem floorLog2_spec {q : Rat} (hq : 0 < q) :
    (2 : Rat) ^ floorLog2 q ≤ q ∧ q < (2 : Rat) ^ (floorLog2 q + 1) := by
  have hnum : 0 < q.num := Rat.num_pos.mpr hq
  have habs : (q.num.natAbs : Rat) = q * q.den := by
    rw [Rat.mul_den_eq_num, ← Int.cast_natCast, Int.natAbs_of_nonneg hnum.le]
  have hnum_ge : (2 : Rat) ^ q.num.natAbs.log2 ≤ q * q.den := by
    rw [← habs]
    exact_mod_cast Nat.log2_self_le (by omega)
  have hnum_lt : q * q.den < (2 : Rat) ^ (q.num.natAbs.log2 + 1) := by
    rw [← habs]
    exact_mod_cast Nat.lt_log2_self
  have hden_ge : (2 : Rat) ^ q.den.log2 ≤ q.den := by
    exact_mod_cast Nat.log2_self_le q.den_ne_zero
  have hden_lt : (q.den : Rat) < (2 : Rat) ^ (q.den.log2 + 1) := by
    exact_mod_cast Nat.lt_log2_self
  -- the quotient of the two powers is below twice the rational and above half of it
  have hbelow : (2 : Rat) ^ ((q.num.natAbs.log2 : Int) - q.den.log2 - 1) ≤ q := by
    rw [sub_sub, zpow_sub₀ (by norm_num), ← Nat.cast_add_one, zpow_natCast, zpow_natCast,
      div_le_iff₀ (by positivity)]
    exact hnum_ge.trans (mul_le_mul_of_nonneg_left hden_lt.le hq.le)
  have habove : q < (2 : Rat) ^ ((q.num.natAbs.log2 : Int) - q.den.log2 + 1) := by
    rw [sub_add_eq_add_sub, zpow_sub₀ (by norm_num), ← Nat.cast_add_one, zpow_natCast,
      zpow_natCast, lt_div_iff₀ (by positivity)]
    exact (mul_le_mul_of_nonneg_left hden_ge hq.le).trans_lt hnum_lt
  unfold floorLog2
  simp only
  by_cases hlt : q < (2 : Rat) ^ ((q.num.natAbs.log2 : Int) - q.den.log2)
  · rw [if_pos hlt, sub_add_cancel]
    exact ⟨hbelow, hlt⟩
  · rw [if_neg hlt]
    exact ⟨not_lt.mp hlt, habove⟩

theorem floorLog2_eq {q : Rat} {e : Int} (hge : (2 : Rat) ^ e ≤ q)
    (hlt : q < (2 : Rat) ^ (e + 1)) : floorLog2 q = e := by
  have hpos : (0 : Rat) < 2 ^ e := by positivity
  obtain ⟨hge', hlt'⟩ := floorLog2_spec (hpos.trans_le hge)
  have h1 := (zpow_lt_zpow_iff_right₀ (by norm_num : (1 : Rat) < 2)).mp (hge.trans_lt hlt')
  have h2 := (zpow_lt_zpow_iff_right₀ (by norm_num : (1 : Rat) < 2)).mp (hge'.trans_lt hlt)
  omega

/-- A multiple of a power of two is in the binade that the length of the factor gives. -/
theorem floorLog2_scaled {n : Nat} (hn : 0 < n) (k : Int) :
    floorLog2 ((n : Rat) * 2 ^ k) = n.log2 + k := by
  have hscale : (0 : Rat) < 2 ^ k := by positivity
  have hge : (2 : Rat) ^ n.log2 ≤ n := by exact_mod_cast Nat.log2_self_le hn.ne'
  have hlt : (n : Rat) < (2 : Rat) ^ (n.log2 + 1) := by exact_mod_cast Nat.lt_log2_self
  apply floorLog2_eq
  · rw [zpow_add₀ (by norm_num), zpow_natCast]
    exact mul_le_mul_of_nonneg_right hge hscale.le
  · rw [add_right_comm, zpow_add₀ (by norm_num), ← Nat.cast_add_one, zpow_natCast]
    exact mul_lt_mul_of_pos_right hlt hscale

/-! ## Rounding a number of the format -/

@[simp] theorem nearestInt_intCast (n : Int) : nearestInt (n : Rat) = n := by
  simp [nearestInt]

/-- The spacing around a number that is taken apart into steps is the spacing of the
steps. -/
theorem gridExponent_grid (w : Width) {j n : Nat} (hpos : 0 < n) (hn : n < 2 * w.implicitBit)
    (hj : j = 0 ∨ w.implicitBit ≤ n) :
    gridExponent w (floorLog2 ((n : Rat) * 2 ^ (w.leastExponent + (j : Int))))
      = w.leastExponent + (j : Int) := by
  have hprec : 2 * w.implicitBit = 2 ^ w.precision := by cases w <;> rfl
  have hlog : n.log2 < w.precision := by
    rw [Nat.log2_lt hpos.ne', ← hprec]
    exact hn
  have hfull : w.implicitBit ≤ n → w.precision - 1 ≤ n.log2 := by
    intro h
    rwa [Nat.le_log2 hpos.ne', ← w.implicitBit_eq]
  rw [floorLog2_scaled hpos, gridExponent]
  omega

/-- **Rounding finds the steps again.** -/
theorem roundMagnitude_grid (w : Width) {j n : Nat} (hpos : 0 < n) (hn : n < 2 * w.implicitBit)
    (hj : j = 0 ∨ w.implicitBit ≤ n) :
    roundMagnitude w ((n : Rat) * 2 ^ (w.leastExponent + (j : Int)))
      = Nat.min w.infinityMagnitude (j * w.implicitBit + n) := by
  have hspacing : (2 : Rat) ^ (w.leastExponent + (j : Int)) ≠ 0 := by positivity
  have hcast : (0 : Rat) < n := by exact_mod_cast hpos
  have hne : (n : Rat) * 2 ^ (w.leastExponent + (j : Int)) ≠ 0 := mul_ne_zero hcast.ne' hspacing
  have hnearest : nearestInt (n : Rat) = n := nearestInt_intCast n
  unfold roundMagnitude
  simp only [if_neg hne, gridExponent_grid w hpos hn hj]
  rw [mul_div_assoc, div_self hspacing, mul_one, hnearest, gridMagnitude, add_sub_cancel_left]
  rfl

/-- **The value of a magnitude rounds to that magnitude.** -/
theorem roundMagnitude_magnitudeValue (w : Width) {m : Nat} (hm : m ≤ w.infinityMagnitude) :
    roundMagnitude w (magnitudeValue w m) = m := by
  obtain ⟨j, n, rfl, hn, hj⟩ := exists_grid w m
  have hbit := w.implicitBit_pos
  by_cases hzero : n = 0
  · obtain rfl : j = 0 := by omega
    have h0 : 0 * w.implicitBit + n = 0 := by omega
    rw [h0, magnitudeValue_zero, roundMagnitude, if_pos rfl]
  · rw [magnitudeValue_grid w hn.le hj, roundMagnitude_grid w (by omega) hn hj]
    exact Nat.min_eq_right hm

/-! ## The rationals of a format -/

/-- **Whether a rational is the value of a finite number of a format.** -/
def IsRepresentable (w : Width) (q : Rat) : Prop :=
  ∃ m < w.infinityMagnitude, |q| = magnitudeValue w m

theorem isRepresentable_value {x : Word w} (h : magnitude x < w.infinityMagnitude) :
    IsRepresentable w (value x) :=
  ⟨magnitude x, h, abs_value x⟩

theorem isRepresentable_of_decode {x : Word w} {s : Bool} {q : Rat} (h : decode x = .finite s q) :
    IsRepresentable w q := by
  obtain ⟨hfinite, -, -, rfl⟩ := value_of_finite h
  exact isRepresentable_value hfinite

theorem isRepresentable_zero (w : Width) : IsRepresentable w 0 :=
  ⟨0, by cases w <;> decide, by simp⟩

theorem isRepresentable_of_abs_eq {p q : Rat} (h : IsRepresentable w p) (habs : |q| = |p|) :
    IsRepresentable w q := by
  unfold IsRepresentable at *
  rwa [habs]

theorem IsRepresentable.abs_lt {q : Rat} (h : IsRepresentable w q) :
    |q| < 2 ^ w.overflowExponent := by
  obtain ⟨m, hm, hq⟩ := h
  rw [hq, ← magnitudeValue_infinity]
  exact strictMono_magnitudeValue w hm

/-- A factor with few digits can be lengthened until it fills its block, or else until the
spacing is the least one. -/
theorem exists_magnitudeValue_eq (w : Width) {n : Nat} (hn : n ≤ 2 * w.implicitBit) (d : Nat) :
    ∃ m, magnitudeValue w m = (n : Rat) * 2 ^ (w.leastExponent + (d : Int)) := by
  induction d generalizing n with
  | zero => exact ⟨0 * w.implicitBit + n, magnitudeValue_grid w hn (.inl rfl)⟩
  | succ d ih =>
    by_cases hfull : w.implicitBit ≤ n
    · exact ⟨(d + 1) * w.implicitBit + n, magnitudeValue_grid w hn (.inr hfull)⟩
    · obtain ⟨m, hm⟩ := ih (n := 2 * n) (by omega)
      have hexp : w.leastExponent + ((d + 1 : Nat) : Int) = w.leastExponent + (d : Int) + 1 := by
        push_cast
        ring
      refine ⟨m, ?_⟩
      rw [hm, hexp, zpow_add_one₀ (by norm_num)]
      push_cast
      ring

/-- **The rationals of a format** are the multiples of powers of two with a bounded
factor, a bounded exponent and a bounded size. -/
theorem isRepresentable_iff (w : Width) (q : Rat) :
    IsRepresentable w q ↔ |q| < 2 ^ w.overflowExponent
      ∧ ∃ n : Nat, ∃ k : Int, n ≤ 2 * w.implicitBit ∧ w.leastExponent ≤ k ∧ |q| = n * 2 ^ k := by
  constructor
  · intro h
    obtain ⟨m, -, hq⟩ := id h
    obtain ⟨j, n, rfl, hn, hj⟩ := exists_grid w m
    rw [magnitudeValue_grid w hn.le hj] at hq
    exact ⟨h.abs_lt, n, _, hn.le, by omega, hq⟩
  · rintro ⟨hlt, n, k, hn, hk, hq⟩
    obtain ⟨m, hm⟩ := exists_magnitudeValue_eq w hn (k - w.leastExponent).toNat
    have hexp : w.leastExponent + ((k - w.leastExponent).toNat : Int) = k := by omega
    rw [hexp, ← hq] at hm
    rw [← hm, ← magnitudeValue_infinity, (strictMono_magnitudeValue w).lt_iff_lt] at hlt
    exact ⟨m, hlt, hm.symm⟩

/-! ## Words of exact results -/

theorem decode_ofMagnitude (s : Bool) {m : Nat} (hm : m < w.infinityMagnitude) :
    decode (ofMagnitude w s m)
      = .finite s (if s then -magnitudeValue w m else magnitudeValue w m) := by
  have hsign := hm.trans w.infinityMagnitude_lt_signBit
  rw [decode_of_finite (by rwa [magnitude_ofMagnitude s hsign]), value,
    isNegative_ofMagnitude s hsign, magnitude_ofMagnitude s hsign]

@[simp] theorem decode_infinity (w : Width) (s : Bool) : decode (infinity w s) = .infinite s := by
  have hsign := w.infinityMagnitude_lt_signBit
  rw [infinity, decode_of_infinite (magnitude_ofMagnitude s hsign), isNegative_ofMagnitude s hsign]

/-- **An exact result is not rounded.** -/
theorem decode_ofRat {q : Rat} (h : IsRepresentable w q) (s : Bool) :
    decode (ofRat w s q) = .finite (if q = 0 then s else decide (q < 0)) q := by
  obtain ⟨m, hm, hq⟩ := h
  have hround : roundMagnitude w |q| = m := by rw [hq, roundMagnitude_magnitudeValue w hm.le]
  unfold ofRat
  by_cases hzero : q = 0
  · have hpos : 0 < w.infinityMagnitude := by omega
    rw [if_pos hzero, decode_ofMagnitude s hpos, if_pos hzero, hzero]
    simp
  · rw [if_neg hzero, if_neg hzero]
    by_cases hneg : q < 0
    · rw [abs_of_neg hneg] at hround hq
      rw [if_pos hneg, hround, decode_ofMagnitude true hm, ← hq]
      simp [hneg]
    · rw [abs_of_nonneg (not_lt.mp hneg)] at hround hq
      rw [if_neg hneg, hround, decode_ofMagnitude false hm, ← hq]
      simp [hneg]

/-- The sign of a finite number agrees with its value. -/
theorem value_sign (x : Word w) :
    (isNegative x = true → value x ≤ 0) ∧ (isNegative x = false → 0 ≤ value x) := by
  have h := magnitudeValue_nonneg w (magnitude x)
  unfold value
  cases isNegative x with
  | true => simpa using h
  | false => simpa using h

/-- An exact result that does not change side keeps the sign of an operand. -/
theorem decode_ofRat_isNegative {v : Width} {q : Rat} (h : IsRepresentable v q) (x : Word w)
    (hneg : value x ≤ 0 → q ≤ 0) (hpos : 0 ≤ value x → 0 ≤ q) :
    decode (ofRat v (isNegative x) q) = .finite (isNegative x) q := by
  have hsign := value_sign x
  rw [decode_ofRat h]
  by_cases hzero : q = 0
  · rw [if_pos hzero]
  · rw [if_neg hzero]
    cases hx : isNegative x with
    | true =>
      have hq : q < 0 := lt_of_le_of_ne (hneg (hsign.1 hx)) hzero
      rw [decide_eq_true hq]
    | false =>
      have hq := hpos (hsign.2 hx)
      rw [decide_eq_false (not_lt.mpr hq)]

/-! ## The wide format has the numbers of the narrow one -/

theorem IsRepresentable.widen {q : Rat} (h : IsRepresentable .w32 q) : IsRepresentable .w64 q := by
  rw [isRepresentable_iff] at *
  obtain ⟨hlt, n, k, hn, hk, hq⟩ := h
  have hn' : n ≤ 2 * 0x800000 := hn
  have hk' : -149 ≤ k := hk
  refine ⟨hlt.trans (zpow_lt_zpow_right₀ (by norm_num) (by decide)), n, k, ?_, ?_, hq⟩
  · show n ≤ 2 * 0x10000000000000
    omega
  · show -1074 ≤ k
    omega

/-- The magnitude of infinity with a payload and the quiet bit above it is that of a NaN. -/
theorem isNaN_ofPayload (w : Width) (s : Bool) {payload : Nat} (h : payload < w.implicitBit) :
    isNaN (ofMagnitude w s (w.infinityMagnitude + (payload ||| w.quietBit))) = true := by
  have hquiet : w.quietBit ≤ payload ||| w.quietBit := Nat.right_le_or
  have hfraction : payload ||| w.quietBit < w.implicitBit := by
    rw [w.implicitBit_eq] at h ⊢
    exact Nat.or_lt_two_pow h (by cases w <;> decide)
  have hsign : w.infinityMagnitude + w.implicitBit = w.signBit := by cases w <;> rfl
  have hbit : 0 < w.quietBit := by cases w <;> decide
  rw [isNaN, magnitude_ofMagnitude _ (by omega)]
  exact decide_eq_true (by omega)

theorem isNaN_promoteNaN (x : Word .w32) : isNaN (promoteNaN x) = true := by
  apply isNaN_ofPayload
  have hmod : magnitude x % Width.implicitBit .w32 < 2 ^ 23 := Nat.mod_lt _ (by decide)
  have hbit : Width.implicitBit .w64 = 2 ^ 23 * 2 ^ 29 := rfl
  rw [Nat.shiftLeft_eq, hbit]
  omega

/-- **Promotion changes no number.** -/
theorem decode_promote (x : Word .w32) : decode (promote x) = decode x := by
  unfold promote
  obtain ⟨-, hx⟩ | ⟨-, -, hx⟩ | ⟨-, hfinite, hx⟩ := decode_cases x
  · rw [hx]
    exact decode_of_isNaN (isNaN_promoteNaN x)
  · rw [hx]
    exact decode_infinity .w64 _
  · rw [hx]
    exact decode_ofRat_isNegative (isRepresentable_value hfinite).widen x id id

/-! ## The integers next to a number -/

/-- Integers that are not longer than the significand. -/
theorem isRepresentable_intCast {i : Int} (h : i.natAbs ≤ 2 * w.implicitBit) :
    IsRepresentable w (i : Rat) := by
  have habs : |(i : Rat)| = i.natAbs := by
    rw [← Int.cast_abs, Int.abs_eq_natAbs, Int.cast_natCast]
  have hbound : (i.natAbs : Rat) ≤ 2 * w.implicitBit := by exact_mod_cast h
  have hprec : (2 : Rat) * w.implicitBit = 2 ^ (w.precision : Int) := by
    cases w <;> norm_num [Width.implicitBit, Width.precision]
  have hexp : (w.precision : Int) < w.overflowExponent := by cases w <;> decide
  have hleast : w.leastExponent ≤ 0 := by cases w <;> decide
  rw [isRepresentable_iff, habs]
  refine ⟨?_, i.natAbs, 0, h, hleast, by simp⟩
  rw [hprec] at hbound
  exact hbound.trans_lt (zpow_lt_zpow_right₀ (by norm_num) hexp)

/-- **The two integers next to a number of a format** are numbers of the format. Either
the number is an integer itself, or it is below the integers with as many digits as the
format has. -/
theorem IsRepresentable.intNeighbour {q : Rat} (h : IsRepresentable w q) {i : Int}
    (hfloor : q.floor ≤ i) (hceil : i ≤ q.ceil) : IsRepresentable w (i : Rat) := by
  obtain ⟨-, n, k, hn, -, hq⟩ := (isRepresentable_iff w q).mp h
  by_cases hk : 0 ≤ k
  · -- no digit is behind the point
    obtain ⟨z, hz⟩ : ∃ z : Int, q = z := by
      have hnat : |q| = ((n * 2 ^ k.toNat : Nat) : Rat) := by
        rw [hq]
        push_cast
        rw [← zpow_natCast, Int.toNat_of_nonneg hk]
      obtain hsame | hopp := abs_choice q
      · exact ⟨(n * 2 ^ k.toNat : Nat), by rw [← hsame, hnat, Int.cast_natCast]⟩
      · refine ⟨-(n * 2 ^ k.toNat : Nat), ?_⟩
        rw [Int.cast_neg, Int.cast_natCast, ← hnat, hopp, neg_neg]
    rw [hz, Rat.floor_intCast] at hfloor
    rw [hz, Rat.ceil_intCast] at hceil
    obtain rfl : i = z := le_antisymm hceil hfloor
    rwa [← hz]
  · have hhalf : |q| ≤ (w.implicitBit : Rat) := by
      have hn' : (n : Rat) ≤ 2 * w.implicitBit := by exact_mod_cast hn
      have hscale : (2 : Rat) ^ k ≤ 2⁻¹ := by
        rw [← zpow_neg_one]
        exact zpow_le_zpow_right₀ (by norm_num) (by omega)
      calc |q| = n * 2 ^ k := hq
        _ ≤ 2 * w.implicitBit * 2⁻¹ := by gcongr
        _ = w.implicitBit := by ring
    obtain ⟨hlow, hhigh⟩ := abs_le.mp hhalf
    have hge : -(w.implicitBit : Int) ≤ i := by
      refine le_trans (Rat.le_floor_iff.mpr ?_) hfloor
      exact_mod_cast hlow
    have hle : i ≤ w.implicitBit := by
      refine le_trans hceil (Rat.ceil_le_iff.mpr ?_)
      exact_mod_cast hhigh
    exact isRepresentable_intCast (by omega)

/-- **Rounding to a neighbouring integer is exact** and keeps the sign. -/
theorem decode_roundWith {f : Rat → Int} (hfloor : ∀ q, q.floor ≤ f q)
    (hceil : ∀ q, f q ≤ q.ceil) {x : Word w} {s : Bool} {q : Rat} (hx : decode x = .finite s q) :
    decode (roundWith f x) = .finite s (f q) := by
  obtain ⟨hfinite, -, rfl, rfl⟩ := value_of_finite hx
  have hrep := (isRepresentable_value hfinite).intNeighbour (hfloor _) (hceil _)
  rw [roundWith, hx]
  refine decode_ofRat_isNegative hrep x ?_ ?_
  · intro hneg
    exact_mod_cast (hceil _).trans (Rat.ceil_le_iff.mpr (by exact_mod_cast hneg))
  · intro hpos
    exact_mod_cast (Rat.le_floor_iff.mpr (by exact_mod_cast hpos)).trans (hfloor _)

end WasmExec.Floating
