/-
Rounding goes to the nearest number.

IEEE 754 says what an inexact result is and leaves open how it is found. Of the finite numbers
of the format it is the one nearest to the exact result, and of two that are equally near the
one whose significand ends in a zero; from half a step beyond the greatest finite number on it
is an infinity. `IsRounded` is this rule, in terms of words and the numbers that the standard
gives them. It knows no binades and counts no steps, and exactly one word meets it, the one
that `ofRat` computes (`isRounded_iff`).

The argument is about magnitudes, which are the numbers of one sign in their order. Rounding
takes the nearest integer to the rational counted in steps, so the numbers one step away on
either side are at least as far. All others are farther still, with one exception: below the
first number of a block the steps are half as long. But there the rational is not below that
number, since its binade is what chose the block.

Infinity needs no argument of its own. By the formula for values its magnitude stands for the
power of two that would follow the greatest finite number, so the number half-way to it is the
threshold of the standard, and the tie there goes to infinity because that magnitude is even.
-/
import WasmExec.Proofs.Floating.Interchange
import WasmExec.Proofs.Floating.Order

set_option autoImplicit false

namespace WasmExec

/-- **Where the infinities begin.** The greatest binade of a format begins at two to the power
`overflowExponent - 1`, and its numbers end half a step before this. -/
def Width.overflowThreshold (w : Width) : Rat :=
  2 ^ (w.overflowExponent - 1) * (2 - 2 ^ (-(w.precision : Int)))

namespace Floating

variable {w : Width}

/-! ## The rule -/

/-- Whether the significand of a word ends in a zero. The digit that a significand has and its
fraction field has not is the leading one. -/
def HasEvenSignificand (x : Word w) : Prop := (fractionField x).toNat % 2 = 0

/-- **The word that a rational is rounded to**, with the sign that the word is to have. Below
the threshold its number is finite, and every other finite number is farther from the rational,
or as far if the significand of the word is even. From the threshold on it is an infinity. -/
def IsRounded (negative : Bool) (q : Rat) (x : Word w) : Prop :=
  if |q| < w.overflowThreshold then
    ∃ v, interchange x = .finite negative v ∧
      ∀ (y : Word w) (s : Bool) (u : Rat), interchange y = .finite s u → u ≠ v →
        |v - q| < |u - q| ∨ |v - q| = |u - q| ∧ HasEvenSignificand x
  else interchange x = .infinite negative

/-- Whether a sign is one that a rational may have. Zero may have both. -/
def AgreesInSign (negative : Bool) (q : Rat) : Prop :=
  if negative then q ≤ 0 else 0 ≤ q

/-! ## Distances -/

section

variable {K : Type} [Field K] [LinearOrder K] [IsStrictOrderedRing K] {a b q : K}

/-- Of two numbers the lesser is as near if the middle between them is not passed. -/
theorem abs_sub_le_iff_middle (h : a < b) :
    |a - q| ≤ |b - q| ↔ 2 * q ≤ a + b := by
  constructor
  · intro hle
    by_contra hpast
    have hnear : |b - q| < q - a := abs_lt.mpr ⟨by linarith, by linarith⟩
    have hfar := neg_abs_le (a - q)
    linarith
  · intro hle
    have hfar := le_abs_self (b - q)
    exact abs_le.mpr ⟨by linarith, by linarith⟩

/-- The greater is as near if the middle is reached. -/
theorem abs_sub_le_iff_middle' (h : a < b) :
    |b - q| ≤ |a - q| ↔ a + b ≤ 2 * q := by
  have hmirror := abs_sub_le_iff_middle (a := -b) (b := -a) (q := -q) (neg_lt_neg h)
  rw [neg_sub_neg, neg_sub_neg, abs_sub_comm q b, abs_sub_comm q a] at hmirror
  rw [hmirror]
  constructor <;> intro hle <;> linarith

end

/-! ## The nearest integer -/

/-- Nothing is rounded by more than a half, and only to an even integer by as much. -/
theorem abs_nearestInt_sub (q : Rat) :
    2 * |(nearestInt q : Rat) - q| ≤ 1
      ∧ (2 * |(nearestInt q : Rat) - q| = 1 → nearestInt q % 2 = 0) := by
  have hfloor := Rat.floor_le q
  have hnext := Rat.lt_floor_add_one q
  push_cast at hnext
  rw [nearestInt]
  split_ifs with hup
  · have habs : |((q.floor + 1 : Int) : Rat) - q| = q.floor + 1 - q := by
      push_cast
      exact abs_of_nonneg (by linarith)
    rw [habs]
    obtain hup | ⟨htie, hodd⟩ := hup
    · exact ⟨by linarith, fun h => by linarith⟩
    · exact ⟨by linarith, fun _ => by omega⟩
  · have habs : |(q.floor : Rat) - q| = q - q.floor := by
      rw [abs_sub_comm]
      exact abs_of_nonneg (by linarith)
    rw [not_or, not_and] at hup
    rw [habs]
    exact ⟨by linarith [hup.1], fun h => by have := hup.2 h; omega⟩

/-! ## The nearest magnitude -/

/-- **One magnitude before another**: it is nearer to the rational, or as near and even. -/
def Precedes (w : Width) (q : Rat) (m k : Nat) : Prop :=
  |magnitudeValue w m - q| < |magnitudeValue w k - q|
    ∨ |magnitudeValue w m - q| = |magnitudeValue w k - q| ∧ m % 2 = 0

theorem Precedes.le {q : Rat} {m k : Nat} (h : Precedes w q m k) :
    |magnitudeValue w m - q| ≤ |magnitudeValue w k - q| :=
  h.elim le_of_lt fun htie => htie.1.le

/-- What goes before a magnitude that is as near is even. -/
theorem Precedes.even {q : Rat} {m k : Nat} (h : Precedes w q m k)
    (hle : |magnitudeValue w k - q| ≤ |magnitudeValue w m - q|) : m % 2 = 0 := by
  obtain hlt | ⟨-, heven⟩ := h
  · exact absurd hle (not_le.mpr hlt)
  · exact heven

/-- A distance of at least a length decides for what is within half of it, and within less than
half if it is odd. -/
theorem precedes_of_far {q d : Rat} {m k : Nat} (hhalf : 2 * |magnitudeValue w m - q| ≤ d)
    (heven : 2 * |magnitudeValue w m - q| = d → m % 2 = 0)
    (hfar : d ≤ |magnitudeValue w k - magnitudeValue w m|) : Precedes w q m k := by
  have htriangle := abs_sub_le (magnitudeValue w k) q (magnitudeValue w m)
  rw [abs_sub_comm q] at htriangle
  obtain hlt | heq | hgt := lt_trichotomy |magnitudeValue w m - q| |magnitudeValue w k - q|
  · exact .inl hlt
  · exact .inr ⟨heq, heven (by linarith)⟩
  · linarith

/-- A rational beyond a number is farther from all lesser ones. -/
theorem precedes_of_le {q : Rat} {m k : Nat} (hm : magnitudeValue w m ≤ q)
    (hk : magnitudeValue w k < magnitudeValue w m) : Precedes w q m k := by
  left
  rw [abs_sub_comm, abs_of_nonneg (by linarith), abs_sub_comm, abs_of_nonneg (by linarith)]
  linarith

/-- **A magnitude before all others.** The magnitude of infinity takes part. -/
def IsNearestMagnitude (w : Width) (q : Rat) (m : Nat) : Prop :=
  ∀ k ≤ w.infinityMagnitude, k ≠ m → Precedes w q m k

theorem IsNearestMagnitude.le {q : Rat} {m k : Nat} (h : IsNearestMagnitude w q m)
    (hk : k ≤ w.infinityMagnitude) : |magnitudeValue w m - q| ≤ |magnitudeValue w k - q| := by
  by_cases hkm : k = m
  · rw [hkm]
  · exact (h k hk hkm).le

/-- After so many steps the next number is at least one step further. -/
theorem magnitudeValue_add_spacing_le (w : Width) {j n : Nat} (hn : n ≤ 2 * w.implicitBit)
    (hj : j = 0 ∨ w.implicitBit ≤ n) :
    magnitudeValue w (j * w.implicitBit + n) + 2 ^ (w.leastExponent + (j : Int))
      ≤ magnitudeValue w (j * w.implicitBit + n + 1) := by
  have hspacing : (0 : Rat) < 2 ^ (w.leastExponent + (j : Int)) := by positivity
  rw [magnitudeValue_grid w hn hj]
  by_cases hlast : n < 2 * w.implicitBit
  · rw [Nat.add_assoc, magnitudeValue_grid w (by omega) (by omega)]
    push_cast
    linarith
  · -- the block is used up, and the steps of the next one are twice as long
    obtain rfl : n = 2 * w.implicitBit := by omega
    have hbit := w.implicitBit_pos
    have hindex : j * w.implicitBit + 2 * w.implicitBit + 1
        = (j + 1) * w.implicitBit + (w.implicitBit + 1) := by ring
    have hexp : w.leastExponent + ((j + 1 : Nat) : Int) = w.leastExponent + (j : Int) + 1 := by
      push_cast
      ring
    rw [hindex, magnitudeValue_grid w (by omega) (by omega), hexp, zpow_add_one₀ (by norm_num)]
    push_cast
    linarith

/-- The steps that rounding takes end within half a step of the rational, and after an even
number of them if it is the whole half. -/
theorem distance_of_steps (w : Width) {q : Rat} {j n : Nat}
    (hn : (n : Int) = nearestInt (q / 2 ^ (w.leastExponent + (j : Int))))
    (hmost : n ≤ 2 * w.implicitBit) (hfull : j = 0 ∨ w.implicitBit ≤ n) :
    2 * |magnitudeValue w (j * w.implicitBit + n) - q| ≤ 2 ^ (w.leastExponent + (j : Int))
      ∧ (2 * |magnitudeValue w (j * w.implicitBit + n) - q| = 2 ^ (w.leastExponent + (j : Int))
        → (j * w.implicitBit + n) % 2 = 0) := by
  have hspacing : (0 : Rat) < 2 ^ (w.leastExponent + (j : Int)) := by positivity
  obtain ⟨hhalf, htie⟩ := abs_nearestInt_sub (q / 2 ^ (w.leastExponent + (j : Int)))
  rw [← hn, Int.cast_natCast] at hhalf htie
  have hscale : |magnitudeValue w (j * w.implicitBit + n) - q|
      = |(n : Rat) - q / 2 ^ (w.leastExponent + (j : Int))|
        * 2 ^ (w.leastExponent + (j : Int)) := by
    rw [magnitudeValue_grid w hmost hfull, ← abs_of_pos hspacing, ← abs_mul,
      abs_of_pos hspacing, sub_mul, div_mul_cancel₀ _ hspacing.ne']
  rw [hscale, ← mul_assoc]
  refine ⟨mul_le_of_le_one_left hspacing.le hhalf, fun h => ?_⟩
  have heven := htie (mul_right_cancel₀ hspacing.ne' (h.trans (one_mul _).symm))
  have hbit : w.implicitBit % 2 = 0 := by cases w <;> rfl
  have hproduct : j * w.implicitBit % 2 = 0 := by
    rw [Nat.mul_mod, hbit, Nat.mul_zero, Nat.zero_mod]
  omega

/-- Before any overflow is cut off, the steps that rounding takes lead to a magnitude before all
others. -/
theorem precedes_of_steps (w : Width) {q : Rat} {j n : Nat}
    (hn : (n : Int) = nearestInt (q / 2 ^ (w.leastExponent + (j : Int))))
    (hmost : n ≤ 2 * w.implicitBit)
    (hblock : j = 0 ∨ (w.implicitBit : Rat) * 2 ^ (w.leastExponent + (j : Int)) ≤ q)
    {k : Nat} (hk : k ≠ j * w.implicitBit + n) : Precedes w q (j * w.implicitBit + n) k := by
  have hspacing : (0 : Rat) < 2 ^ (w.leastExponent + (j : Int)) := by positivity
  have hmono := strictMono_magnitudeValue w
  have hfull : j = 0 ∨ w.implicitBit ≤ n := by
    refine hblock.imp id fun hge => ?_
    have hle : (w.implicitBit : Int) ≤ nearestInt (q / 2 ^ (w.leastExponent + (j : Int))) :=
      le_nearestInt (by rwa [Int.cast_natCast, le_div_iff₀ hspacing])
    omega
  obtain ⟨hhalf, heven⟩ := distance_of_steps w hn hmost hfull
  obtain hbelow | habove := Nat.lt_or_gt_of_ne hk
  · by_cases hfirst : j = 0 ∨ w.implicitBit < n
    · apply precedes_of_far hhalf heven
      have hnpos : 0 < n := by
        obtain rfl | hfirst := hfirst <;> omega
      have hindex : j * w.implicitBit + (n - 1) + 1 = j * w.implicitBit + n := by omega
      have hstep := magnitudeValue_add_spacing_le w (j := j) (n := n - 1) (by omega) (by omega)
      have hle := hmono.monotone (show k ≤ j * w.implicitBit + (n - 1) by omega)
      rw [hindex] at hstep
      rw [abs_sub_comm]
      exact le_trans (by linarith) (le_abs_self _)
    · -- the first number of a block, which the rational is not below
      rw [not_or, not_lt] at hfirst
      obtain rfl : n = w.implicitBit := by omega
      have hge := hblock.resolve_left hfirst.1
      rw [← magnitudeValue_grid w hmost hfull] at hge
      exact precedes_of_le hge (hmono hbelow)
  · apply precedes_of_far hhalf heven
    have hstep := magnitudeValue_add_spacing_le w hmost hfull
    have hle := hmono.monotone (show j * w.implicitBit + n + 1 ≤ k by omega)
    exact le_trans (by linarith) (le_abs_self _)

theorem roundMagnitude_le_infinity (w : Width) (q : Rat) :
    roundMagnitude w q ≤ w.infinityMagnitude := by
  rw [roundMagnitude]
  split_ifs
  · exact Nat.zero_le _
  · exact Nat.min_le_left _ _

/-- **Rounding finds a nearest magnitude.** -/
theorem isNearestMagnitude_roundMagnitude (w : Width) {q : Rat} (hq : 0 ≤ q) :
    IsNearestMagnitude w q (roundMagnitude w q) := by
  have hmono := strictMono_magnitudeValue w
  obtain rfl | hpos := hq.eq_or_lt
  · intro k _ hk
    have hround : roundMagnitude w 0 = 0 := by rw [roundMagnitude, if_pos rfl]
    rw [hround] at hk ⊢
    have hlt := hmono (Nat.pos_of_ne_zero hk)
    rw [magnitudeValue_zero] at hlt
    left
    rw [magnitudeValue_zero, sub_zero, sub_zero, abs_zero]
    exact abs_pos_of_pos hlt
  · obtain ⟨j, n, hround, hn, hmost, hblock⟩ := roundMagnitude_steps w hpos
    have hnearest := fun k => precedes_of_steps w (k := k) hn hmost hblock
    rw [hround]
    generalize j * w.implicitBit + n = m at hnearest ⊢
    by_cases hm : m ≤ w.infinityMagnitude
    · have hmin : Nat.min w.infinityMagnitude m = m := Nat.min_eq_right hm
      rw [hmin]
      intro k _ hk
      exact hnearest k hk
    · -- past infinity the rational is past it as well, or the number before would be nearer
      have hmin : Nat.min w.infinityMagnitude m = w.infinityMagnitude :=
        Nat.min_eq_left (by omega)
      have hstep : magnitudeValue w (m - 1) < magnitudeValue w m := hmono (by omega)
      have hlast := (abs_sub_le_iff_middle' hstep).mp (hnearest (m - 1) (by omega)).le
      have hpast : magnitudeValue w w.infinityMagnitude ≤ magnitudeValue w (m - 1) :=
        hmono.monotone (by omega)
      rw [hmin]
      intro k hk hne
      exact precedes_of_le (by linarith) (hmono (by omega))

/-- **Only one magnitude is nearest.** Two would be equally near and both even, and then there
is a number between them. -/
theorem IsNearestMagnitude.unique {q : Rat} {m n : Nat} (hm : IsNearestMagnitude w q m)
    (hn : IsNearestMagnitude w q n) (hm' : m ≤ w.infinityMagnitude)
    (hn' : n ≤ w.infinityMagnitude) : m = n := by
  have hmono := strictMono_magnitudeValue w
  wlog hlt : m < n generalizing m n
  · by_contra hne
    exact hne (this hn hm hn' hm' (by omega)).symm
  have hmeven := (hm n hn' hlt.ne').even (hn.le hm')
  have hneven := (hn m hm' hlt.ne).even (hm.le hn')
  have hbetween : m + 1 < n := by omega
  -- the number after the lesser of the two is before the middle, so it should be farther
  have hmiddle := (abs_sub_le_iff_middle' (hmono hlt)).mp (hn.le hm')
  have hnext : magnitudeValue w m + magnitudeValue w (m + 1) < 2 * q := by
    linarith [hmono hbetween]
  have hle := (abs_sub_le_iff_middle (hmono m.lt_succ_self)).mp (hm.le (by omega))
  linarith

/-- **Rounding keeps the order.** -/
theorem roundMagnitude_mono (w : Width) {p q : Rat} (hp : 0 ≤ p) (h : p ≤ q) :
    roundMagnitude w p ≤ roundMagnitude w q := by
  have hmono := strictMono_magnitudeValue w
  have hpmost := roundMagnitude_le_infinity w p
  have hqmost := roundMagnitude_le_infinity w q
  have hpnear := isNearestMagnitude_roundMagnitude w hp
  have hqnear := isNearestMagnitude_roundMagnitude w (hp.trans h)
  by_contra hlt
  rw [not_le] at hlt
  -- both rationals would have to be the middle between the two magnitudes
  have hpmiddle := (abs_sub_le_iff_middle' (hmono hlt)).mp (hpnear.le hqmost)
  have hqmiddle := (abs_sub_le_iff_middle (hmono hlt)).mp (hqnear.le hpmost)
  obtain rfl : p = q := by linarith
  exact lt_irrefl _ hlt

/-! ## The threshold -/

/-- The threshold is the middle between the greatest finite number and the power of two that
would follow it. -/
theorem two_mul_overflowThreshold (w : Width) :
    2 * w.overflowThreshold
      = magnitudeValue w (w.infinityMagnitude - 1) + magnitudeValue w w.infinityMagnitude := by
  have htop : w.infinityMagnitude - 1
      = (w.topBinade - 1) * w.implicitBit + (2 * w.implicitBit - 1) := by cases w <;> rfl
  have hbit := w.implicitBit_pos
  have hexp : w.leastExponent + ((w.topBinade - 1 : Nat) : Int)
      = w.overflowExponent - w.precision := by cases w <;> rfl
  have hbits : ((2 * w.implicitBit - 1 : Nat) : Rat) = 2 ^ (w.precision : Int) - 1 := by
    cases w <;> norm_num [Width.implicitBit, Width.precision]
  have hbinade : (2 : Rat) ^ w.overflowExponent
      = 2 ^ (w.precision : Int) * 2 ^ (w.overflowExponent - (w.precision : Int)) := by
    rw [← zpow_add₀ (by norm_num)]
    congr 1
    ring
  have hhalf : (2 : Rat) ^ (w.overflowExponent - 1) * 2 = 2 ^ w.overflowExponent := by
    rw [← zpow_add_one₀ (by norm_num), sub_add_cancel]
  have hstep : (2 : Rat) ^ w.overflowExponent * 2 ^ (-(w.precision : Int))
      = 2 ^ (w.overflowExponent - (w.precision : Int)) := by
    rw [← zpow_add₀ (by norm_num), sub_eq_add_neg]
  rw [magnitudeValue_infinity, htop, magnitudeValue_grid w (by omega) (by omega), hexp, hbits,
    Width.overflowThreshold]
  calc 2 * ((2 : Rat) ^ (w.overflowExponent - 1) * (2 - 2 ^ (-(w.precision : Int))))
      = 2 ^ (w.overflowExponent - 1) * 2 * (2 - 2 ^ (-(w.precision : Int))) := by ring
    _ = 2 * 2 ^ w.overflowExponent - 2 ^ (w.overflowExponent - (w.precision : Int)) := by
      rw [hhalf, mul_sub, hstep]
      ring
    _ = (2 ^ (w.precision : Int) - 1) * 2 ^ (w.overflowExponent - (w.precision : Int))
          + 2 ^ w.overflowExponent := by
      rw [hbinade]
      ring

/-- **What reaches the threshold overflows**, and nothing else. -/
theorem IsNearestMagnitude.lt_infinity_iff {q : Rat} {m : Nat} (h : IsNearestMagnitude w q m)
    (hm : m ≤ w.infinityMagnitude) : m < w.infinityMagnitude ↔ q < w.overflowThreshold := by
  have hmono := strictMono_magnitudeValue w
  have hmiddle := two_mul_overflowThreshold w
  have hodd : (w.infinityMagnitude - 1) % 2 = 1 := by cases w <;> rfl
  have hstep : magnitudeValue w (w.infinityMagnitude - 1) < magnitudeValue w w.infinityMagnitude :=
    hmono (by omega)
  constructor
  · intro hlt
    have hle := (abs_sub_le_iff_middle (hmono hlt)).mp (h.le le_rfl)
    have hlast : magnitudeValue w m ≤ magnitudeValue w (w.infinityMagnitude - 1) :=
      hmono.monotone (by omega)
    refine lt_of_le_of_ne (by linarith) fun heq => ?_
    -- at the threshold itself the tie is with the greatest finite number, which is odd
    have htop : m = w.infinityMagnitude - 1 :=
      hmono.injective (le_antisymm hlast (by linarith))
    have hfar : |magnitudeValue w w.infinityMagnitude - q| ≤ |magnitudeValue w m - q| := by
      rw [htop, abs_sub_le_iff_middle' hstep, heq, hmiddle]
    have heven := (h w.infinityMagnitude le_rfl hlt.ne').even hfar
    omega
  · intro hlt
    refine lt_of_le_of_ne hm fun htop => ?_
    have hle := (abs_sub_le_iff_middle' hstep).mp (htop ▸ h.le (Nat.sub_le _ 1))
    linarith

theorem overflowThreshold_le (w : Width) : w.overflowThreshold ≤ 2 ^ w.overflowExponent := by
  have hmiddle := two_mul_overflowThreshold w
  have hle := (strictMono_magnitudeValue w).monotone (Nat.sub_le w.infinityMagnitude 1)
  rw [magnitudeValue_infinity] at hmiddle hle
  linarith

/-- What is beyond the threshold is rounded to infinity. -/
theorem roundMagnitude_of_overflow {q : Rat} (hq : 0 ≤ q) (h : w.overflowThreshold ≤ q) :
    roundMagnitude w q = w.infinityMagnitude := by
  have hmost := roundMagnitude_le_infinity w q
  have hfinite := (isNearestMagnitude_roundMagnitude w hq).lt_infinity_iff hmost
  by_contra hne
  exact absurd (hfinite.mp (lt_of_le_of_ne hmost hne)) (not_lt.mpr h)

/-! ## Words -/

theorem agreesInSign_value (x : Word w) : AgreesInSign (isNegative x) (value x) := by
  have hsign := value_sign x
  unfold AgreesInSign
  split
  · next hneg => exact hsign.1 hneg
  · next hpos => exact hsign.2 (Bool.eq_false_iff.mpr hpos)

theorem agreesInSign_decide (q : Rat) : AgreesInSign (decide (q < 0)) q := by
  by_cases h : q < 0
  · rw [decide_eq_true h]
    exact h.le
  · rw [decide_eq_false h]
    exact not_lt.mp h

/-- The last bit of a magnitude is that of the significand. -/
theorem hasEvenSignificand_iff (x : Word w) : HasEvenSignificand x ↔ magnitude x % 2 = 0 := by
  have hbit : w.implicitBit % 2 = 0 := by cases w <;> rfl
  have hproduct : (exponentField x).toNat * w.implicitBit % 2 = 0 := by
    rw [Nat.mul_mod, hbit, Nat.mul_zero, Nat.zero_mod]
  rw [HasEvenSignificand, magnitude_eq_fields]
  omega

/-- Between numbers of one sign the sign does not matter for the distance. -/
theorem abs_sub_of_agreesInSign {s : Bool} {p q : Rat} (hp : AgreesInSign s p)
    (hq : AgreesInSign s q) : |p - q| = |(|p|) - (|q|)| := by
  cases s with
  | false =>
    have hp' : 0 ≤ p := hp
    have hq' : 0 ≤ q := hq
    rw [abs_of_nonneg hp', abs_of_nonneg hq']
  | true =>
    have hp' : p ≤ 0 := hp
    have hq' : q ≤ 0 := hq
    rw [abs_of_nonpos hp', abs_of_nonpos hq', neg_sub_neg, abs_sub_comm]

/-- A word is known by its sign and its magnitude. -/
theorem eq_of_magnitude {x y : Word w} (hsign : isNegative x = isNegative y)
    (hmagnitude : magnitude x = magnitude y) : x = y := by
  rw [← ofMagnitude_self x, ← ofMagnitude_self y, hsign, hmagnitude]

/-- Every magnitude before that of infinity is the one of a number of each sign. -/
theorem exists_of_lt_infinity (negative : Bool) {k : Nat} (hk : k < w.infinityMagnitude) :
    ∃ (y : Word w) (u : Rat), interchange y = .finite negative u ∧ AgreesInSign negative u
      ∧ |u| = magnitudeValue w k := by
  have hy := decode_ofMagnitude (w := w) negative hk
  obtain ⟨-, -, hnegative, hvalue⟩ := value_of_finite hy
  have hsign := agreesInSign_value (ofMagnitude w negative k)
  have habs := abs_value (ofMagnitude w negative k)
  rw [magnitude_ofMagnitude _ (hk.trans w.infinityMagnitude_lt_signBit)] at habs
  rw [hnegative, hvalue] at hsign
  rw [hvalue] at habs
  rw [decode_eq_interchange] at hy
  exact ⟨_, _, hy, hsign, habs⟩

/-- Before the threshold infinity is no rival, since the greatest finite number is nearer. -/
theorem isNearestMagnitude_of_finite {q : Rat} {m : Nat} (hq : q < w.overflowThreshold)
    (hm : m < w.infinityMagnitude)
    (h : ∀ k < w.infinityMagnitude, k ≠ m → Precedes w q m k) : IsNearestMagnitude w q m := by
  intro k hk hne
  obtain hk | rfl := hk.lt_or_eq
  · exact h k hk hne
  · have hstep : magnitudeValue w (w.infinityMagnitude - 1)
        < magnitudeValue w w.infinityMagnitude := strictMono_magnitudeValue w (by omega)
    have hlast : |magnitudeValue w m - q| ≤ |magnitudeValue w (w.infinityMagnitude - 1) - q| := by
      by_cases htop : w.infinityMagnitude - 1 = m
      · rw [htop]
      · exact (h _ (by omega) htop).le
    left
    refine hlast.trans_lt ?_
    rw [← not_le, abs_sub_le_iff_middle' hstep, ← two_mul_overflowThreshold]
    linarith

/-- From the rule to magnitudes. Only numbers of the same sign are compared with the word, and
for these the magnitudes decide. -/
theorem IsRounded.nearest {negative : Bool} {q : Rat} {x : Word w} (hsign : AgreesInSign negative q)
    (h : IsRounded negative q x) :
    isNegative x = negative ∧ magnitude x ≤ w.infinityMagnitude
      ∧ IsNearestMagnitude w |q| (magnitude x) := by
  unfold IsRounded at h
  split_ifs at h with hfinite
  · obtain ⟨v, hx, hnear⟩ := h
    rw [← decode_eq_interchange] at hx
    obtain ⟨hlt, -, rfl, rfl⟩ := value_of_finite hx
    have hdistance := abs_sub_of_agreesInSign (agreesInSign_value x) hsign
    refine ⟨rfl, hlt.le, isNearestMagnitude_of_finite hfinite hlt fun k hk hne => ?_⟩
    obtain ⟨y, u, hy, husign, hu⟩ := exists_of_lt_infinity (w := w) (isNegative x) hk
    have hother := abs_sub_of_agreesInSign husign hsign
    rw [abs_value] at hdistance
    rw [hu] at hother
    rw [Precedes, ← hdistance, ← hother, ← hasEvenSignificand_iff]
    refine hnear y _ u hy fun heq => hne ?_
    rw [heq, abs_value] at hu
    exact (strictMono_magnitudeValue w).injective hu.symm
  · rw [← decode_eq_interchange] at h
    have hnearest := isNearestMagnitude_roundMagnitude w (abs_nonneg q)
    rw [roundMagnitude_of_overflow (abs_nonneg q) (not_lt.mp hfinite)] at hnearest
    obtain ⟨-, hx⟩ | ⟨-, htop, hx⟩ | ⟨-, -, hx⟩ := decode_cases x
    · simp [hx] at h
    · obtain rfl : isNegative x = negative := by simpa [hx] using h
      exact ⟨rfl, htop.le, htop ▸ hnearest⟩
    · simp [hx] at h

/-- The opposite of a number other than zero is on the far side of zero, and so no nearer. -/
theorem lt_abs_sub_opposite {v q : Rat} {s : Bool} (hv : AgreesInSign s v) (hq : AgreesInSign s q)
    (hne : -v ≠ v) : |q| < |-v - q| := by
  have hpos : 0 < |v| := by
    rw [abs_pos]
    rintro rfl
    exact hne neg_zero
  have hsum : |v + q| = |v| + |q| := by
    rw [abs_add_eq_add_abs_iff]
    unfold AgreesInSign at hv hq
    split_ifs at hv hq
    · exact .inr ⟨hv, hq⟩
    · exact .inl ⟨hv, hq⟩
  rw [← neg_add', abs_neg, hsum]
  linarith

/-- From magnitudes to the rule: a number of the other sign is not nearer than the number of
the same magnitude and the right sign. -/
theorem IsNearestMagnitude.isRounded {q : Rat} {x : Word w}
    (hsign : AgreesInSign (isNegative x) q) (hmost : magnitude x ≤ w.infinityMagnitude)
    (h : IsNearestMagnitude w |q| (magnitude x)) : IsRounded (isNegative x) q x := by
  have hthreshold := h.lt_infinity_iff hmost
  unfold IsRounded
  split_ifs with hfinite
  · rw [← hthreshold] at hfinite
    refine ⟨value x, by rw [← decode_eq_interchange, decode_of_finite hfinite], ?_⟩
    intro y s u hy hne
    rw [← decode_eq_interchange] at hy
    obtain ⟨hlt, -, -, rfl⟩ := value_of_finite hy
    have hdistance := abs_sub_of_agreesInSign (agreesInSign_value x) hsign
    have hother := abs_abs_sub_abs_le (value y) q
    rw [abs_value] at hdistance hother
    rw [hdistance, hasEvenSignificand_iff]
    by_cases hsame : magnitude y = magnitude x
    · have habs : |value y| = |value x| := by rw [abs_value, abs_value, hsame]
      have hopposite : value y = -value x := (abs_eq_abs.mp habs).resolve_left hne
      rw [hopposite] at hne ⊢
      have hzero := h.le (Nat.zero_le _)
      rw [magnitudeValue_zero, zero_sub, abs_neg, abs_abs] at hzero
      exact .inl (hzero.trans_lt (lt_abs_sub_opposite (agreesInSign_value x) hsign hne))
    · obtain hfar | ⟨heq, heven⟩ := h _ hlt.le hsame
      · exact .inl (hfar.trans_le hother)
      · rw [← heq] at hother
        exact hother.lt_or_eq.imp id fun h' => ⟨h', heven⟩
  · rw [← hthreshold] at hfinite
    rw [← decode_eq_interchange, decode_of_infinite (by omega)]

/-- The word nearest to a rational by its magnitude. -/
theorem ofRat_eq_ofMagnitude {negative : Bool} {q : Rat} (hsign : AgreesInSign negative q) :
    ofRat w negative q = ofMagnitude w negative (roundMagnitude w |q|) := by
  rw [ofRat]
  by_cases hzero : q = 0
  · rw [if_pos hzero, hzero, abs_zero, roundMagnitude, if_pos rfl]
  · rw [if_neg hzero]
    cases negative with
    | false =>
      have hnonneg : 0 ≤ q := hsign
      rw [if_neg (not_lt.mpr hnonneg), abs_of_nonneg hnonneg]
    | true =>
      have hneg : q < 0 := lt_of_le_of_ne hsign hzero
      rw [if_pos hneg, abs_of_neg hneg]

/-- **Exactly one word meets the rule**, and rounding finds it. -/
theorem isRounded_iff {negative : Bool} {q : Rat} (hsign : AgreesInSign negative q) (x : Word w) :
    IsRounded negative q x ↔ x = ofRat w negative q := by
  have hmost := roundMagnitude_le_infinity w |q|
  have hsigned := hmost.trans_lt w.infinityMagnitude_lt_signBit
  have hnearest := isNearestMagnitude_roundMagnitude w (abs_nonneg q)
  rw [ofRat_eq_ofMagnitude hsign]
  constructor
  · intro h
    obtain ⟨hnegative, hmost', hnearest'⟩ := h.nearest hsign
    apply eq_of_magnitude
    · rw [isNegative_ofMagnitude _ hsigned, hnegative]
    · rw [magnitude_ofMagnitude _ hsigned]
      exact hnearest'.unique hnearest hmost' hmost
  · rintro rfl
    have hnegative : isNegative (ofMagnitude w negative (roundMagnitude w |q|)) = negative :=
      isNegative_ofMagnitude _ hsigned
    have hrounded : IsRounded (isNegative (ofMagnitude w negative (roundMagnitude w |q|))) q
        (ofMagnitude w negative (roundMagnitude w |q|)) := by
      apply IsNearestMagnitude.isRounded
      · rwa [hnegative]
      · rwa [magnitude_ofMagnitude _ hsigned]
      · rwa [magnitude_ofMagnitude _ hsigned]
    rwa [hnegative] at hrounded

/-! ## Order of words -/

/-- **Rounding to words keeps the order**, and never gives a NaN. -/
theorem le_ofRat {s t : Bool} {p q : Rat} (hp : AgreesInSign s p) (hq : AgreesInSign t q)
    (h : p ≤ q) : le (ofRat w s p) (ofRat w t q) = true := by
  have hpmost := roundMagnitude_le_infinity w |p|
  have hqmost := roundMagnitude_le_infinity w |q|
  have hpsigned := hpmost.trans_lt w.infinityMagnitude_lt_signBit
  have hqsigned := hqmost.trans_lt w.infinityMagnitude_lt_signBit
  have hmono := (strictMono_magnitudeValue w).monotone
  have hpnonneg := magnitudeValue_nonneg w (roundMagnitude w |p|)
  have hqnonneg := magnitudeValue_nonneg w (roundMagnitude w |q|)
  rw [ofRat_eq_ofMagnitude hp, ofRat_eq_ofMagnitude hq, le_iff, isNaN, isNaN, value, value,
    magnitude_ofMagnitude _ hpsigned, magnitude_ofMagnitude _ hqsigned,
    isNegative_ofMagnitude _ hpsigned, isNegative_ofMagnitude _ hqsigned]
  refine ⟨decide_eq_false (not_lt.mpr hpmost), decide_eq_false (not_lt.mpr hqmost), ?_⟩
  unfold AgreesInSign at hp hq
  split_ifs at hp hq ⊢
  · -- below zero the greater number has the lesser magnitude
    rw [abs_of_nonpos hp, abs_of_nonpos hq]
    exact neg_le_neg (hmono (roundMagnitude_mono w (neg_nonneg.mpr hq) (neg_le_neg h)))
  · linarith
  · -- both numbers are zero
    obtain rfl : p = 0 := le_antisymm (h.trans hq) hp
    obtain rfl : q = 0 := le_antisymm hq h
    have hzero : roundMagnitude w |0| = 0 := by rw [abs_zero, roundMagnitude, if_pos rfl]
    rw [hzero, magnitudeValue_zero, neg_zero]
  · rw [abs_of_nonneg hp, abs_of_nonneg hq]
    exact hmono (roundMagnitude_mono w hp h)

end Floating

end WasmExec
