/-
Square roots are rounded correctly.

The root of a number is seldom rational, and the library never forms it. It compares squares: a
number is past the root exactly if its square is past the operand, so which of two neighbouring
numbers is nearer to the root is decided by the square of the middle between them. Here the same is
done in the other direction. The middles next to the result are shown to lie on the right sides of
the root, by their squares (`roundSqrtMagnitude_middles`), and only at the end is the root a real
number.

Three facts make the result as good as it is. The root is in the middle of the range of the format,
so its spacing is never the least one and nothing overflows. It has at least as many digits as the
format has. And it is never the middle between two numbers of the format: a middle is an odd
multiple of half a spacing, its square has too many digits for the format, and the operand has not.
So there are no ties, and the result is nearer than every other number.
-/
import WasmExec.Proofs.Floating.Nearest
import Mathlib.Analysis.SpecialFunctions.Sqrt

set_option autoImplicit false

namespace WasmExec.Floating

variable {w : Width}

/-! ## The integer part -/

/-- Each digit halves the range that the root is known to lie in. -/
theorem sqrtDigits_spec {n bits root : Nat} (hle : root * root ≤ n)
    (hlt : n < (root + 2 ^ bits) * (root + 2 ^ bits)) :
    sqrtDigits n bits root * sqrtDigits n bits root ≤ n
      ∧ n < (sqrtDigits n bits root + 1) * (sqrtDigits n bits root + 1) := by
  induction bits generalizing root with
  | zero => exact ⟨hle, hlt⟩
  | succ bits ih =>
    rw [sqrtDigits, Nat.one_shiftLeft]
    split_ifs with hraised
    · have hend : root + 2 ^ (bits + 1) = root + 2 ^ bits + 2 ^ bits := by ring
      rw [hend] at hlt
      exact ih hraised hlt
    · exact ih hle (not_le.mp hraised)

theorem natSqrt_eq (n : Nat) : natSqrt n = Nat.sqrt n := by
  rw [Nat.eq_sqrt]
  apply sqrtDigits_spec (Nat.zero_le n)
  have hpower : n < 2 ^ (n.log2 + 1) := Nat.lt_log2_self
  have hdigits : 2 ^ (n.log2 + 1) ≤ 2 ^ (n.log2 / 2 + 1 + (n.log2 / 2 + 1)) :=
    Nat.pow_le_pow_right (by decide) (by omega)
  rw [Nat.zero_add, ← Nat.pow_add]
  exact hpower.trans_le hdigits

/-! ## The nearest integer -/

/-- The integer part of a root, by squares. -/
theorem natSqrt_spec {q : Rat} (hq : 0 ≤ q) :
    (natSqrt q.floor.toNat : Rat) ^ 2 ≤ q ∧ q < (natSqrt q.floor.toNat + 1 : Rat) ^ 2 := by
  have hnonneg : 0 ≤ q.floor := Rat.le_floor_iff.mpr (by exact_mod_cast hq)
  have hfloor : (q.floor.toNat : Rat) = q.floor := by
    exact_mod_cast Int.toNat_of_nonneg hnonneg
  have hle := Rat.floor_le q
  have hlt := Rat.lt_floor_add_one q
  push_cast at hlt
  rw [natSqrt_eq]
  constructor
  · have hroot : ((Nat.sqrt q.floor.toNat ^ 2 : Nat) : Rat) ≤ q.floor.toNat := by
      exact_mod_cast Nat.sqrt_le' _
    push_cast at hroot
    linarith
  · have hnext : ((q.floor.toNat + 1 : Nat) : Rat) ≤ ((Nat.sqrt q.floor.toNat + 1) ^ 2 : Nat) := by
      exact_mod_cast Nat.lt_succ_sqrt' _
    push_cast at hnext
    linarith

/-- The squares of the two middles next to the integer that is nearest to a root. -/
theorem nearestSqrt_spec {q : Rat} (hq : 1 ≤ q) :
    (2 * (nearestSqrt q : Rat) - 1) ^ 2 ≤ 4 * q ∧ 4 * q ≤ (2 * (nearestSqrt q : Rat) + 1) ^ 2 := by
  obtain ⟨hroot, hnext⟩ := natSqrt_spec (by linarith : 0 ≤ q)
  rw [nearestSqrt]
  generalize natSqrt q.floor.toNat = s at hroot hnext ⊢
  have hpos : (0 : Rat) ≤ s := Nat.cast_nonneg s
  push_cast
  split_ifs with hpast
  · -- the root is past the middle behind its integer part, and not past the next integer
    have hmiddle : (2 * (s : Rat) + 1) * (2 * s + 1) ≤ 4 * q :=
      hpast.elim le_of_lt fun h => h.1.le
    constructor <;> nlinarith
  · -- the middle in front has to be below the root, which would fail at an integer part of zero
    rw [not_or, not_lt] at hpast
    have hone : (1 : Rat) ≤ s := by
      have hlt : (1 : Rat) < (s + 1) ^ 2 := hq.trans_lt hnext
      have hnat : 1 < (s + 1) ^ 2 := by exact_mod_cast hlt
      have hs : s ≠ 0 := by
        rintro rfl
        exact absurd hnat (by decide)
      exact_mod_cast Nat.one_le_iff_ne_zero.mpr hs
    constructor
    · nlinarith
    · linarith [hpast.1, sq (2 * (s : Rat) + 1)]

/-- What is between the squares of a number and of twice the number has its nearest integer between
the two. -/
theorem nearestSqrt_range {q : Rat} {b : Nat} (hb : 1 ≤ b) (hge : (b : Rat) ^ 2 ≤ q)
    (hlt : q < (2 * b) ^ 2) : b ≤ nearestSqrt q ∧ nearestSqrt q ≤ 2 * b := by
  have hone : (1 : Rat) ≤ b := by exact_mod_cast hb
  have hnonneg : (0 : Rat) ≤ nearestSqrt q := Nat.cast_nonneg _
  obtain ⟨hbelow, habove⟩ := nearestSqrt_spec (q := q) (by nlinarith)
  -- an integer outside would have both middles next to it on one side of the root
  constructor
  · by_contra hless
    have hcast : (nearestSqrt q : Rat) + 1 ≤ b := by exact_mod_cast not_le.mp hless
    nlinarith
  · by_contra hmore
    have hcast : 2 * (b : Rat) + 1 ≤ nearestSqrt q := by exact_mod_cast not_le.mp hmore
    nlinarith

/-! ## The range of a root -/

theorem two_zpow_sq (e : Int) : ((2 : Rat) ^ e) ^ 2 = 2 ^ (2 * e) := by
  rw [← zpow_natCast, ← zpow_mul, mul_comm]
  rfl

/-- The numbers of a format are in the binades between its least exponent and where it overflows. -/
theorem IsRepresentable.floorLog2_range {q : Rat} (h : IsRepresentable w q) (hpos : 0 < q) :
    w.leastExponent ≤ floorLog2 q ∧ floorLog2 q < w.overflowExponent := by
  obtain ⟨hlt, n, k, -, hk, hq⟩ := (isRepresentable_iff w q).mp h
  rw [abs_of_pos hpos] at hlt hq
  have hn : n ≠ 0 := by
    rintro rfl
    rw [hq, Nat.cast_zero, zero_mul] at hpos
    exact lt_irrefl 0 hpos
  have hge := (floorLog2_spec hpos).1
  constructor
  · rw [hq, floorLog2_scaled (Nat.pos_of_ne_zero hn)]
    omega
  · exact (zpow_lt_zpow_iff_right₀ (by norm_num)).mp (hge.trans_lt hlt)

/-- The spacing around a root, and the binade that the root is in, by squares. -/
theorem exists_root_grid {q : Rat} (h : IsRepresentable w q) (hpos : 0 < q) :
    ∃ j : Nat, gridExponent w (floorLog2 q / 2) = w.leastExponent + (j : Int)
      ∧ j + 2 ≤ w.topBinade
      ∧ (w.implicitBit * (2 : Rat) ^ (w.leastExponent + (j : Int))) ^ 2 ≤ q
      ∧ q < (2 * w.implicitBit * (2 : Rat) ^ (w.leastExponent + (j : Int))) ^ 2 := by
  obtain ⟨hleast, hoverflow⟩ := h.floorLog2_range hpos
  obtain ⟨hge, hlt⟩ := floorLog2_spec hpos
  have hprecision : 0 < w.precision := by cases w <;> decide
  obtain ⟨j, hgrid, hexp, htop⟩ : ∃ j : Nat,
      gridExponent w (floorLog2 q / 2) = w.leastExponent + (j : Int)
        ∧ floorLog2 q / 2 = ((w.precision - 1 : Nat) : Int) + (w.leastExponent + (j : Int))
        ∧ j + 2 ≤ w.topBinade := by
    refine ⟨(gridExponent w (floorLog2 q / 2) - w.leastExponent).toNat, ?_⟩
    unfold gridExponent
    cases w <;> simp only [Width.leastExponent, Width.precision, Width.overflowExponent,
      Width.topBinade] at hleast hoverflow ⊢ <;> omega
  have hbinade : (w.implicitBit : Rat) * 2 ^ (w.leastExponent + (j : Int))
      = 2 ^ (floorLog2 q / 2) := by
    rw [hexp, zpow_add₀ (by norm_num) ((w.precision - 1 : Nat) : Int), zpow_natCast,
      w.implicitBit_eq]
    push_cast
    rfl
  -- halving the exponent loses at most one, which is the factor of two in the upper bound
  refine ⟨j, hgrid, htop, ?_, ?_⟩
  · rw [hbinade, two_zpow_sq]
    exact (zpow_le_zpow_right₀ (by norm_num) (by omega)).trans hge
  · rw [mul_assoc, hbinade, mul_comm, ← zpow_add_one₀ (by norm_num), two_zpow_sq]
    exact hlt.trans_le (zpow_le_zpow_right₀ (by norm_num) (by omega))

/-- **The steps that a root is rounded to.** There are as many as the format has digits for, and
the squares of the two middles next to the result are on either side of the operand. -/
theorem roundSqrtMagnitude_steps {q : Rat} (h : IsRepresentable w q) (hpos : 0 < q) :
    ∃ j n : Nat, roundSqrtMagnitude w q = j * w.implicitBit + n
      ∧ j * w.implicitBit + n < w.infinityMagnitude
      ∧ w.implicitBit ≤ n ∧ n ≤ 2 * w.implicitBit
      ∧ (w.implicitBit * (2 : Rat) ^ (w.leastExponent + (j : Int))) ^ 2 ≤ q
      ∧ ((2 * n - 1) * (2 : Rat) ^ (w.leastExponent + (j : Int))) ^ 2 ≤ 4 * q
      ∧ 4 * q ≤ ((2 * n + 1) * (2 : Rat) ^ (w.leastExponent + (j : Int))) ^ 2 := by
  obtain ⟨j, hgrid, htop, hge, hlt⟩ := exists_root_grid h hpos
  have hspacing : (0 : Rat) < (2 ^ (w.leastExponent + (j : Int))) ^ 2 := by positivity
  have hfour : (4 : Rat) ^ (w.leastExponent + (j : Int))
      = (2 ^ (w.leastExponent + (j : Int))) ^ 2 := by
    rw [two_zpow_sq, zpow_mul]
    norm_num
  -- counted in steps, the operand is between the squares of the two ends of the range
  obtain ⟨p, hp⟩ : ∃ p, p = q / (2 ^ (w.leastExponent + (j : Int))) ^ 2 := ⟨_, rfl⟩
  have hq : p * (2 ^ (w.leastExponent + (j : Int))) ^ 2 = q := by
    rw [hp, div_mul_cancel₀ _ hspacing.ne']
  rw [← hq, mul_pow] at hge hlt
  have hlow := le_of_mul_le_mul_right hge hspacing
  have hhigh := lt_of_mul_lt_mul_right hlt hspacing.le
  have hbit : (1 : Rat) ≤ w.implicitBit := by exact_mod_cast w.implicitBit_pos
  obtain ⟨hbelow, habove⟩ := nearestSqrt_spec (q := p) (by nlinarith)
  obtain ⟨hfull, hmost⟩ := nearestSqrt_range w.implicitBit_pos hlow hhigh
  have hfinite : j * w.implicitBit + nearestSqrt p < w.infinityMagnitude := by
    have hblocks := Nat.mul_le_mul_right w.implicitBit htop
    have hpositive := w.implicitBit_pos
    rw [Nat.add_mul] at hblocks
    rw [w.infinityMagnitude_eq]
    omega
  refine ⟨j, nearestSqrt p, ?_, hfinite, hfull, hmost, ?_, ?_, ?_⟩
  · rw [roundSqrtMagnitude, hgrid, hfour, ← hp, gridMagnitude, add_sub_cancel_left]
    exact Nat.min_eq_right hfinite.le
  · rw [← hq, mul_pow]
    exact hge
  · rw [← hq, mul_pow, ← mul_assoc]
    exact mul_le_mul_of_nonneg_right hbelow hspacing.le
  · rw [← hq, mul_pow, ← mul_assoc]
    exact mul_le_mul_of_nonneg_right habove hspacing.le

/-! ## No ties -/

/-- Powers of two on both sides leave a power of two on one. -/
theorem eq_mul_two_pow {b c t : Nat} {e f : Int} (hf : f = e + t)
    (h : (b : Rat) * 2 ^ e = c * 2 ^ f) : b = c * 2 ^ t := by
  rw [hf, zpow_add₀ (by norm_num), zpow_natCast, mul_comm (2 ^ e) ((2 : Rat) ^ t),
    ← mul_assoc] at h
  have hcast := mul_right_cancel₀ (by positivity) h
  exact_mod_cast hcast

/-- **No root is a middle.** The square of an odd number has no factor of two to give away, so a
number with that square has all its digits, and these are too many. -/
theorem IsRepresentable.four_mul_ne_sq {q : Rat} (h : IsRepresentable w q) (hpos : 0 < q)
    {a : Nat} (hodd : a % 2 = 1) (hlong : 2 * w.implicitBit < a ^ 2) (k : Int) :
    4 * q ≠ (a * 2 ^ k) ^ 2 := by
  intro heq
  obtain ⟨-, n, i, hn, -, hq⟩ := (isRepresentable_iff w q).mp h
  rw [abs_of_pos hpos] at hq
  have hoddsq : a ^ 2 % 2 = 1 := by rw [Nat.pow_mod, hodd]
  have hexact : (n : Rat) * 2 ^ (i + 2) = a ^ 2 * 2 ^ (2 * k) := by
    calc (n : Rat) * 2 ^ (i + 2) = 4 * (n * 2 ^ i) := by
          rw [zpow_add₀ (by norm_num)]
          norm_num
          ring
      _ = a ^ 2 * 2 ^ (2 * k) := by rw [← hq, heq, mul_pow, two_zpow_sq]
  rcases le_or_gt (i + 2) (2 * k) with hk | hk
  · -- the digits of the square and zeros behind them
    obtain ⟨t, ht⟩ : ∃ t : Nat, 2 * k = i + 2 + t := ⟨(2 * k - (i + 2)).toNat, by omega⟩
    have hdigits : n = a ^ 2 * 2 ^ t := eq_mul_two_pow ht (by exact_mod_cast hexact)
    have hmore := Nat.le_mul_of_pos_right (a ^ 2) (Nat.two_pow_pos t)
    omega
  · -- the square would be even
    obtain ⟨t, ht⟩ : ∃ t : Nat, i + 2 = 2 * k + (t + 1 : Nat) :=
      ⟨(i + 2 - 2 * k - 1).toNat, by omega⟩
    have hdigits : a ^ 2 = n * 2 ^ (t + 1) := eq_mul_two_pow ht (by exact_mod_cast hexact.symm)
    rw [pow_succ 2, ← Nat.mul_assoc] at hdigits
    omega

/-! ## The nearest number -/

/-- **The middles are on the right sides of the root.** The sum of the result and another number is
twice the middle between them, and its square is compared with that of twice the root. -/
theorem roundSqrtMagnitude_middles {q : Rat} (h : IsRepresentable w q) (hpos : 0 < q) :
    roundSqrtMagnitude w q < w.infinityMagnitude
      ∧ (∀ k < roundSqrtMagnitude w q,
        (magnitudeValue w k + magnitudeValue w (roundSqrtMagnitude w q)) ^ 2 < 4 * q)
      ∧ ∀ k, roundSqrtMagnitude w q < k →
        4 * q < (magnitudeValue w (roundSqrtMagnitude w q) + magnitudeValue w k) ^ 2 := by
  obtain ⟨j, n, hround, hfinite, hfull, hmost, hbinade, hbelow, habove⟩ :=
    roundSqrtMagnitude_steps h hpos
  have hspacing : (0 : Rat) < 2 ^ (w.leastExponent + (j : Int)) := by positivity
  have hbit := w.implicitBit_pos
  have hmono := strictMono_magnitudeValue w
  have hnonneg := magnitudeValue_nonneg w
  have hresult := magnitudeValue_grid w hmost (.inr hfull : j = 0 ∨ w.implicitBit ≤ n)
  have hlong : ∀ a, 2 * w.implicitBit < a → 2 * w.implicitBit < a ^ 2 := fun a ha =>
    ha.trans_le (Nat.le_self_pow (by decide) a)
  rw [hround]
  refine ⟨hfinite, fun k hk => ?_, fun k hk => ?_⟩
  · obtain hinside | rfl := hfull.lt_or_eq
    · have hlast : magnitudeValue w k ≤ (n - 1) * 2 ^ (w.leastExponent + (j : Int)) := by
        have hle := hmono.monotone (show k ≤ j * w.implicitBit + (n - 1) by omega)
        rwa [magnitudeValue_grid w (by omega) (by omega), Nat.cast_sub (by omega),
          Nat.cast_one] at hle
      have hne := h.four_mul_ne_sq hpos (a := 2 * n - 1) (by omega) (hlong _ (by omega))
        (w.leastExponent + (j : Int))
      rw [Nat.cast_sub (by omega)] at hne
      push_cast at hne
      refine lt_of_le_of_lt (pow_le_pow_left₀ (add_nonneg (hnonneg _) (hnonneg _)) ?_ 2)
        (lt_of_le_of_ne hbelow hne.symm)
      rw [hresult]
      linarith
    · -- at the first number of a binade the steps below are shorter, and the root is not below
      have hlast := hmono hk
      rw [← hresult] at hbinade
      have hnext := hnonneg k
      nlinarith
  · have hnext : (n + 1) * 2 ^ (w.leastExponent + (j : Int)) ≤ magnitudeValue w k := by
      have hstep := magnitudeValue_add_spacing_le w hmost (.inr hfull : j = 0 ∨ w.implicitBit ≤ n)
      have hle := hmono.monotone (show j * w.implicitBit + n + 1 ≤ k by omega)
      rw [hresult] at hstep
      linarith
    have hne := h.four_mul_ne_sq hpos (a := 2 * n + 1) (by omega) (hlong _ (by omega))
      (w.leastExponent + (j : Int))
    push_cast at hne
    refine lt_of_lt_of_le (lt_of_le_of_ne habove hne) (pow_le_pow_left₀ (by positivity) ?_ 2)
    rw [hresult]
    linarith

/-- **The result is nearer to the root than every other magnitude.** -/
theorem abs_sub_sqrt_lt {q : Rat} (h : IsRepresentable w q) (hpos : 0 < q) {k : Nat}
    (hk : k ≠ roundSqrtMagnitude w q) :
    |(magnitudeValue w (roundSqrtMagnitude w q) : ℝ) - √(q : ℝ)|
      < |(magnitudeValue w k : ℝ) - √(q : ℝ)| := by
  obtain ⟨-, hbelow, habove⟩ := roundSqrtMagnitude_middles h hpos
  have hmono := strictMono_magnitudeValue w
  have hroot : (2 * √(q : ℝ)) ^ 2 = ((4 * q : Rat) : ℝ) := by
    rw [mul_pow, Real.sq_sqrt (by exact_mod_cast hpos.le)]
    push_cast
    ring
  rw [← not_le]
  obtain hlt | hgt := Nat.lt_or_gt_of_ne hk
  · rw [abs_sub_le_iff_middle (by exact_mod_cast hmono hlt), not_le]
    refine lt_of_pow_lt_pow_left₀ 2 (by positivity) ?_
    rw [hroot]
    exact_mod_cast hbelow k hlt
  · rw [abs_sub_le_iff_middle' (by exact_mod_cast hmono hgt), not_le]
    have hnonneg : (0 : ℝ) ≤ magnitudeValue w (roundSqrtMagnitude w q) + magnitudeValue w k := by
      exact_mod_cast add_nonneg (magnitudeValue_nonneg w _) (magnitudeValue_nonneg w k)
    refine lt_of_pow_lt_pow_left₀ 2 hnonneg ?_
    rw [hroot]
    exact_mod_cast habove k hgt

/-- **The root of a number is the number nearest to it.** -/
theorem decode_sqrt {x : Word w} {q : Rat} (h : decode x = .finite false q) (hpos : 0 < q) :
    ∃ v, decode (sqrt x) = .finite false v ∧
      ∀ (y : Word w) (s : Bool) (u : Rat), decode y = .finite s u → u ≠ v →
        |(v : ℝ) - √(q : ℝ)| < |(u : ℝ) - √(q : ℝ)| := by
  have hrepresentable := isRepresentable_of_decode h
  have hfinite := (roundSqrtMagnitude_middles hrepresentable hpos).1
  have hsqrt : sqrt x = ofMagnitude w false (roundSqrtMagnitude w q) := by
    rw [sqrt, h]
    exact (if_neg hpos.ne').trans (if_neg Bool.false_ne_true)
  refine ⟨magnitudeValue w (roundSqrtMagnitude w q), ?_, fun y s u hy hne => ?_⟩
  · rw [hsqrt, decode_ofMagnitude false hfinite]
    rfl
  obtain ⟨-, -, -, rfl⟩ := value_of_finite hy
  have hroot : 0 < √(q : ℝ) := Real.sqrt_pos.mpr (by exact_mod_cast hpos)
  -- a number below zero is not nearer than its opposite
  have hopposite := abs_abs_sub_abs_le (value y : ℝ) √(q : ℝ)
  have habs : |(value y : ℝ)| = (magnitudeValue w (magnitude y) : ℝ) := by
    exact_mod_cast congrArg (Rat.cast (K := ℝ)) (abs_value y)
  rw [abs_of_pos hroot, habs] at hopposite
  by_cases hsame : magnitude y = roundSqrtMagnitude w q
  · rw [← hsame] at hne ⊢
    have hnegative : value y = -magnitudeValue w (magnitude y) :=
      (abs_eq (magnitudeValue_nonneg w _)).mp (abs_value y) |>.resolve_left hne
    have hpositive : 0 < magnitudeValue w (magnitude y) := by
      refine lt_of_le_of_ne (magnitudeValue_nonneg w _) fun hzero => hne ?_
      rw [hnegative, ← hzero, neg_zero]
    have hcast : (0 : ℝ) < magnitudeValue w (magnitude y) := by exact_mod_cast hpositive
    rw [hnegative, Rat.cast_neg, ← neg_add', abs_neg, abs_of_pos (add_pos hcast hroot)]
    exact abs_lt.mpr ⟨by linarith, by linarith⟩
  · exact (abs_sub_sqrt_lt hrepresentable hpos hsame).trans_le hopposite

end WasmExec.Floating
