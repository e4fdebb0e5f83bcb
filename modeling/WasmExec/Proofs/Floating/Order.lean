/-
Rounding does not pass a number of the format.

The nearest integer to a rational lies between any two integers that the rational lies between.
A magnitude is such an integer in its block: so many steps of the spacing around the rational
(`roundMagnitude_steps`). What is left to see is that a block cannot be entered from below. The
first number of a block is reached only from itself on, because the last number of the block
before it, with half the spacing, is still less.
-/
import WasmExec.Proofs.Floating.Exact

set_option autoImplicit false

namespace WasmExec.Floating

variable {w : Width}

/-! ## To an integer -/

theorem nearestInt_le {q : Rat} {z : Int} (h : q ≤ z) : nearestInt q ≤ z := by
  have hfloor := Rat.floor_le q
  have hle : q.floor ≤ z := by exact_mod_cast hfloor.trans h
  rw [nearestInt]
  split_ifs with hup
  · -- there is something behind the point, so the integer part is below the bound
    have hfraction : (q.floor : Rat) < q := by
      obtain hup | ⟨hup, -⟩ := hup <;> linarith
    have hlt : q.floor < z := by exact_mod_cast hfraction.trans_le h
    omega
  · exact hle

theorem le_nearestInt {q : Rat} {z : Int} (h : (z : Rat) ≤ q) : z ≤ nearestInt q := by
  have hfloor : z ≤ q.floor := Rat.le_floor_iff.mpr h
  rw [nearestInt]
  split_ifs <;> omega

/-! ## To a magnitude -/

/-- **What is rounded lies within its block.** Before an overflow is cut off, a positive
rational is so many steps of one spacing, with no more steps than its block has. -/
theorem roundMagnitude_steps (w : Width) {q : Rat} (hq : 0 < q) :
    ∃ j n : Nat, roundMagnitude w q = Nat.min w.infinityMagnitude (j * w.implicitBit + n)
      ∧ (n : Int) = nearestInt (q / 2 ^ (w.leastExponent + (j : Int)))
      ∧ n ≤ 2 * w.implicitBit
      ∧ (j = 0 ∨ (w.implicitBit : Rat) * 2 ^ (w.leastExponent + (j : Int)) ≤ q) := by
  obtain ⟨hge, hlt⟩ := floorLog2_spec hq
  have hprecision : 0 < w.precision := by cases w <;> decide
  have htwice : 2 * w.implicitBit = 2 ^ w.precision := by cases w <;> rfl
  obtain ⟨j, hj⟩ : ∃ j : Nat, gridExponent w (floorLog2 q) = w.leastExponent + (j : Int) :=
    ⟨(gridExponent w (floorLog2 q) - w.leastExponent).toNat, by rw [gridExponent]; omega⟩
  have hspacing : (0 : Rat) < 2 ^ (w.leastExponent + (j : Int)) := by positivity
  have hnonneg : (0 : Int) ≤ nearestInt (q / 2 ^ (w.leastExponent + (j : Int))) := by
    refine le_nearestInt ?_
    rw [Int.cast_zero]
    positivity
  refine ⟨j, (nearestInt (q / 2 ^ (w.leastExponent + (j : Int)))).toNat, ?_,
    Int.toNat_of_nonneg hnonneg, ?_, ?_⟩
  · rw [roundMagnitude, if_neg hq.ne']
    simp only [hj, gridMagnitude, add_sub_cancel_left, Int.toNat_natCast]
  · -- the binade ends where the precision is used up
    have hend : q ≤ ((2 * w.implicitBit : Nat) : Rat) * 2 ^ (w.leastExponent + (j : Int)) := by
      rw [htwice]
      push_cast
      rw [← zpow_natCast, ← zpow_add₀ (by norm_num)]
      refine hlt.le.trans (zpow_le_zpow_right₀ (by norm_num) ?_)
      rw [← hj, gridExponent]
      omega
    have hle : nearestInt (q / 2 ^ (w.leastExponent + (j : Int))) ≤ (2 * w.implicitBit : Nat) :=
      nearestInt_le (by rwa [Int.cast_natCast, div_le_iff₀ hspacing])
    omega
  · by_cases hzero : j = 0
    · exact .inl hzero
    · refine .inr (le_trans (le_of_eq ?_) hge)
      rw [w.implicitBit_eq]
      push_cast
      rw [← zpow_natCast, ← zpow_add₀ (by norm_num)]
      congr 1
      rw [gridExponent] at hj
      omega

/-- **Rounding does not pass a number of the format.** -/
theorem roundMagnitude_le {q : Rat} (hq : 0 ≤ q) {m : Nat} (h : q ≤ magnitudeValue w m) :
    roundMagnitude w q ≤ m := by
  by_cases hzero : q = 0
  · rw [hzero, roundMagnitude, if_pos rfl]
    exact Nat.zero_le m
  have hpos : 0 < q := lt_of_le_of_ne hq (Ne.symm hzero)
  obtain ⟨j, n, hround, hn, hmost, hblock⟩ := roundMagnitude_steps w hpos
  have hspacing : (0 : Rat) < 2 ^ (w.leastExponent + (j : Int)) := by positivity
  rw [hround]
  refine (Nat.min_le_right _ _).trans ?_
  by_contra hlt
  -- then the rational is at most the number in front of the one it is rounded to
  have hbefore : q ≤ magnitudeValue w (j * w.implicitBit + n - 1) :=
    h.trans ((strictMono_magnitudeValue w).monotone (by omega))
  have hfull : j = 0 ∨ w.implicitBit ≤ n := by
    obtain hj | hj := hblock
    · exact .inl hj
    · have hle : (w.implicitBit : Int) ≤ nearestInt (q / 2 ^ (w.leastExponent + (j : Int))) :=
        le_nearestInt (by rwa [Int.cast_natCast, le_div_iff₀ hspacing])
      exact .inr (by omega)
  by_cases hfirst : j = 0 ∨ w.implicitBit < n
  · -- one step less in the same block
    have hnpos : 0 < n := by
      obtain rfl | hfirst := hfirst <;> omega
    have hvalue := magnitudeValue_grid w (j := j) (n := n - 1) (by omega) (by omega)
    have hindex : j * w.implicitBit + n - 1 = j * w.implicitBit + (n - 1) := by omega
    rw [hindex, hvalue] at hbefore
    have hle : nearestInt (q / 2 ^ (w.leastExponent + (j : Int))) ≤ (n - 1 : Nat) :=
      nearestInt_le (by rwa [Int.cast_natCast, div_le_iff₀ hspacing])
    omega
  · -- the last number of the block before, which is below the whole block
    obtain ⟨i, rfl⟩ : ∃ i, j = i + 1 := ⟨j - 1, by omega⟩
    have hn' : n = w.implicitBit := by omega
    have hbit := w.implicitBit_pos
    have hvalue := magnitudeValue_grid w (j := i) (n := 2 * w.implicitBit - 1) (by omega)
      (by omega)
    have hindex : (i + 1) * w.implicitBit + n - 1
        = i * w.implicitBit + (2 * w.implicitBit - 1) := by
      rw [hn', Nat.add_mul]
      omega
    have hblock' : (w.implicitBit : Rat) * 2 ^ (w.leastExponent + ((i + 1 : Nat) : Int)) ≤ q :=
      hblock.resolve_left (by omega)
    have hstep : (0 : Rat) < 2 ^ (w.leastExponent + (i : Int)) := by positivity
    rw [hindex, hvalue, Nat.cast_sub (by omega)] at hbefore
    push_cast at hbefore hblock'
    rw [← add_assoc, zpow_add_one₀ (by norm_num)] at hblock'
    linarith

/-- The powers of two from the least positive number on are magnitudes. -/
theorem exists_magnitudeValue_zpow (w : Width) {e : Int} (he : w.leastExponent ≤ e) :
    ∃ m, magnitudeValue w m = 2 ^ e := by
  have hbit := w.implicitBit_pos
  obtain ⟨m, hm⟩ := exists_magnitudeValue_eq w (n := 1) (by omega) (e - w.leastExponent).toNat
  exact ⟨m, by rw [hm, Int.toNat_of_nonneg (by omega), add_sub_cancel, Nat.cast_one, one_mul]⟩

/-- Rounding at most doubles a rational that is not below one. -/
theorem magnitudeValue_roundMagnitude_le (w : Width) {q : Rat} (hq : 1 ≤ q) :
    magnitudeValue w (roundMagnitude w q) ≤ 2 * q := by
  obtain ⟨hge, hlt⟩ := floorLog2_spec (one_pos.trans_le hq)
  have hexp : 0 < floorLog2 q + 1 := by
    refine (zpow_lt_zpow_iff_right₀ (by norm_num : (1 : Rat) < 2)).mp ?_
    rw [zpow_zero]
    exact hq.trans_lt hlt
  have hleast : w.leastExponent ≤ 0 := by cases w <;> decide
  -- the power of two that ends the binade is a number of the format
  obtain ⟨m, hpower⟩ := exists_magnitudeValue_zpow w (hleast.trans hexp.le)
  have hround : roundMagnitude w q ≤ m :=
    roundMagnitude_le (by linarith) (by rw [hpower]; exact hlt.le)
  calc magnitudeValue w (roundMagnitude w q)
      ≤ magnitudeValue w m := (strictMono_magnitudeValue w).monotone hround
    _ = 2 ^ floorLog2 q * 2 := by rw [hpower, zpow_add_one₀ (by norm_num)]
    _ ≤ 2 * q := by linarith

/-- What is below the overflow by a factor of two rounds to a finite number. -/
theorem roundMagnitude_lt_infinity (w : Width) {q : Rat} (hq : 0 ≤ q)
    (h : q ≤ 2 ^ (w.overflowExponent - 1)) : roundMagnitude w q < w.infinityMagnitude := by
  have hleast : w.leastExponent ≤ w.overflowExponent - 1 := by cases w <;> decide
  obtain ⟨m, hpower⟩ := exists_magnitudeValue_zpow w hleast
  refine (roundMagnitude_le hq (by rwa [hpower])).trans_lt ?_
  rw [← (strictMono_magnitudeValue w).lt_iff_lt, hpower, magnitudeValue_infinity]
  exact zpow_lt_zpow_right₀ (by norm_num) (by omega)

/-- The word nearest to a rational that is not negative, by its magnitude. -/
theorem ofRat_of_nonneg {q : Rat} (hq : 0 ≤ q) :
    ofRat w false q = ofMagnitude w false (roundMagnitude w q) := by
  rw [ofRat]
  by_cases hzero : q = 0
  · rw [if_pos hzero, roundMagnitude, if_pos hzero]
  · rw [if_neg hzero, if_neg (not_lt.mpr hq)]

end WasmExec.Floating
