/-
The shortest decimal numeral of a number.

Two questions decide what a printed number looks like. On one decimal grid, which multiple is
taken, and how fine has the grid to be. Rounding keeps the order, so if any multiple of a power
of ten reads back as a number, then so does the multiple next to the number on its side. Looking
at two neighbours is therefore a complete search of a grid (`onGrid_eq_none_iff`), and the nearer of
those that read back is nearest of all (`onGrid_spec`).

A grid whose step is below the spacing of the format always has one, and seventeen digits are that
fine. The nearest multiple is off by half a step, the number has at least `10 ^ 16` steps, and no
magnitude is closer to the next than its `2 ^ precision`-th part. So the argument comes down to
`2 ^ 53 < 10 ^ 16`, and to the place of the leading digit, for which an approximation of a logarithm
has to be right at every exponent of the two formats. That is checked for each of them.
-/
import WasmExec.Floating.Decimal
import WasmExec.Proofs.Floating.Nearest

set_option autoImplicit false

namespace WasmExec.Floating

variable {w : Width} {m : Nat} {exponent : Int}

/-! ## The leading digit -/

/-- The approximation at the exponents of numbers that are not below one. -/
theorem ten_pow_le_two_pow : ∀ n ≤ 1024, 10 ^ (n * 30103 / 100000) ≤ 2 ^ n
    ∧ 2 ^ (n + 1) ≤ 10 ^ (n * 30103 / 100000 + 2) := by
  decide +kernel

/-- The approximation below one, where it is rounded the other way. -/
theorem two_pow_le_ten_pow : ∀ n ≤ 1074, 2 ^ n ≤ 10 ^ ((n * 30103 + 99999) / 100000)
    ∧ 10 ^ ((n * 30103 + 99999) / 100000) ≤ 50 * 2 ^ n := by
  decide +kernel

/-- **The approximation of the logarithm** is right up to one, at all exponents of both formats. -/
theorem ten_zpow_le_two_zpow {e : Int} (hlow : -1074 ≤ e) (hhigh : e ≤ 1024) :
    (10 : Rat) ^ (e * 30103 / 100000) ≤ 2 ^ e
      ∧ (2 : Rat) ^ (e + 1) ≤ 10 ^ (e * 30103 / 100000 + 2) := by
  by_cases he : 0 ≤ e
  · obtain ⟨n, rfl⟩ := Int.eq_ofNat_of_zero_le he
    obtain ⟨hten, htwo⟩ := ten_pow_le_two_pow n (by omega)
    have hk : (n : Int) * 30103 / 100000 = ((n * 30103 / 100000 : Nat) : Int) := by push_cast; rfl
    rw [hk]
    exact ⟨by exact_mod_cast hten, by exact_mod_cast htwo⟩
  · obtain ⟨n, rfl⟩ : ∃ n : Nat, e = -(n : Int) := ⟨(-e).toNat, by omega⟩
    obtain ⟨htwo, hten⟩ := two_pow_le_ten_pow n (by omega)
    have hk : -(n : Int) * 30103 / 100000 = -(((n * 30103 + 99999) / 100000 : Nat) : Int) := by
      omega
    rw [hk]
    generalize (n * 30103 + 99999) / 100000 = c at htwo hten
    have htwo' : (2 : Rat) ^ n ≤ 10 ^ c := by exact_mod_cast htwo
    have hten' : (10 : Rat) ^ c ≤ 50 * 2 ^ n := by exact_mod_cast hten
    constructor
    · rw [zpow_neg, zpow_neg, zpow_natCast, zpow_natCast]
      exact inv_anti₀ (by positivity) htwo'
    · rw [zpow_add₀ (by norm_num), zpow_add₀ (by norm_num), zpow_neg, zpow_neg, zpow_natCast,
        zpow_natCast, ← div_eq_inv_mul, ← div_eq_inv_mul, div_le_div_iff₀ (by positivity)
        (by positivity)]
      norm_num
      linarith

/-- The binades of the finite numbers. -/
theorem floorLog2_range (w : Width) (hm : 0 < m) (hm' : m ≤ w.infinityMagnitude) :
    -1074 ≤ floorLog2 (magnitudeValue w m) ∧ floorLog2 (magnitudeValue w m) ≤ 1024 := by
  have hmono := (strictMono_magnitudeValue w).monotone
  have hbit := w.implicitBit_pos
  have hleast : (2 : Rat) ^ w.leastExponent ≤ magnitudeValue w m := by
    have hvalue := magnitudeValue_grid w (j := 0) (n := 1) (by omega) (.inl rfl)
    have hfirst := hmono (show 0 * w.implicitBit + 1 ≤ m by omega)
    rw [hvalue] at hfirst
    simpa using hfirst
  have hgreatest := hmono hm'
  rw [magnitudeValue_infinity] at hgreatest
  obtain ⟨hge, hlt⟩ := floorLog2_spec ((by positivity : (0 : Rat) < _).trans_le hleast)
  have hlow := (zpow_lt_zpow_iff_right₀ (by norm_num : (1 : Rat) < 2)).mp (hleast.trans_lt hlt)
  have hhigh := (zpow_le_zpow_iff_right₀ (by norm_num : (1 : Rat) < 2)).mp (hge.trans hgreatest)
  cases w with
  | w32 =>
    rw [Width.leastExponent] at hlow
    rw [Width.overflowExponent] at hhigh
    omega
  | w64 =>
    rw [Width.leastExponent] at hlow
    rw [Width.overflowExponent] at hhigh
    omega

/-- **The place of the leading digit.** -/
theorem floorLog10_spec (w : Width) (hm : 0 < m) (hm' : m ≤ w.infinityMagnitude) :
    (10 : Rat) ^ floorLog10 (magnitudeValue w m) ≤ magnitudeValue w m
      ∧ magnitudeValue w m < 10 ^ (floorLog10 (magnitudeValue w m) + 1) := by
  obtain ⟨hlow, hhigh⟩ := floorLog2_range w hm hm'
  have hpos : 0 < magnitudeValue w m := by
    have h := strictMono_magnitudeValue w hm
    rwa [magnitudeValue_zero] at h
  obtain ⟨hge, hlt⟩ := floorLog2_spec hpos
  obtain ⟨hten, htwo⟩ := ten_zpow_le_two_zpow hlow hhigh
  rw [floorLog10]
  split_ifs with hnext
  · exact ⟨hnext, hlt.trans_le (by rwa [add_assoc])⟩
  · exact ⟨hten.trans hge, not_le.mp hnext⟩

/-! ## Around a magnitude -/

/-- **The spacing at a number** is at least its `2 ^ precision`-th part, on both sides. -/
theorem magnitudeValue_succ_le (w : Width) (m : Nat) :
    magnitudeValue w (m + 1)
      ≤ 2 * w.implicitBit * (magnitudeValue w (m + 1) - magnitudeValue w m) := by
  obtain ⟨j, n, rfl, hn, hj⟩ := exists_grid w m
  have hspacing : (0 : Rat) < 2 ^ (w.leastExponent + (j : Int)) := by positivity
  have hsteps : ((n + 1 : Nat) : Rat) ≤ 2 * w.implicitBit := by exact_mod_cast hn
  rw [Nat.add_assoc, magnitudeValue_grid w (by omega) hj,
    magnitudeValue_grid w (by omega) (by omega), ← sub_mul, Nat.cast_add, Nat.cast_one,
    add_sub_cancel_left, one_mul]
  push_cast at hsteps
  gcongr

/-- Every other magnitude is that far away. -/
theorem magnitudeValue_le_abs_sub (w : Width) {k : Nat} (hk : k ≠ m) :
    magnitudeValue w m ≤ 2 * w.implicitBit * |magnitudeValue w k - magnitudeValue w m| := by
  have hmono := strictMono_magnitudeValue w
  obtain hbelow | habove := Nat.lt_or_gt_of_ne hk
  · obtain ⟨i, rfl⟩ : ∃ i, m = i + 1 := ⟨m - 1, by omega⟩
    have hfar : magnitudeValue w (i + 1) - magnitudeValue w i
        ≤ |magnitudeValue w k - magnitudeValue w (i + 1)| := by
      have hle := hmono.monotone (Nat.le_of_lt_succ hbelow)
      rw [abs_sub_comm]
      exact le_trans (by linarith) (le_abs_self _)
    calc magnitudeValue w (i + 1)
        ≤ 2 * w.implicitBit * (magnitudeValue w (i + 1) - magnitudeValue w i) :=
          magnitudeValue_succ_le w i
      _ ≤ _ := by gcongr
  · have hfar : magnitudeValue w (m + 1) - magnitudeValue w m
        ≤ |magnitudeValue w k - magnitudeValue w m| := by
      have hle := hmono.monotone (Nat.succ_le_of_lt habove)
      exact le_trans (by linarith) (le_abs_self _)
    calc magnitudeValue w m ≤ magnitudeValue w (m + 1) := (hmono m.lt_succ_self).le
      _ ≤ 2 * w.implicitBit * (magnitudeValue w (m + 1) - magnitudeValue w m) :=
          magnitudeValue_succ_le w m
      _ ≤ _ := by gcongr

/-- **What is close enough to a number rounds to it.** -/
theorem roundMagnitude_of_close {q : Rat} (hq : 0 ≤ q) (hm : m ≤ w.infinityMagnitude)
    (h : 4 * w.implicitBit * |q - magnitudeValue w m| < magnitudeValue w m) :
    roundMagnitude w q = m := by
  have hbit : (0 : Rat) < w.implicitBit := by exact_mod_cast w.implicitBit_pos
  have hnearest : IsNearestMagnitude w q m := by
    intro k _ hk
    have hfar := magnitudeValue_le_abs_sub w hk
    have htriangle := abs_sub_le (magnitudeValue w k) q (magnitudeValue w m)
    -- two distances that are less than half of the third side each would not reach
    have hhalf : 2 * |q - magnitudeValue w m| < |magnitudeValue w k - magnitudeValue w m| := by
      have hscaled := h.trans_le hfar
      have hfactor : 4 * (w.implicitBit : Rat) * |q - magnitudeValue w m|
          = 2 * w.implicitBit * (2 * |q - magnitudeValue w m|) := by ring
      rw [hfactor] at hscaled
      exact lt_of_mul_lt_mul_left hscaled (by positivity)
    left
    rw [abs_sub_comm]
    linarith
  exact (isNearestMagnitude_roundMagnitude w hq).unique hnearest (roundMagnitude_le_infinity w q) hm

/-! ## One grid -/

/-- The multiple of a power of ten at a number or next below it. -/
def gridBelow (w : Width) (m : Nat) (exponent : Int) : Nat :=
  (magnitudeValue w m / (10 : Rat) ^ exponent).floor.toNat

/-- The number lies between two neighbours on the grid. -/
theorem gridBelow_spec (w : Width) (m : Nat) (exponent : Int) :
    (gridBelow w m exponent : Rat) * 10 ^ exponent ≤ magnitudeValue w m
      ∧ magnitudeValue w m < ((gridBelow w m exponent + 1 : Nat) : Rat) * 10 ^ exponent := by
  have hstep : (0 : Rat) < 10 ^ exponent := by positivity
  have hscaled : 0 ≤ magnitudeValue w m / 10 ^ exponent :=
    div_nonneg (magnitudeValue_nonneg w m) hstep.le
  have hfloor : ((gridBelow w m exponent : Nat) : Rat)
      = ((magnitudeValue w m / (10 : Rat) ^ exponent).floor : Rat) := by
    rw [gridBelow, ← Int.cast_natCast, Int.toNat_of_nonneg (Rat.le_floor_iff.mpr (by simpa))]
  have hle := Rat.floor_le (magnitudeValue w m / (10 : Rat) ^ exponent)
  have hlt := Rat.lt_floor_add_one (magnitudeValue w m / (10 : Rat) ^ exponent)
  push_cast at hlt ⊢
  rw [← hfloor] at hle hlt
  exact ⟨(le_div_iff₀ hstep).mp hle, (div_lt_iff₀ hstep).mp hlt⟩

/-- **Of all multiples that read back, a neighbour of the number is one**, on the same side of it
and no farther away. -/
theorem neighbour_readsBack (hm : m ≤ w.infinityMagnitude) {d : Nat}
    (h : roundMagnitude w ((d : Rat) * 10 ^ exponent) = m) :
    ∃ near, (near = gridBelow w m exponent ∨ near = gridBelow w m exponent + 1)
      ∧ readsBack w m near exponent = true
      ∧ |(near : Rat) * 10 ^ exponent - magnitudeValue w m|
        ≤ |(d : Rat) * 10 ^ exponent - magnitudeValue w m| := by
  obtain ⟨hbelow, habove⟩ := gridBelow_spec w m exponent
  have hself := roundMagnitude_magnitudeValue w hm
  -- rounding keeps the order, so what lies between a number that reads back and the magnitude does
  obtain hd | hd := Nat.lt_or_ge (gridBelow w m exponent) d
  · have hle : ((gridBelow w m exponent + 1 : Nat) : Rat) * 10 ^ exponent ≤ d * 10 ^ exponent := by
      gcongr
      exact hd
    refine ⟨_, .inr rfl, decide_eq_true (le_antisymm ?_ ?_), ?_⟩
    · exact (roundMagnitude_mono w (by positivity) hle).trans_eq h
    · exact hself.symm.trans_le (roundMagnitude_mono w (magnitudeValue_nonneg w m) habove.le)
    · rw [abs_of_nonneg (by linarith), abs_of_nonneg (by linarith)]
      linarith
  · have hle : (d : Rat) * 10 ^ exponent ≤ (gridBelow w m exponent : Rat) * 10 ^ exponent := by
      gcongr
    refine ⟨_, .inl rfl, decide_eq_true (le_antisymm ?_ ?_), ?_⟩
    · exact (roundMagnitude_mono w (by positivity) hbelow).trans_eq hself
    · exact h.symm.trans_le (roundMagnitude_mono w (by positivity) hle)
    · rw [abs_sub_comm, abs_of_nonneg (by linarith), abs_sub_comm, abs_of_nonneg (by linarith)]
      linarith

/-- **Two looks search a grid.** -/
theorem onGrid_eq_none_iff (hm : m ≤ w.infinityMagnitude) :
    onGrid? w m exponent = none ↔ ∀ d : Nat, roundMagnitude w ((d : Rat) * 10 ^ exponent) ≠ m := by
  constructor
  · intro h d hd
    obtain ⟨near, hnear, hread, -⟩ := neighbour_readsBack hm hd
    unfold onGrid? at h
    simp only at h
    split at h
    · cases h
    · cases h
    · cases h
    · next hbelow habove =>
      obtain rfl | rfl := hnear
      · exact absurd (hread.symm.trans hbelow) (by decide)
      · exact absurd (hread.symm.trans habove) (by decide)
  · intro h
    have hnone : ∀ d, readsBack w m d exponent = false := fun d => decide_eq_false (h d)
    unfold onGrid?
    simp only [hnone]

/-- **What is taken on a grid** is a neighbour of the number that reads back, and of all multiples
that do none is nearer. -/
theorem onGrid_spec (hm : m ≤ w.infinityMagnitude) {digits : Nat}
    (h : onGrid? w m exponent = some digits) :
    digits ≤ gridBelow w m exponent + 1 ∧ roundMagnitude w ((digits : Rat) * 10 ^ exponent) = m
      ∧ ∀ d : Nat, roundMagnitude w ((d : Rat) * 10 ^ exponent) = m →
        |(digits : Rat) * 10 ^ exponent - magnitudeValue w m|
          ≤ |(d : Rat) * 10 ^ exponent - magnitudeValue w m| := by
  obtain ⟨hlower, hupper⟩ := gridBelow_spec w m exponent
  have hstep : (0 : Rat) < 10 ^ exponent := by positivity
  have hscaled : magnitudeValue w m / 10 ^ exponent * 10 ^ exponent = magnitudeValue w m :=
    div_mul_cancel₀ _ hstep.ne'
  -- it is enough to be as near as every neighbour that reads back
  suffices hnear : digits ≤ gridBelow w m exponent + 1 ∧ readsBack w m digits exponent = true
      ∧ ∀ near, (near = gridBelow w m exponent ∨ near = gridBelow w m exponent + 1) →
        readsBack w m near exponent = true →
        |(digits : Rat) * 10 ^ exponent - magnitudeValue w m|
          ≤ |(near : Rat) * 10 ^ exponent - magnitudeValue w m| by
    refine ⟨hnear.1, of_decide_eq_true hnear.2.1, fun d hd => ?_⟩
    obtain ⟨near, hside, hread, hle⟩ := neighbour_readsBack hm hd
    exact (hnear.2.2 near hside hread).trans hle
  have hleft : |(gridBelow w m exponent : Rat) * 10 ^ exponent - magnitudeValue w m|
      = magnitudeValue w m - gridBelow w m exponent * 10 ^ exponent := by
    rw [abs_sub_comm]
    exact abs_of_nonneg (by linarith)
  have hright : |((gridBelow w m exponent + 1 : Nat) : Rat) * 10 ^ exponent - magnitudeValue w m|
      = (gridBelow w m exponent + 1 : Nat) * 10 ^ exponent - magnitudeValue w m :=
    abs_of_nonneg (by linarith)
  unfold onGrid? at h
  simp only at h
  split at h
  · next hbelow habove =>
    obtain rfl := Option.some.inj h
    by_cases hhalf : 2 * (magnitudeValue w m / 10 ^ exponent - (gridBelow w m exponent : Rat)) < 1
    · have hnearer : 2 * (magnitudeValue w m - gridBelow w m exponent * 10 ^ exponent)
          < 10 ^ exponent := by
        have hscaled' := mul_lt_mul_of_pos_right hhalf hstep
        rwa [mul_assoc, sub_mul, hscaled, one_mul] at hscaled'
      rw [gridBelow] at hhalf
      rw [if_pos hhalf]
      refine ⟨Nat.le_succ _, hbelow, ?_⟩
      rintro near (rfl | rfl) -
      · exact le_rfl
      · show |(gridBelow w m exponent : Rat) * _ - _| ≤ _
        rw [hleft, hright]
        push_cast
        linarith
    · have hnearer : 10 ^ exponent
          ≤ 2 * (magnitudeValue w m - gridBelow w m exponent * 10 ^ exponent) := by
        have hscaled' := mul_le_mul_of_nonneg_right (not_lt.mp hhalf) hstep.le
        rwa [mul_assoc, sub_mul, hscaled, one_mul] at hscaled'
      rw [gridBelow] at hhalf
      rw [if_neg hhalf]
      refine ⟨le_rfl, habove, ?_⟩
      rintro near (rfl | rfl) -
      · show |((gridBelow w m exponent + 1 : Nat) : Rat) * _ - _| ≤ _
        rw [hleft, hright]
        push_cast
        linarith
      · exact le_rfl
  · next hbelow habove =>
    obtain rfl := Option.some.inj h
    refine ⟨Nat.le_succ _, hbelow, ?_⟩
    rintro near (rfl | rfl) hread
    · exact le_rfl
    · exact absurd (hread.symm.trans habove) (by decide)
  · next hbelow habove =>
    obtain rfl := Option.some.inj h
    refine ⟨le_rfl, habove, ?_⟩
    rintro near (rfl | rfl) hread
    · exact absurd (hread.symm.trans hbelow) (by decide)
    · exact le_rfl
  · cases h

/-! ## Seventeen digits -/

/-- A number has as many steps on a grid as the digits it starts with can count. -/
theorem gridBelow_lt (hm : 0 < m) (hm' : m ≤ w.infinityMagnitude) (i : Nat) :
    gridBelow w m (floorLog10 (magnitudeValue w m) - i) < 10 ^ (i + 1) := by
  obtain ⟨hbelow, -⟩ := gridBelow_spec w m (floorLog10 (magnitudeValue w m) - i)
  obtain ⟨-, hlt⟩ := floorLog10_spec w hm hm'
  have hstep : (0 : Rat) < 10 ^ (floorLog10 (magnitudeValue w m) - i) := by positivity
  have hsplit : (10 : Rat) ^ (floorLog10 (magnitudeValue w m) + 1)
      = ((10 ^ (i + 1) : Nat) : Rat) * 10 ^ (floorLog10 (magnitudeValue w m) - i) := by
    push_cast
    rw [← zpow_natCast, ← zpow_add₀ (by norm_num)]
    congr 1
    push_cast
    ring
  rw [hsplit] at hlt
  exact_mod_cast lt_of_mul_lt_mul_right (hbelow.trans_lt hlt) hstep.le

/-- **Seventeen digits suffice.** The nearest multiple is off by half a step at most, which is less
than what the spacing of the format allows. -/
theorem exists_readsBack (hm : 0 < m) (hm' : m ≤ w.infinityMagnitude) :
    ∃ d : Nat, roundMagnitude w
      ((d : Rat) * 10 ^ (floorLog10 (magnitudeValue w m) - (16 : Nat))) = m := by
  obtain ⟨hge, -⟩ := floorLog10_spec w hm hm'
  have hsteps : (10 : Rat) ^ 16 * 10 ^ (floorLog10 (magnitudeValue w m) - (16 : Nat))
      ≤ magnitudeValue w m := by
    rwa [← zpow_natCast, ← zpow_add₀ (by norm_num), add_sub_cancel]
  generalize floorLog10 (magnitudeValue w m) - (16 : Nat) = exponent at hsteps
  obtain ⟨hbelow, habove⟩ := gridBelow_spec w m exponent
  have hstep : (0 : Rat) < 10 ^ exponent := by positivity
  have hbits : 4 * (w.implicitBit : Rat) < 2 * 10 ^ 16 := by
    cases w <;> norm_num [Width.implicitBit]
  -- one of the two neighbours is within half a step
  obtain ⟨d, hd⟩ : ∃ d : Nat,
      2 * |(d : Rat) * 10 ^ exponent - magnitudeValue w m| ≤ 10 ^ exponent := by
    by_cases hhalf : 2 * (magnitudeValue w m - gridBelow w m exponent * 10 ^ exponent)
        ≤ 10 ^ exponent
    · refine ⟨gridBelow w m exponent, ?_⟩
      rwa [abs_sub_comm, abs_of_nonneg (by linarith)]
    · refine ⟨gridBelow w m exponent + 1, ?_⟩
      rw [abs_of_nonneg (by linarith)]
      push_cast
      linarith
  refine ⟨d, roundMagnitude_of_close (by positivity) hm' ?_⟩
  calc 4 * (w.implicitBit : Rat) * |(d : Rat) * 10 ^ exponent - magnitudeValue w m|
      ≤ 4 * w.implicitBit * (10 ^ exponent / 2) := by
        gcongr
        linarith
    _ < 2 * 10 ^ 16 * (10 ^ exponent / 2) := by gcongr
    _ = 10 ^ 16 * 10 ^ exponent := by ring
    _ ≤ magnitudeValue w m := hsteps

/-- **The search does not fail.** It ends on the first grid that has a multiple to take. -/
theorem shortest_eq (hm : 0 < m) (hm' : m ≤ w.infinityMagnitude) :
    ∃ (digits i : Nat), shortest w m = (digits, floorLog10 (magnitudeValue w m) - (i : Int))
      ∧ onGrid? w m (floorLog10 (magnitudeValue w m) - (i : Int)) = some digits
      ∧ i < 17 ∧ ∀ j < i, onGrid? w m (floorLog10 (magnitudeValue w m) - (j : Int)) = none := by
  unfold shortest
  simp only
  generalize hfound : (List.range 17).findSome? _ = found
  cases found with
  | none =>
    -- the last grid of the row is the one that seventeen digits make
    obtain ⟨d, hd⟩ := exists_readsBack hm hm'
    have hlast := List.findSome?_eq_none_iff.mp hfound 16 (by decide)
    rw [Option.map_eq_none_iff, onGrid_eq_none_iff hm'] at hlast
    exact absurd hd (hlast d)
  | some numeral =>
    obtain ⟨before, i, after, hrange, hi, hbefore⟩ := List.findSome?_eq_some_iff.mp hfound
    obtain ⟨digits, hdigits, rfl⟩ := Option.map_eq_some_iff.mp hi
    have hi : i < 17 := List.mem_range.mp (hrange ▸ List.mem_append_right _ List.mem_cons_self)
    refine ⟨digits, i, rfl, hdigits, hi, fun j hj => ?_⟩
    -- the grids before it in the row are those with fewer digits
    have hmem : j ∈ before ++ i :: after := hrange ▸ List.mem_range.mpr (hj.trans hi)
    have hsorted : (before ++ i :: after).Pairwise (· < ·) := hrange ▸ List.pairwise_lt_range
    have hafter := (List.pairwise_cons.mp (List.pairwise_append.mp hsorted).2.1).1
    obtain hmem | hmem := List.mem_append.mp hmem
    · exact Option.map_eq_none_iff.mp (hbefore j hmem)
    · obtain rfl | hmem := List.mem_cons.mp hmem
      · exact absurd hj (lt_irrefl j)
      · exact absurd hj (hafter j hmem).not_gt

/-! ## What is printed -/

/-- **A shortest numeral for a magnitude.** It reads back, no numeral that does has fewer digits,
and none with the same last place that does is nearer. Where a power of ten is counted, only its
one digit that is not zero is. -/
structure IsShortest (w : Width) (m digits : Nat) (exponent : Int) : Prop where
  readsBack : roundMagnitude w ((digits : Rat) * 10 ^ exponent) = m
  fewest : ∀ (d n : Nat) (e : Int), roundMagnitude w ((d : Rat) * 10 ^ e) = m →
    d ≤ 10 ^ (n + 1) → digits ≤ 10 ^ (n + 1)
  nearest : ∀ d : Nat, roundMagnitude w ((d : Rat) * 10 ^ exponent) = m →
    |(digits : Rat) * 10 ^ exponent - magnitudeValue w m|
      ≤ |(d : Rat) * 10 ^ exponent - magnitudeValue w m|

/-- A numeral of so few digits that reads back puts a multiple of its leading power on a grid. -/
theorem exists_readsBack_of_le (hm : 0 < m) (hm' : m ≤ w.infinityMagnitude) {d n : Nat} {e : Int}
    (hread : roundMagnitude w ((d : Rat) * 10 ^ e) = m) (hd : d ≤ 10 ^ (n + 1)) :
    ∃ d' : Nat, roundMagnitude w
      ((d' : Rat) * 10 ^ (floorLog10 (magnitudeValue w m) - (n : Int))) = m := by
  obtain ⟨hge, -⟩ := floorLog10_spec w hm hm'
  generalize floorLog10 (magnitudeValue w m) = leading at hge
  by_cases he : leading - n ≤ e
  · -- the grid is finer than the numeral asks for
    obtain ⟨k, hk⟩ := Int.eq_ofNat_of_zero_le (sub_nonneg.mpr he)
    refine ⟨d * 10 ^ k, ?_⟩
    have hsame : ((d * 10 ^ k : Nat) : Rat) * 10 ^ (leading - (n : Int)) = d * 10 ^ e := by
      obtain rfl : e = leading - n + k := by omega
      push_cast
      rw [zpow_add₀ (by norm_num), zpow_natCast]
      ring
    rw [hsame, hread]
  · -- the numeral is at most the leading power, which is at most the number
    refine ⟨10 ^ n, ?_⟩
    have hpower : ((10 ^ n : Nat) : Rat) * 10 ^ (leading - (n : Int)) = 10 ^ leading := by
      push_cast
      rw [← zpow_natCast, ← zpow_add₀ (by norm_num), add_sub_cancel]
    have hle : (d : Rat) * 10 ^ e ≤ 10 ^ leading := by
      calc (d : Rat) * 10 ^ e ≤ 10 ^ (n + 1) * 10 ^ e := by
            gcongr
            exact_mod_cast hd
        _ = 10 ^ ((n + 1 : Nat) + e) := by rw [zpow_add₀ (by norm_num), zpow_natCast]
        _ ≤ 10 ^ leading := zpow_le_zpow_right₀ (by norm_num) (by push_cast; omega)
    rw [hpower]
    apply le_antisymm
    · exact (roundMagnitude_mono w (by positivity) hge).trans_eq
        (roundMagnitude_magnitudeValue w hm')
    · exact hread.symm.trans_le (roundMagnitude_mono w (by positivity) hle)

/-- **What is printed is a shortest numeral**, and it has seventeen digits at most. -/
theorem isShortest_shortest (hm : 0 < m) (hm' : m ≤ w.infinityMagnitude) :
    IsShortest w m (shortest w m).1 (shortest w m).2 ∧ (shortest w m).1 ≤ 10 ^ 17 := by
  obtain ⟨digits, i, hshortest, hgrid, hi, hbefore⟩ := shortest_eq hm hm'
  obtain ⟨hle, hread, hnearest⟩ := onGrid_spec hm' hgrid
  have hcount : digits ≤ 10 ^ (i + 1) := hle.trans (gridBelow_lt hm hm' i)
  rw [hshortest]
  refine ⟨⟨hread, fun d n e hd hn => ?_, hnearest⟩, ?_⟩
  · by_cases hin : i ≤ n
    · exact hcount.trans (Nat.pow_le_pow_right (by decide) (by omega))
    · -- with fewer digits there would have been a grid before
      obtain ⟨d', hd'⟩ := exists_readsBack_of_le hm hm' hd hn
      exact absurd hd' ((onGrid_eq_none_iff hm').mp (hbefore n (by omega)) d')
  · exact hcount.trans (Nat.pow_le_pow_right (by decide) (by omega))

end WasmExec.Floating
