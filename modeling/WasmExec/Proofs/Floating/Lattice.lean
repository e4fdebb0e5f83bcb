/-
The least and the greatest of two words.

By their numbers alone the words are not quite in order, because the two zeros have one number.
With the negative zero put below the positive one they are. The `rank` of a word is an integer
that says where it stands, no two words have the same rank, and away from the zeros the ranks
are ordered as the numbers are. On words that are not NaNs `min` and `max` take the lesser and
the greater rank (`rank_min`, `rank_max`), whatever the branches are by which they find it. So
the laws of a lattice need no case for signs, zeros and infinities. They hold bit for bit because
they hold of integers and a word is known by its rank.

A change of sign turns the ranks around, the ranks of the two zeros included, so it takes the
least to the greatest. For NaNs that is true as well, but for another reason: both operations
return the first NaN as it is, and changing its sign twice changes nothing.
-/
import WasmExec.Proofs.Floating.Interchange
import WasmExec.Proofs.Instruction.Operand

set_option autoImplicit false

namespace WasmExec

namespace Floating

variable {w : Width} {x y z : Word w}

/-! ## Rank -/

/-- **Where a word stands** among the words that are not NaNs. From the negative zero on down
every word stands one place lower than its number would put it. -/
def rank (x : Word w) : Int := if isNegative x then -1 - (magnitude x : Int) else magnitude x

theorem rank_injective : Function.Injective (rank : Word w → Int) := by
  intro x y h
  unfold rank at h
  -- a rank is below zero just if the sign is negative, so equal ranks have equal signs
  have hsame : isNegative x = isNegative y ∧ magnitude x = magnitude y := by
    split_ifs at h with hx hy hy
    · exact ⟨hx.trans hy.symm, by omega⟩
    · omega
    · omega
    · rw [Bool.not_eq_true] at hx hy
      exact ⟨hx.trans hy.symm, by omega⟩
  rw [← ofMagnitude_self x, hsame.1, hsame.2, ofMagnitude_self]

/-- A word of lesser rank has no greater number. -/
theorem orderKey_le_of_rank_le (h : rank x ≤ rank y) : orderKey x ≤ orderKey y := by
  unfold rank at h
  unfold orderKey
  split_ifs at h ⊢ <;> omega

/-- Unless both are zeros, words rank as they compare. -/
theorem lt_iff_rank_lt (hx : isNaN x = false) (hy : isNaN y = false)
    (h : ¬ (magnitude x = 0 ∧ magnitude y = 0)) : lt x y = true ↔ rank x < rank y := by
  -- ranks and keys differ by one place on the negative side, which only two zeros can notice
  have horder : orderKey x < orderKey y ↔ rank x < rank y := by
    unfold rank orderKey
    split_ifs <;> omega
  rw [lt, comparable, hx, hy, ← horder]
  simp

/-- Of two zeros the negative one ranks below the other. -/
theorem rank_of_zero (h : magnitude x = 0) : rank x = if isNegative x then -1 else 0 := by
  unfold rank
  rw [h]
  rfl

theorem le_of_rank_le (hx : isNaN x = false) (hy : isNaN y = false) (h : rank x ≤ rank y) :
    le x y = true := by
  rw [le_iff, ← orderKey_le_iff]
  exact ⟨hx, hy, orderKey_le_of_rank_le h⟩

/-! ## Least and greatest -/

theorem min_of_isNaN_left (hx : isNaN x = true) : min x y = x := by
  rw [min, if_pos hx]

theorem min_of_isNaN_right (hx : isNaN x = false) (hy : isNaN y = true) : min x y = y := by
  rw [min, if_neg (by simp [hx]), if_pos hy]

theorem max_of_isNaN_left (hx : isNaN x = true) : max x y = x := by
  rw [max, if_pos hx]

theorem max_of_isNaN_right (hx : isNaN x = false) (hy : isNaN y = true) : max x y = y := by
  rw [max, if_neg (by simp [hx]), if_pos hy]

theorem min_eq_or (x y : Word w) : min x y = x ∨ min x y = y := by
  unfold min
  split_ifs <;> simp

theorem max_eq_or (x y : Word w) : max x y = x ∨ max x y = y := by
  unfold max
  split_ifs <;> simp

theorem isNaN_min (hx : isNaN x = false) (hy : isNaN y = false) : isNaN (min x y) = false := by
  obtain h | h := min_eq_or x y <;> rwa [h]

theorem isNaN_max (hx : isNaN x = false) (hy : isNaN y = false) : isNaN (max x y) = false := by
  obtain h | h := max_eq_or x y <;> rwa [h]

/-- **The lesser rank.** -/
theorem rank_min (hx : isNaN x = false) (hy : isNaN y = false) :
    rank (min x y) = Min.min (rank x) (rank y) := by
  rw [min, if_neg (by simp [hx]), if_neg (by simp [hy])]
  by_cases hzero : magnitude x = 0 ∧ magnitude y = 0
  · have hx' := rank_of_zero hzero.1
    have hy' := rank_of_zero hzero.2
    rw [if_pos (by simpa using hzero)]
    split_ifs at hx' hy' ⊢ <;> omega
  · -- in all other cases words compare as they rank
    have hlt := lt_iff_rank_lt hy hx fun h => hzero h.symm
    rw [if_neg (by simpa using hzero)]
    split_ifs with h <;> rw [hlt] at h <;> omega

/-- **The greater rank.** -/
theorem rank_max (hx : isNaN x = false) (hy : isNaN y = false) :
    rank (max x y) = Max.max (rank x) (rank y) := by
  rw [max, if_neg (by simp [hx]), if_neg (by simp [hy])]
  by_cases hzero : magnitude x = 0 ∧ magnitude y = 0
  · have hx' := rank_of_zero hzero.1
    have hy' := rank_of_zero hzero.2
    rw [if_pos (by simpa using hzero)]
    split_ifs at hx' hy' ⊢ <;> omega
  · have hlt := lt_iff_rank_lt hx hy hzero
    rw [if_neg (by simpa using hzero)]
    split_ifs with h <;> rw [hlt] at h <;> omega

/-! ## Changing the sign -/

theorem magnitude_lt_signBit (x : Word w) : magnitude x < w.signBit :=
  Nat.mod_lt _ (by cases w <;> decide)

theorem magnitude_neg (x : Word w) : magnitude (neg x) = magnitude x :=
  magnitude_ofMagnitude _ (magnitude_lt_signBit x)

theorem isNegative_neg (x : Word w) : isNegative (neg x) = !isNegative x :=
  isNegative_ofMagnitude _ (magnitude_lt_signBit x)

theorem isNaN_neg (x : Word w) : isNaN (neg x) = isNaN x := by
  rw [isNaN, magnitude_neg, isNaN]

theorem neg_neg (x : Word w) : neg (neg x) = x := by
  rw [neg, isNegative_neg, magnitude_neg, Bool.not_not, ofMagnitude_self]

/-- **Changing the sign turns the ranks around.** -/
theorem rank_neg (x : Word w) : rank (neg x) = -1 - rank x := by
  unfold rank
  rw [isNegative_neg, magnitude_neg]
  cases isNegative x <;> simp

/-- **The greatest is the opposite of the least opposite**, for NaNs as well. -/
theorem max_eq_neg_min_neg (x y : Word w) : max x y = neg (min (neg x) (neg y)) := by
  cases hx : isNaN x with
  | true => rw [max_of_isNaN_left hx, min_of_isNaN_left (by rwa [isNaN_neg]), neg_neg]
  | false =>
    have hx' : isNaN (neg x) = false := by rwa [isNaN_neg]
    cases hy : isNaN y with
    | true => rw [max_of_isNaN_right hx hy, min_of_isNaN_right hx' (by rwa [isNaN_neg]), neg_neg]
    | false =>
      have hy' : isNaN (neg y) = false := by rwa [isNaN_neg]
      apply rank_injective
      rw [rank_max hx hy, rank_neg, rank_min hx' hy', rank_neg, rank_neg]
      omega

/-! ## The laws of a lattice -/

section

variable (hx : isNaN x = false) (hy : isNaN y = false) (hz : isNaN z = false)

include hx hy

theorem min_le : le (min x y) x = true ∧ le (min x y) y = true := by
  have hmin := isNaN_min hx hy
  have hrank := rank_min hx hy
  exact ⟨le_of_rank_le hmin hx (by omega), le_of_rank_le hmin hy (by omega)⟩

theorem le_max : le x (max x y) = true ∧ le y (max x y) = true := by
  have hmax := isNaN_max hx hy
  have hrank := rank_max hx hy
  exact ⟨le_of_rank_le hx hmax (by omega), le_of_rank_le hy hmax (by omega)⟩

theorem min_comm : min x y = min y x := by
  apply rank_injective
  rw [rank_min hx hy, rank_min hy hx, Int.min_comm]

theorem max_comm : max x y = max y x := by
  apply rank_injective
  rw [rank_max hx hy, rank_max hy hx, Int.max_comm]

theorem min_max_self : min x (max x y) = x := by
  apply rank_injective
  rw [rank_min hx (isNaN_max hx hy), rank_max hx hy]
  omega

theorem max_min_self : max x (min x y) = x := by
  apply rank_injective
  rw [rank_max hx (isNaN_min hx hy), rank_min hx hy]
  omega

include hz

theorem min_assoc : min (min x y) z = min x (min y z) := by
  apply rank_injective
  rw [rank_min (isNaN_min hx hy) hz, rank_min hx hy, rank_min hx (isNaN_min hy hz),
    rank_min hy hz, Int.min_assoc]

theorem max_assoc : max (max x y) z = max x (max y z) := by
  apply rank_injective
  rw [rank_max (isNaN_max hx hy) hz, rank_max hx hy, rank_max hx (isNaN_max hy hz),
    rank_max hy hz, Int.max_assoc]

end

/-- No word is less or greater than itself, not even a NaN. -/
theorem min_self (x : Word w) : min x x = x :=
  (min_eq_or x x).elim id id

theorem max_self (x : Word w) : max x x = x :=
  (max_eq_or x x).elim id id

/-- The zeros are the words without a magnitude. -/
theorem decode_eq_zero_iff {s : Bool} :
    decode x = .finite s 0 ↔ magnitude x = 0 ∧ isNegative x = s := by
  have hvalue : value x = 0 ↔ magnitude x = 0 := by
    rw [← abs_eq_zero, abs_value, ← magnitudeValue_zero w,
      (strictMono_magnitudeValue w).injective.eq_iff]
  constructor
  · intro h
    obtain ⟨-, -, hs, hzero⟩ := value_of_finite h
    exact ⟨hvalue.mp hzero, hs⟩
  · rintro ⟨hm, rfl⟩
    rw [decode_of_finite (by rw [hm]; cases w <;> decide), hvalue.mpr hm]

/-- **Zeros by their signs**: the least of two is negative if one is, the greatest only if both
are. -/
theorem decode_min_max_of_zero {s t : Bool} (hx : decode x = .finite s 0)
    (hy : decode y = .finite t 0) :
    decode (min x y) = .finite (s || t) 0 ∧ decode (max x y) = .finite (s && t) 0 := by
  obtain ⟨hxm, hxs⟩ := decode_eq_zero_iff.mp hx
  obtain ⟨hym, -⟩ := decode_eq_zero_iff.mp hy
  have hxn := (value_of_finite hx).2.1
  have hyn := (value_of_finite hy).2.1
  unfold min max
  simp only [hxn, hyn, hxm, hym, hxs]
  cases s with
  | false => exact ⟨by simpa using hy, by simpa using hx⟩
  | true => exact ⟨by simpa using hx, by simpa using hy⟩

end Floating

/-! ## The instructions -/

namespace NumOp

open Floating (interchange)

/-- **The least and the greatest of two words.** The first NaN is the result as it is. Otherwise
the result is one of the two operands, the least compares below both and the greatest above both,
and of zeros the least is the negative one and the greatest the positive one, if there is one. On
numbers the two operations obey the laws of a lattice bit for bit, and on all words a change of
sign takes one to the other. -/
theorem min_max_lattice (w : Width) :
    let min := Floating.min (w := w)
    let max := Floating.max (w := w)
    let neg := Floating.neg (w := w)
    let isNumber := fun x : Word w => interchange x ≠ .nan
    let compare := fun op (x y : Word w) => (NumOp.floatCompare w op).apply [.float w x, .float w y]
    (∀ x y, (NumOp.floatBinary w .min).apply [.float w x, .float w y] = .ok (.float w (min x y))
        ∧ (NumOp.floatBinary w .max).apply [.float w x, .float w y] = .ok (.float w (max x y))
        ∧ (NumOp.floatUnary w .neg).apply [.float w x] = .ok (.float w (neg x)))
      ∧ (∀ x y, interchange x = .nan → min x y = x ∧ max x y = x)
      ∧ (∀ x y, isNumber x → interchange y = .nan → min x y = y ∧ max x y = y)
      ∧ (∀ x y, isNumber x → isNumber y →
        (min x y = x ∨ min x y = y) ∧ (max x y = x ∨ max x y = y)
          ∧ compare .le (min x y) x = .ok (.int .w32 1)
          ∧ compare .le (min x y) y = .ok (.int .w32 1)
          ∧ compare .ge (max x y) x = .ok (.int .w32 1)
          ∧ compare .ge (max x y) y = .ok (.int .w32 1))
      ∧ (∀ x y s t, interchange x = .finite s 0 → interchange y = .finite t 0 →
        interchange (min x y) = .finite (s || t) 0 ∧ interchange (max x y) = .finite (s && t) 0)
      ∧ (∀ x y z, isNumber x → isNumber y → isNumber z →
        min x y = min y x ∧ max x y = max y x
          ∧ min (min x y) z = min x (min y z) ∧ max (max x y) z = max x (max y z)
          ∧ min x x = x ∧ max x x = x
          ∧ min x (max x y) = x ∧ max x (min x y) = x)
      ∧ ∀ x y, max x y = neg (min (neg x) (neg y)) := by
  intro min max neg isNumber compare
  have hnumber : ∀ x : Word w, isNumber x → Floating.isNaN x = false :=
    fun x => (Floating.interchange_ne_nan_iff x).mp
  refine ⟨fun x y => ⟨apply_floatBinary w .min x y, apply_floatBinary w .max x y,
      apply_floatUnary w .neg x⟩, fun x y hx => ?_, fun x y hx hy => ?_, fun x y hx hy => ?_,
    fun x y s t hx hy => ?_, fun x y z hx hy hz => ?_, Floating.max_eq_neg_min_neg⟩
  · rw [← Floating.isNaN_iff_interchange] at hx
    exact ⟨Floating.min_of_isNaN_left hx, Floating.max_of_isNaN_left hx⟩
  · have hx' := hnumber x hx
    rw [← Floating.isNaN_iff_interchange] at hy
    exact ⟨Floating.min_of_isNaN_right hx' hy, Floating.max_of_isNaN_right hx' hy⟩
  · have hmin := Floating.min_le (hnumber x hx) (hnumber y hy)
    have hmax := Floating.le_max (hnumber x hx) (hnumber y hy)
    have hcompare : ∀ op x y, compare op x y = .ok (.int .w32 1) ↔ op.eval x y = true :=
      apply_floatCompare_iff w
    refine ⟨Floating.min_eq_or x y, Floating.max_eq_or x y, ?_, ?_, ?_, ?_⟩
    · exact (hcompare .le _ _).mpr hmin.1
    · exact (hcompare .le _ _).mpr hmin.2
    · exact (hcompare .ge _ _).mpr hmax.1
    · exact (hcompare .ge _ _).mpr hmax.2
  · rw [← Floating.decode_eq_interchange] at hx hy
    rw [← Floating.decode_eq_interchange, ← Floating.decode_eq_interchange]
    exact Floating.decode_min_max_of_zero hx hy
  · have hx' := hnumber x hx
    have hy' := hnumber y hy
    have hz' := hnumber z hz
    exact ⟨Floating.min_comm hx' hy', Floating.max_comm hx' hy', Floating.min_assoc hx' hy' hz',
      Floating.max_assoc hx' hy' hz', Floating.min_self x, Floating.max_self x,
      Floating.min_max_self hx' hy', Floating.max_min_self hx' hy'⟩

/-- Two zeros, a NaN with a payload beside an infinity, and an infinity between two zeros. -/
theorem min_max_lattice_zeros :
    interchange (Floating.min (w := .w32) 0x00000000#32 0x80000000#32) = .finite true 0
      ∧ interchange (Floating.max (w := .w32) 0x80000000#32 0x00000000#32) = .finite false 0
      ∧ Floating.max (w := .w32) 0x7fa00001#32 0xff800000#32 = 0x7fa00001#32
      ∧ Floating.min (w := .w32) 0xff800000#32 0x7fa00001#32 = 0x7fa00001#32
      ∧ (NumOp.floatCompare .w64 .le).apply
          [.float .w64 (Floating.min 0x8000000000000000#64 0x7ff0000000000000#64),
            .float .w64 0x8000000000000000#64] = .ok (.int .w32 1)
      ∧ Floating.min (Floating.min 0x0000000000000000#64 0x7ff0000000000000#64)
          0x8000000000000000#64
        = Floating.min (w := .w64) 0x0000000000000000#64
          (Floating.min 0x7ff0000000000000#64 0x8000000000000000#64) := by
  obtain ⟨-, hleft, hright, -, hzeros, -, -⟩ := min_max_lattice .w32
  obtain ⟨-, -, -, hbounds, -, hlaws, -⟩ := min_max_lattice .w64
  have hplus : interchange (w := .w32) 0x00000000#32 = .finite false 0 := by
    rw [← Floating.decode_eq_interchange, Floating.decode_eq_zero_iff]
    decide +kernel
  have hminus : interchange (w := .w32) 0x80000000#32 = .finite true 0 := by
    rw [← Floating.decode_eq_interchange, Floating.decode_eq_zero_iff]
    decide +kernel
  have hpayload : interchange (w := .w32) 0x7fa00001#32 = .nan :=
    (Floating.isNaN_iff_interchange _).mp (by decide)
  have hnumber : ∀ w (x : Word w), Floating.isNaN x = false → interchange x ≠ .nan :=
    fun w x => (Floating.interchange_ne_nan_iff x).mpr
  have hinfinity := hnumber .w32 0xff800000#32 (by decide)
  have hfirst := hnumber .w64 0x0000000000000000#64 (by decide)
  have hsecond := hnumber .w64 0x7ff0000000000000#64 (by decide)
  have hthird := hnumber .w64 0x8000000000000000#64 (by decide)
  exact ⟨(hzeros _ _ _ _ hplus hminus).1, (hzeros _ _ _ _ hminus hplus).2,
    (hleft _ _ hpayload).2, (hright _ _ hinfinity hpayload).1,
    (hbounds _ _ hthird hsecond).2.2.1, (hlaws _ _ _ hfirst hsecond hthird).2.2.1⟩

end NumOp

end WasmExec
