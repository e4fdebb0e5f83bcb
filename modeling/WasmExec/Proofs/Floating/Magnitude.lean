/-
The order of the numbers of a format.

A magnitude counts: it is the number of finite numbers between zero and the one that it
denotes. The count goes in blocks of `implicitBit`, and the spacing doubles from block
to block, so a magnitude is best taken apart as `j * implicitBit + n`, where `n` counts
steps of the spacing with exponent `leastExponent + j`. There is slack in this: the last
step of a block lands on the first number of the next one, and `n` may reach
`2 * implicitBit` without the formula for the value changing (`magnitudeValue_grid`).
All that is said of values here comes from that one formula.

In particular the step from a magnitude to the next adds one spacing, which is positive,
so values grow with magnitudes. That makes the comparison of words, which looks at
magnitudes only, the comparison of the numbers that they denote. Infinity needs no
case of its own: by the formula its magnitude has a value too, the power of two that
would come next, and that is above every finite number.
-/
import WasmExec.Floating.Arithmetic
import Mathlib.Algebra.Order.Field.Power
import Mathlib.Data.Rat.Floor
import Mathlib.Tactic

set_option autoImplicit false

namespace WasmExec

/-! ## The constants of the two formats -/

namespace Width

variable (w : Width)

theorem implicitBit_eq : w.implicitBit = 2 ^ (w.precision - 1) := by
  cases w <;> rfl

theorem implicitBit_pos : 0 < w.implicitBit := by
  cases w <;> decide

theorem infinityMagnitude_lt_signBit : w.infinityMagnitude < w.signBit := by
  cases w <;> decide

theorem signBit_eq : w.signBit = 2 ^ (w.bits - 1) := by
  cases w <;> rfl

theorem two_mul_signBit : 2 * w.signBit = 2 ^ w.bits := by
  cases w <;> rfl

/-- Two to this power is the number that would follow the greatest finite one. -/
def overflowExponent : Width → Int
  | .w32 => 128
  | .w64 => 1024

/-- How many times the spacing doubles below infinity. -/
def topBinade : Width → Nat
  | .w32 => 254
  | .w64 => 2046

theorem infinityMagnitude_eq : w.infinityMagnitude = w.topBinade * w.implicitBit + w.implicitBit := by
  cases w <;> rfl

end Width

namespace Floating

variable {w : Width}

/-! ## The value of a magnitude -/

/-- **A magnitude in steps of one spacing.** The formula holds from the first step of a
block up to and including the step that ends it. -/
theorem magnitudeValue_grid (w : Width) {j n : Nat} (hn : n ≤ 2 * w.implicitBit)
    (hj : j = 0 ∨ w.implicitBit ≤ n) :
    magnitudeValue w (j * w.implicitBit + n) = (n : Rat) * 2 ^ (w.leastExponent + (j : Int)) := by
  have hpos := w.implicitBit_pos
  by_cases hlow : n < w.implicitBit
  · -- only the numbers below the first block have fewer steps than a block has
    obtain rfl : j = 0 := by omega
    have hm : 0 * w.implicitBit + n = n := by omega
    rw [hm, magnitudeValue, if_pos hlow]
    simp
  · have hge : w.implicitBit ≤ j * w.implicitBit + n := by omega
    rw [magnitudeValue, if_neg (by omega)]
    by_cases hlast : n = 2 * w.implicitBit
    · have hm : j * w.implicitBit + n = w.implicitBit * (j + 2) := by rw [hlast]; ring
      rw [hm, Nat.mul_mod_right, Nat.mul_div_cancel_left _ hpos, hlast]
      have hexp : w.leastExponent + ((j + 2 : Nat) : Int) - 1 = w.leastExponent + (j : Int) + 1 := by
        push_cast
        ring
      rw [hexp, zpow_add_one₀ (by norm_num)]
      push_cast
      ring
    · have hm : j * w.implicitBit + n = (n - w.implicitBit) + w.implicitBit * (j + 1) := by
        rw [Nat.mul_add, Nat.mul_comm]
        omega
      have hlt : n - w.implicitBit < w.implicitBit := by omega
      rw [hm, Nat.add_mul_mod_self_left, Nat.mod_eq_of_lt hlt, Nat.add_mul_div_left _ _ hpos,
        Nat.div_eq_of_lt hlt, Nat.zero_add, Nat.add_sub_cancel' (by omega)]
      congr 2
      push_cast
      ring

/-- Every magnitude is a number of steps in its block. -/
theorem exists_grid (w : Width) (m : Nat) :
    ∃ j n, m = j * w.implicitBit + n ∧ n < 2 * w.implicitBit ∧ (j = 0 ∨ w.implicitBit ≤ n) := by
  have hpos := w.implicitBit_pos
  by_cases hm : m < w.implicitBit
  · exact ⟨0, m, by omega, by omega, .inl rfl⟩
  · have hmod := Nat.mod_lt m hpos
    have hdiv : 0 < m / w.implicitBit := Nat.div_pos (by omega) hpos
    refine ⟨m / w.implicitBit - 1, w.implicitBit + m % w.implicitBit, ?_, by omega, .inr (by omega)⟩
    calc m = m / w.implicitBit * w.implicitBit + m % w.implicitBit := (Nat.div_add_mod' m _).symm
      _ = (m / w.implicitBit - 1 + 1) * w.implicitBit + m % w.implicitBit := by
        rw [Nat.sub_add_cancel hdiv]
      _ = _ := by ring

@[simp] theorem magnitudeValue_zero (w : Width) : magnitudeValue w 0 = 0 := by
  rw [magnitudeValue, if_pos w.implicitBit_pos]
  simp

/-- The next magnitude is one spacing further. -/
theorem magnitudeValue_lt_succ (w : Width) (m : Nat) :
    magnitudeValue w m < magnitudeValue w (m + 1) := by
  obtain ⟨j, n, rfl, hn, hj⟩ := exists_grid w m
  have hspacing : (0 : Rat) < 2 ^ (w.leastExponent + (j : Int)) := by positivity
  rw [Nat.add_assoc, magnitudeValue_grid w (by omega) hj,
    magnitudeValue_grid w (by omega) (by omega)]
  push_cast
  linarith

/-- **Values grow with magnitudes.** -/
theorem strictMono_magnitudeValue (w : Width) : StrictMono (magnitudeValue w) :=
  strictMono_nat_of_lt_succ (magnitudeValue_lt_succ w)

theorem magnitudeValue_nonneg (w : Width) (m : Nat) : 0 ≤ magnitudeValue w m := by
  have h := (strictMono_magnitudeValue w).monotone (Nat.zero_le m)
  rwa [magnitudeValue_zero] at h

theorem magnitudeValue_infinity (w : Width) :
    magnitudeValue w w.infinityMagnitude = 2 ^ w.overflowExponent := by
  have hexp : w.overflowExponent
      = ((w.precision - 1 : Nat) : Int) + (w.leastExponent + (w.topBinade : Int)) := by
    cases w <;> rfl
  have hvalue := magnitudeValue_grid w (j := w.topBinade) (n := w.implicitBit) (by omega)
    (.inr le_rfl)
  rw [w.infinityMagnitude_eq, hvalue, hexp, zpow_add₀ (by norm_num) ((w.precision - 1 : Nat) : Int),
    zpow_natCast, w.implicitBit_eq]
  push_cast
  rfl

/-! ## Sign and magnitude of a word -/

/-- A word is its sign bit above its magnitude. -/
theorem toNat_eq (x : Word w) :
    x.toNat = (if isNegative x then w.signBit else 0) + magnitude x := by
  have hlt := x.isLt
  have htwo := w.two_mul_signBit
  unfold isNegative magnitude
  by_cases hx : w.signBit ≤ x.toNat
  · have hmod : x.toNat % w.signBit = x.toNat - w.signBit := by
      rw [Nat.mod_eq_sub_mod hx, Nat.mod_eq_of_lt (by omega)]
    simp only [hx, decide_true, if_true, hmod]
    omega
  · simp only [hx, decide_false, Bool.false_eq_true, if_false, Nat.zero_add]
    exact (Nat.mod_eq_of_lt (by omega)).symm

theorem ofMagnitude_self (x : Word w) : ofMagnitude w (isNegative x) (magnitude x) = x := by
  apply BitVec.eq_of_toNat_eq
  have hbits := x.isLt
  have hx := toNat_eq x
  have hvalue : (if isNegative x then w.signBit + magnitude x else magnitude x) = x.toNat := by
    rw [hx]
    split <;> omega
  rw [ofMagnitude, hvalue, BitVec.toNat_ofNat, Nat.mod_eq_of_lt hbits]

theorem toNat_ofMagnitude (s : Bool) {m : Nat} (hm : m < w.signBit) :
    (ofMagnitude w s m).toNat = if s then w.signBit + m else m := by
  have htwo := w.two_mul_signBit
  rw [ofMagnitude, BitVec.toNat_ofNat]
  apply Nat.mod_eq_of_lt
  split <;> omega

@[simp] theorem magnitude_ofMagnitude (s : Bool) {m : Nat} (hm : m < w.signBit) :
    magnitude (ofMagnitude w s m) = m := by
  rw [magnitude, toNat_ofMagnitude s hm]
  cases s with
  | false => exact Nat.mod_eq_of_lt hm
  | true => simp [Nat.mod_eq_of_lt hm]

@[simp] theorem isNegative_ofMagnitude (s : Bool) {m : Nat} (hm : m < w.signBit) :
    isNegative (ofMagnitude w s m) = s := by
  rw [isNegative, toNat_ofMagnitude s hm]
  cases s with
  | false => simpa using hm
  | true => simp

/-! ## The value of a word -/

/-- **The value of a word**, with an infinity at the power of two that would follow the
greatest finite number. -/
def value (x : Word w) : Rat :=
  if isNegative x then -magnitudeValue w (magnitude x) else magnitudeValue w (magnitude x)

theorem abs_value (x : Word w) : |value x| = magnitudeValue w (magnitude x) := by
  have h := magnitudeValue_nonneg w (magnitude x)
  unfold value
  split
  · rw [abs_neg, abs_of_nonneg h]
  · exact abs_of_nonneg h

theorem decode_of_finite {x : Word w} (h : magnitude x < w.infinityMagnitude) :
    decode x = .finite (isNegative x) (value x) := by
  unfold decode value
  simp only [show ¬ w.infinityMagnitude < magnitude x by omega,
    show magnitude x ≠ w.infinityMagnitude by omega, if_false]
  cases isNegative x <;> rfl

theorem decode_of_infinite {x : Word w} (h : magnitude x = w.infinityMagnitude) :
    decode x = .infinite (isNegative x) := by
  unfold decode
  simp [h]

theorem decode_of_isNaN {x : Word w} (h : isNaN x = true) : decode x = .nan := by
  unfold isNaN at h
  unfold decode
  simp only [of_decide_eq_true h, if_true]

/-- The three kinds of words. -/
theorem decode_cases (x : Word w) :
    (isNaN x = true ∧ decode x = .nan)
      ∨ (isNaN x = false ∧ magnitude x = w.infinityMagnitude
        ∧ decode x = .infinite (isNegative x))
      ∨ (isNaN x = false ∧ magnitude x < w.infinityMagnitude
        ∧ decode x = .finite (isNegative x) (value x)) := by
  by_cases hnan : w.infinityMagnitude < magnitude x
  · have h : isNaN x = true := decide_eq_true hnan
    exact .inl ⟨h, decode_of_isNaN h⟩
  · have h : isNaN x = false := decide_eq_false hnan
    by_cases hinf : magnitude x = w.infinityMagnitude
    · exact .inr (.inl ⟨h, hinf, decode_of_infinite hinf⟩)
    · exact .inr (.inr ⟨h, by omega, decode_of_finite (by omega)⟩)

theorem isNaN_iff_decode (x : Word w) : isNaN x = true ↔ decode x = .nan := by
  obtain ⟨h, hx⟩ | ⟨h, -, hx⟩ | ⟨h, -, hx⟩ := decode_cases x <;> simp [h, hx]

theorem value_of_infinite {x : Word w} {s : Bool} (h : decode x = .infinite s) :
    isNaN x = false ∧ value x = if s then -2 ^ w.overflowExponent else 2 ^ w.overflowExponent := by
  obtain ⟨-, hx⟩ | ⟨hnan, hinf, hx⟩ | ⟨-, -, hx⟩ := decode_cases x
  · simp [hx] at h
  · obtain rfl : isNegative x = s := by simpa [hx] using h
    rw [value, hinf, magnitudeValue_infinity]
    exact ⟨hnan, rfl⟩
  · simp [hx] at h

theorem value_of_finite {x : Word w} {s : Bool} {q : Rat} (h : decode x = .finite s q) :
    magnitude x < w.infinityMagnitude ∧ isNaN x = false ∧ isNegative x = s ∧ value x = q := by
  obtain ⟨-, hx⟩ | ⟨-, -, hx⟩ | ⟨hnan, hfinite, hx⟩ := decode_cases x
  · simp [hx] at h
  · simp [hx] at h
  · obtain ⟨rfl, rfl⟩ : isNegative x = s ∧ value x = q := by simpa [hx] using h
    exact ⟨hfinite, hnan, rfl, rfl⟩

/-! ## Order -/

/-- The values of the integers that `orderKey` gives. -/
def keyValue (w : Width) : Int → Rat
  | .ofNat m => magnitudeValue w m
  | .negSucc m => -magnitudeValue w (m + 1)

theorem strictMono_keyValue (w : Width) : StrictMono (keyValue w) := by
  apply strictMono_int_of_lt_succ
  intro key
  cases key with
  | ofNat m => exact magnitudeValue_lt_succ w m
  | negSucc m =>
    have hlt := magnitudeValue_lt_succ w m
    cases m with
    | zero =>
      rw [magnitudeValue_zero] at hlt
      show -magnitudeValue w 1 < magnitudeValue w 0
      rw [magnitudeValue_zero]
      linarith
    | succ m =>
      show -magnitudeValue w (m + 1 + 1) < -magnitudeValue w (m + 1)
      linarith

theorem value_eq_keyValue (x : Word w) : value x = keyValue w (orderKey x) := by
  unfold value orderKey
  split
  · cases magnitude x with
    | zero => simp [keyValue]
    | succ m => rfl
  · rfl

/-- **Words compare as their values do.** -/
theorem orderKey_lt_iff (x y : Word w) : orderKey x < orderKey y ↔ value x < value y := by
  rw [value_eq_keyValue, value_eq_keyValue, (strictMono_keyValue w).lt_iff_lt]

theorem orderKey_le_iff (x y : Word w) : orderKey x ≤ orderKey y ↔ value x ≤ value y := by
  rw [value_eq_keyValue, value_eq_keyValue, (strictMono_keyValue w).le_iff_le]

theorem lt_iff (x y : Word w) :
    lt x y = true ↔ isNaN x = false ∧ isNaN y = false ∧ value x < value y := by
  rw [← orderKey_lt_iff]
  simp [lt, comparable, and_assoc]

theorem le_iff (x y : Word w) :
    le x y = true ↔ isNaN x = false ∧ isNaN y = false ∧ value x ≤ value y := by
  rw [← orderKey_le_iff]
  simp [le, comparable, and_assoc]

end Floating

end WasmExec
