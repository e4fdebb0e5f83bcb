/-
Floating point to integers, exactly.

The conversions of the library take the exact number behind a word, drop its fraction and
compare integers. A machine has no exact numbers. It widens the operand to 64 bits, drops
the fraction there, and compares the result with two bounds that are floating-point
numbers as well: the least integer of the target, which is allowed, and the integer after
the greatest, which is not. `truncateByComparison` is that procedure. It gives the same
for every operand (`truncateByComparison_eq`), because none of its steps rounds: the wide
format has the numbers of the narrow one, the integer part of a number is a number of the
format, and both bounds are zero or powers of two. The greatest integer itself would not
do as a bound, since it has more digits than the format.
-/
import WasmExec.Numeric
import WasmExec.Proofs.Floating.Exact
import WasmExec.Proofs.Floating.Interchange
import WasmExec.Proofs.Instruction.Operand
import WasmExec.Proofs.Integer.Reading

set_option autoImplicit false

namespace WasmExec

/-! ## The range of a target -/

namespace Signedness

/-- The two bounds of a range, as powers of two. -/
theorem least_eq (sign : Signedness) (w : Width) :
    sign.least w = match sign with
      | .signed => -2 ^ (w.bits - 1)
      | .unsigned => 0 := by
  cases sign <;> cases w <;> rfl

theorem greatest_add_one_eq (sign : Signedness) (w : Width) :
    sign.greatest w + 1 = match sign with
      | .signed => 2 ^ (w.bits - 1)
      | .unsigned => 2 ^ w.bits := by
  cases sign <;> cases w <;> rfl

end Signedness

namespace Floating

/-! ## The integer part -/

/-- **The integer part toward zero** of a rational: the last integer on the way from zero
to it. -/
def IsIntegerPart (q : Rat) (t : Int) : Prop :=
  (0 ≤ q → (t : Rat) ≤ q ∧ q < t + 1) ∧ (q ≤ 0 → q ≤ t ∧ (t : Rat) - 1 < q)

theorem isIntegerPart_truncateInt (q : Rat) : IsIntegerPart q (truncateInt q) := by
  have hfloor := Rat.floor_le q
  have hfloor' := Rat.lt_floor_add_one q
  have hceil := @Rat.le_ceil q
  have hceil' := @Rat.ceil_lt q
  push_cast at hfloor'
  unfold truncateInt
  by_cases hneg : q < 0
  · rw [if_pos hneg]
    refine ⟨fun hpos => absurd hneg (not_lt.mpr hpos), fun _ => ⟨hceil, by linarith⟩⟩
  · rw [if_neg hneg]
    refine ⟨fun _ => ⟨hfloor, hfloor'⟩, fun hle => ?_⟩
    obtain rfl : q = 0 := le_antisymm hle (not_lt.mp hneg)
    have hzero : Rat.floor 0 = 0 := Rat.floor_intCast 0
    simp [hzero]

theorem IsIntegerPart.eq_truncateInt {q : Rat} {t : Int} (h : IsIntegerPart q t) :
    t = truncateInt q := by
  unfold truncateInt
  by_cases hneg : q < 0
  · obtain ⟨hle, hlt⟩ := h.2 hneg.le
    have hceil : q.ceil ≤ t := Rat.ceil_le_iff.mpr hle
    have hceil' : (t : Rat) - 1 < q.ceil := hlt.trans_le Rat.le_ceil
    rw [if_pos hneg]
    have hint : t - 1 < q.ceil := by exact_mod_cast hceil'
    omega
  · obtain ⟨hle, hlt⟩ := h.1 (not_lt.mp hneg)
    have hfloor : t ≤ q.floor := Rat.le_floor_iff.mpr hle
    have hfloor' : (q.floor : Rat) < t + 1 := (Rat.floor_le q).trans_lt hlt
    rw [if_neg hneg]
    have hint : q.floor < t + 1 := by exact_mod_cast hfloor'
    omega

/-- Every rational has exactly one integer part. -/
theorem isIntegerPart_iff (q : Rat) (t : Int) : IsIntegerPart q t ↔ t = truncateInt q := by
  refine ⟨IsIntegerPart.eq_truncateInt, ?_⟩
  rintro rfl
  exact isIntegerPart_truncateInt q

theorem truncateInt_intCast (t : Int) : truncateInt (t : Rat) = t := by
  simp [truncateInt]

theorem floor_le_truncateInt (q : Rat) : q.floor ≤ truncateInt q := by
  unfold truncateInt
  split
  · exact_mod_cast (Rat.floor_le q).trans Rat.le_ceil
  · exact le_rfl

theorem truncateInt_le_ceil (q : Rat) : truncateInt q ≤ q.ceil := by
  unfold truncateInt
  split
  · exact le_rfl
  · exact_mod_cast (Rat.floor_le q).trans Rat.le_ceil

/-! ## What the conversions do with each kind of number -/

section

variable {source : Width} (target : Width) (sign : Signedness) {x : Word source} {s : Bool}
  {q : Rat}

theorem truncate_of_nan (hx : decode x = .nan) :
    truncate target sign x = .error (.trap .invalidConversion)
      ∧ truncateSaturating target sign x = 0 := by
  simp [truncate, truncateSaturating, hx]

theorem truncate_of_infinite (hx : decode x = .infinite s) :
    truncate target sign x = .error (.trap .integerOverflow)
      ∧ truncateSaturating target sign x
        = BitVec.ofInt target.bits (if s then sign.least target else sign.greatest target) := by
  simp [truncate, truncateSaturating, hx]

theorem truncate_of_finite (hx : decode x = .finite s q) :
    truncate target sign x
      = if sign.least target ≤ truncateInt q ∧ truncateInt q ≤ sign.greatest target
        then .ok (BitVec.ofInt target.bits (truncateInt q))
        else .error (.trap .integerOverflow) := by
  simp only [truncate, hx]

/-- The saturating conversion holds the integer part within the range. -/
theorem truncateSaturating_of_finite (hx : decode x = .finite s q) :
    truncateSaturating target sign x
      = BitVec.ofInt target.bits
        (Max.max (sign.least target) (Min.min (truncateInt q) (sign.greatest target))) := by
  have hrange : sign.least target ≤ sign.greatest target := by
    cases sign <;> cases target <;> decide
  simp only [truncateSaturating, hx]
  congr 1
  omega

/-- **What the trapping conversion gives, the saturating one gives.** -/
theorem truncateSaturating_of_truncate {n : Word target} (h : truncate target sign x = .ok n) :
    truncateSaturating target sign x = n := by
  cases hx : decode x with
  | nan => simp [truncate_of_nan target sign hx] at h
  | infinite s => simp [truncate_of_infinite target sign hx] at h
  | finite s q =>
    rw [truncate_of_finite target sign hx] at h
    by_cases hin : sign.least target ≤ truncateInt q ∧ truncateInt q ≤ sign.greatest target
    · have hclamp : Max.max (sign.least target) (Min.min (truncateInt q) (sign.greatest target))
          = truncateInt q := by omega
      rw [if_pos hin] at h
      rw [truncateSaturating_of_finite target sign hx, hclamp]
      exact Except.ok.inj h
    · rw [if_neg hin] at h
      cases h

end

/-! ## Truncation by comparisons -/

/-- An operand as a wide word. -/
def widen : {w : Width} → Word w → Word .w64
  | .w32, x => promote x
  | .w64, x => x

theorem decode_widen {w : Width} (x : Word w) : decode (widen x) = decode x := by
  cases w with
  | w32 => exact decode_promote x
  | w64 => rfl

/-- **Truncation as a machine does it**: the fraction is dropped in the wide format, and
the result compared with the least integer of the target and with the one after the
greatest. -/
def truncateByComparison {source : Width} (target : Width) (sign : Signedness)
    (x : Word source) : Except Fault (Word target) :=
  let lower : Word .w64 := ofInt .w64 (sign.least target)
  let upper : Word .w64 := ofInt .w64 (sign.greatest target + 1)
  let y := widen x
  if isNaN y then .error (.trap .invalidConversion)
  else
    let t := trunc y
    if lt t lower || le upper t then .error (.trap .integerOverflow)
    else .ok (truncateSaturating target sign t)

/-- Powers of two up to the length of the widest word are exact. -/
theorem isRepresentable_twoPow {e : Nat} (h : e ≤ 64) :
    IsRepresentable .w64 (((2 : Int) ^ e : Int) : Rat) := by
  have hexp : (e : Int) < 1024 := by omega
  rw [isRepresentable_iff]
  push_cast
  rw [abs_of_nonneg (by positivity), ← zpow_natCast]
  refine ⟨zpow_lt_zpow_right₀ (by norm_num) hexp, 1, e, by decide, ?_, by simp⟩
  show (-1074 : Int) ≤ e
  omega

theorem isRepresentable_least (sign : Signedness) (w : Width) :
    IsRepresentable .w64 ((sign.least w : Int) : Rat) := by
  have hbits : w.bits - 1 ≤ 64 := by cases w <;> decide
  rw [sign.least_eq]
  cases sign with
  | unsigned => exact_mod_cast isRepresentable_zero .w64
  | signed => exact isRepresentable_of_abs_eq (isRepresentable_twoPow hbits) (by push_cast; exact abs_neg _)

theorem isRepresentable_greatest (sign : Signedness) (w : Width) :
    IsRepresentable .w64 ((sign.greatest w + 1 : Int) : Rat) := by
  have hbits : w.bits ≤ 64 := by cases w <;> decide
  rw [sign.greatest_add_one_eq]
  cases sign with
  | unsigned => exact isRepresentable_twoPow hbits
  | signed => exact isRepresentable_twoPow (by omega)

/-- What a comparison with an exact integer sees of it. -/
theorem value_ofInt {w : Width} {n : Int} (h : IsRepresentable w (n : Rat)) :
    isNaN (ofInt w n) = false ∧ value (ofInt w n) = n := by
  obtain ⟨-, hnan, -, hvalue⟩ := value_of_finite (decode_ofRat h false)
  exact ⟨hnan, hvalue⟩

/-- **No step of the comparison rounds**, so it decides what the exact number decides. -/
theorem truncateByComparison_eq {source : Width} (target : Width) (sign : Signedness)
    (x : Word source) : truncateByComparison target sign x = truncate target sign x := by
  have hwide := decode_widen x
  obtain ⟨hlower, hleast⟩ := value_ofInt (isRepresentable_least sign target)
  obtain ⟨hupper, hgreatest⟩ := value_ofInt (isRepresentable_greatest sign target)
  unfold truncateByComparison
  simp only
  cases hx : decode x with
  | nan =>
    rw [hx, ← isNaN_iff_decode] at hwide
    rw [if_pos hwide, (truncate_of_nan target sign hx).1]
  | infinite s =>
    rw [hx] at hwide
    obtain ⟨hnan, hvalue⟩ := value_of_infinite hwide
    have htrunc : trunc (widen x) = widen x := by rw [trunc, roundWith, hwide]
    have hlow := abs_lt.mp (isRepresentable_least sign target).abs_lt
    have hhigh := abs_lt.mp (isRepresentable_greatest sign target).abs_lt
    have hout : (lt (widen x) (ofInt .w64 (sign.least target))
        || le (ofInt .w64 (sign.greatest target + 1)) (widen x)) = true := by
      rw [Bool.or_eq_true, lt_iff, le_iff, hleast, hgreatest, hvalue]
      cases s with
      | true => exact .inl ⟨hnan, hlower, hlow.1⟩
      | false => exact .inr ⟨hupper, hnan, hhigh.2.le⟩
    rw [if_neg (by simp [hnan]), htrunc, if_pos hout, (truncate_of_infinite target sign hx).1]
  | finite s q =>
    rw [hx] at hwide
    obtain ⟨-, hnan, -, -⟩ := value_of_finite hwide
    have htrunc : decode (trunc (widen x)) = .finite s (truncateInt q) :=
      decode_roundWith floor_le_truncateInt truncateInt_le_ceil hwide
    obtain ⟨-, hnan', -, hvalue⟩ := value_of_finite htrunc
    have hout : (lt (trunc (widen x)) (ofInt .w64 (sign.least target))
        || le (ofInt .w64 (sign.greatest target + 1)) (trunc (widen x))) = true
        ↔ ¬ (sign.least target ≤ truncateInt q ∧ truncateInt q ≤ sign.greatest target) := by
      rw [Bool.or_eq_true, lt_iff, le_iff, hleast, hgreatest, hvalue, Int.cast_lt, Int.cast_le]
      simp only [hlower, hupper, hnan', true_and]
      omega
    rw [if_neg (by simp [hnan]), truncate_of_finite target sign hx]
    by_cases hin : sign.least target ≤ truncateInt q ∧ truncateInt q ≤ sign.greatest target
    · -- the number without its fraction is converted a second time, to the same integer
      have hagain : truncate target sign (trunc (widen x))
          = .ok (BitVec.ofInt target.bits (truncateInt q)) := by
        rw [truncate_of_finite target sign htrunc, truncateInt_intCast, if_pos hin]
      rw [if_neg (by rw [hout]; exact not_not.mpr hin), if_pos hin,
        truncateSaturating_of_truncate target sign hagain]
    · rw [if_pos (hout.mpr hin), if_neg hin]

end Floating

/-! ## The instructions -/

namespace NumOp

open Floating (interchange IsIntegerPart truncateByComparison)

theorem apply_truncate (source target : Width) (sign : Signedness) (x : Word source) :
    (NumOp.convert (.truncate source target sign false)).apply [.float source x]
      = (Floating.truncate target sign x).map (Value.int target) := by
  have hstep : (NumOp.convert (.truncate source target sign false)).apply [.float source x]
      = (do return Value.int target (← Floating.truncate target sign x)) := by
    rw [NumOp.apply, Conversion.apply, Value.asFloat_self]
    rfl
  rw [hstep]
  cases Floating.truncate target sign x <;> rfl

theorem apply_truncateSaturating (source target : Width) (sign : Signedness) (x : Word source) :
    (NumOp.convert (.truncate source target sign true)).apply [.float source x]
      = .ok (.int target (Floating.truncateSaturating target sign x)) := by
  rw [NumOp.apply, Conversion.apply, Value.asFloat_self]
  rfl

/-- **Truncation is exact.** A NaN has no integer part, and the trapping conversion says
so while the saturating one gives zero. A finite number has one integer part. The trapping
conversion gives its pattern if it is in the range of the target, which is the range of
what the words of the target stand for, and overflows otherwise; the saturating conversion
goes to the nearer end of the range. An infinity is beyond every range. So the two never
disagree on an integer, and comparing floating-point numbers decides the same. -/
theorem truncate_exact (source target : Width) (sign : Signedness) (x : Word source) :
    let trapping := (NumOp.convert (.truncate source target sign false)).apply [.float source x]
    let saturating := (NumOp.convert (.truncate source target sign true)).apply [.float source x]
    let least := sign.least target
    let greatest := sign.greatest target
    (match interchange x with
      | .nan =>
        trapping = .error (.trap .invalidConversion) ∧ saturating = .ok (.int target 0)
      | .infinite negative =>
        trapping = .error (.trap .integerOverflow)
          ∧ saturating = .ok (.int target
            (BitVec.ofInt target.bits (if negative then least else greatest)))
      | .finite _ q => ∃ t, (∀ i, IsIntegerPart q i ↔ i = t)
          ∧ trapping = (if least ≤ t ∧ t ≤ greatest
            then .ok (.int target (BitVec.ofInt target.bits t))
            else .error (.trap .integerOverflow))
          ∧ saturating = .ok (.int target
            (BitVec.ofInt target.bits (max least (min t greatest)))))
      ∧ (∀ t, least ≤ t ∧ t ≤ greatest ↔ sign.read (BitVec.ofInt target.bits t) = t)
      ∧ (∀ n, trapping = .ok n → saturating = .ok n)
      ∧ trapping = (truncateByComparison target sign x).map (Value.int target) := by
  intro trapping saturating least greatest
  have htrapping : trapping = (Floating.truncate target sign x).map (Value.int target) :=
    apply_truncate source target sign x
  have hsaturating :
      saturating = .ok (.int target (Floating.truncateSaturating target sign x)) :=
    apply_truncateSaturating source target sign x
  have hcomparison : trapping = (truncateByComparison target sign x).map (Value.int target) := by
    rw [htrapping, Floating.truncateByComparison_eq]
  refine ⟨?_, sign.mem_range_iff target, ?_, hcomparison⟩
  · rw [htrapping, hsaturating, ← Floating.decode_eq_interchange]
    cases hx : Floating.decode x with
    | nan =>
      obtain ⟨htrap, hzero⟩ := Floating.truncate_of_nan target sign hx
      rw [htrap, hzero]
      exact ⟨rfl, rfl⟩
    | infinite s =>
      obtain ⟨htrap, hend⟩ := Floating.truncate_of_infinite target sign hx
      rw [htrap, hend]
      exact ⟨rfl, rfl⟩
    | finite s q =>
      refine ⟨Floating.truncateInt q, Floating.isIntegerPart_iff q, ?_, ?_⟩
      · rw [Floating.truncate_of_finite target sign hx]
        split <;> rfl
      · rw [Floating.truncateSaturating_of_finite target sign hx]
  · intro n hn
    rw [htrapping] at hn
    cases htrap : Floating.truncate target sign x with
    | error fault =>
      rw [htrap] at hn
      cases hn
    | ok word =>
      rw [htrap] at hn
      rw [hsaturating, Floating.truncateSaturating_of_truncate target sign htrap]
      exact hn

/-- A number between minus one and zero is below the range of unsigned integers, and its
integer part is not. -/
theorem truncate_exact_below_zero :
    (NumOp.convert (.truncate .w32 .w32 .unsigned false)).apply [.float .w32 0xbf666666#32]
        = .ok (.int .w32 0)
      ∧ (NumOp.convert (.truncate .w32 .w32 .unsigned true)).apply [.float .w32 0xbf666666#32]
        = .ok (.int .w32 0) := by
  have htrapping : (NumOp.convert (.truncate .w32 .w32 .unsigned false)).apply
      [.float .w32 0xbf666666#32] = .ok (.int .w32 0) := by decide +kernel
  exact ⟨htrapping, (truncate_exact .w32 .w32 .unsigned 0xbf666666#32).2.2.1 _ htrapping⟩

end NumOp

end WasmExec
