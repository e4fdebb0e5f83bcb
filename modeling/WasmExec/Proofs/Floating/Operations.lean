/-
Exact arithmetic, rounded once.

IEEE 754 defines an operation in two steps. The operands have an exact result, which need not be a
number of the format, and the result of the operation is what that is rounded to. Here the two steps
are kept apart. There is an arithmetic of numbers that knows nothing of formats, with infinities
and signed zeros (`Number.add`, `Number.mul`, `Number.inv`), and there is the word that a number is
rounded to (`Rounds`), by the rule of the standard for nearest numbers and overflow.

Four operations come of three. A difference is a sum with the opposite, and a quotient a product
with the inverse, for which zero and infinity are inverse to each other. The library finds
quotients by cases of its own, and that these come out the same is most of what there is to prove
about it.

Rounding never makes a NaN of a number. So the invalid operations are those that have no exact
result, and the standard's list of them can be read off the arithmetic (`exact_eq_nan_iff`).
-/
import WasmExec.Proofs.Floating.Bits
import WasmExec.Proofs.Floating.SquareRoot

set_option autoImplicit false

namespace WasmExec

namespace Floating

/-! ## Exact results -/

namespace Number

/-- **The exact sum.** Opposite infinities have none. A sum of zero is positive, unless both
numbers have the negative sign, which only zeros can. -/
def add : Number → Number → Number
  | .nan, _ => .nan
  | _, .nan => .nan
  | .infinite s, .infinite t => if s = t then .infinite s else .nan
  | .infinite s, .finite _ _ => .infinite s
  | .finite _ _, .infinite t => .infinite t
  | .finite s p, .finite t q => .finite (if p + q = 0 then s && t else decide (p + q < 0)) (p + q)

/-- **The exact product.** Zero and infinity have none. -/
def mul : Number → Number → Number
  | .nan, _ => .nan
  | _, .nan => .nan
  | .infinite s, .infinite t => .infinite (s ^^ t)
  | .infinite s, .finite t q => if q = 0 then .nan else .infinite (s ^^ t)
  | .finite s p, .infinite t => if p = 0 then .nan else .infinite (s ^^ t)
  | .finite s p, .finite t q => .finite (s ^^ t) (p * q)

/-- **The exact inverse.** Zero and infinity are inverse to each other. -/
def inv : Number → Number
  | .nan => .nan
  | .infinite s => .finite s 0
  | .finite s q => if q = 0 then .infinite s else .finite s q⁻¹

/-- The sign of a number, which a NaN has not. -/
def sign? : Number → Option Bool
  | .nan => none
  | .infinite s => some s
  | .finite s _ => some s

theorem sign?_eq_none_iff (a : Number) : a.sign? = none ↔ a = .nan := by
  cases a <;> simp [sign?]

/-- **Signs multiply**, those of zeros and infinities as well. -/
theorem sign?_mul {a b : Number} {s t : Bool} (ha : a.sign? = some s) (hb : b.sign? = some t)
    (h : a.mul b ≠ .nan) : (a.mul b).sign? = some (s ^^ t) := by
  fun_cases mul a b
  case case1 => cases ha
  case case2 => cases hb
  -- zero and infinity, in either order
  case case4 | case6 =>
    rw [mul, if_pos rfl] at h
    exact absurd rfl h
  all_goals
    obtain rfl := Option.some.inj ha
    obtain rfl := Option.some.inj hb
    rfl

theorem sign?_inv (a : Number) : a.inv.sign? = a.sign? := by
  cases a with
  | nan => rfl
  | infinite s => rfl
  | finite s q =>
    rw [inv]
    split_ifs <;> rfl

/-- Zeros are not below zero, whatever their sign. -/
def IsBelowZero : Number → Prop
  | .nan => False
  | .infinite s => s = true
  | .finite _ q => q < 0

end Number

/-- The operations that have an exact result. -/
inductive Arithmetic where
  | sum
  | difference
  | product
  | quotient
deriving DecidableEq

namespace Arithmetic

/-- The instruction of an operation. -/
def op : Arithmetic → FloatBinary
  | .sum => .add
  | .difference => .sub
  | .product => .mul
  | .quotient => .div

/-- **The exact result.** -/
def exact : Arithmetic → Number → Number → Number
  | .sum, a, b => a.add b
  | .difference, a, b => a.add b.neg
  | .product, a, b => a.mul b
  | .quotient, a, b => a.mul b.inv

/-- **The invalid operations** of the standard, and those on a NaN. -/
def IsInvalid (operation : Arithmetic) (a b : Number) : Prop :=
  a = .nan ∨ b = .nan ∨
    match operation with
    | .sum => ∃ s, a = .infinite s ∧ b = .infinite !s
    | .difference => ∃ s, a = .infinite s ∧ b = .infinite s
    | .product => ∃ s t, a = .infinite s ∧ b = .finite t 0 ∨ a = .finite s 0 ∧ b = .infinite t
    | .quotient =>
      ∃ s t, a = .infinite s ∧ b = .infinite t ∨ a = .finite s 0 ∧ b = .finite t 0

/-- Only the invalid operations have no exact result. -/
theorem exact_eq_nan_iff (operation : Arithmetic) (a b : Number) :
    operation.exact a b = .nan ↔ operation.IsInvalid a b := by
  cases a with
  | nan => cases operation <;> exact iff_of_true rfl (.inl rfl)
  | infinite s =>
    cases b with
    | nan => cases operation <;> exact iff_of_true rfl (.inr (.inl rfl))
    | infinite t => cases operation <;> cases s <;> cases t <;>
        simp [exact, IsInvalid, Number.add, Number.neg, Number.mul, Number.inv]
    | finite t q => cases operation <;> by_cases hq : q = 0 <;>
        simp [exact, IsInvalid, Number.add, Number.neg, Number.mul, Number.inv, hq]
  | finite s p =>
    cases b with
    | nan => cases operation <;> exact iff_of_true rfl (.inr (.inl rfl))
    | infinite t => cases operation <;>
        simp [exact, IsInvalid, Number.add, Number.neg, Number.mul, Number.inv]
    | finite t q => cases operation <;> by_cases hq : q = 0 <;>
        simp [exact, IsInvalid, Number.add, Number.neg, Number.mul, Number.inv, hq]

end Arithmetic

/-! ## Rounding -/

variable {w : Width}

/-- **The word that a number is rounded to.** For a rational it is the only one that the rule
allows, and an infinity is a number of the format. -/
def Rounds (a : Number) (z : Word w) : Prop :=
  match a with
  | .nan => interchange z = .nan
  | .infinite s => interchange z = .infinite s
  | .finite s q => ∀ v : Word w, IsRounded s q v ↔ v = z

theorem rounds_of_isNaN {z : Word w} (h : isNaN z = true) : Rounds .nan z :=
  (isNaN_iff_interchange z).mp h

theorem rounds_invalid : Rounds .nan (invalid w) :=
  rounds_of_isNaN (by cases w <;> decide)

theorem rounds_firstNaN {x y : Word w} (h : isNaN x = true ∨ isNaN y = true) :
    Rounds .nan (firstNaN x y) := by
  apply rounds_of_isNaN
  rw [firstNaN]
  split_ifs with hx
  · exact isNaN_quiet hx
  · exact isNaN_quiet (h.resolve_left hx)

theorem rounds_infinity (s : Bool) : Rounds (.infinite s) (infinity w s) := by
  rw [Rounds, ← decode_eq_interchange, decode_infinity]

theorem rounds_of_infinite {x : Word w} {s : Bool} (h : decode x = .infinite s) :
    Rounds (.infinite s) x := by
  rwa [Rounds, ← decode_eq_interchange]

theorem rounds_ofRat {s : Bool} {q : Rat} (h : AgreesInSign s q) :
    Rounds (.finite s q) (ofRat w s q) :=
  fun v => isRounded_iff h v

theorem IsRounded.sign? {s : Bool} {q : Rat} {z : Word w} (h : IsRounded s q z) :
    (interchange z).sign? = some s := by
  unfold IsRounded at h
  split_ifs at h
  · obtain ⟨v, hz, -⟩ := h
    rw [hz, Number.sign?]
  · rw [h, Number.sign?]

/-- Rounding keeps the sign, also where it goes to zero or to infinity. -/
theorem Rounds.sign? {a : Number} {z : Word w} (h : Rounds a z) :
    (interchange z).sign? = a.sign? := by
  cases a with
  | nan => exact congrArg Number.sign? (h : interchange z = .nan)
  | infinite s => exact congrArg Number.sign? (h : interchange z = .infinite s)
  | finite s q => exact ((h z).mpr rfl).sign?

/-- Only a NaN has no sign, so rounding makes no other. -/
theorem Rounds.interchange_eq_nan_iff {a : Number} {z : Word w} (h : Rounds a z) :
    interchange z = .nan ↔ a = .nan := by
  rw [← Number.sign?_eq_none_iff, h.sign?, Number.sign?_eq_none_iff]

/-- The sign of a number is the sign bit of its words. -/
theorem sign?_interchange {z : Word w} (h : interchange z ≠ .nan) :
    (interchange z).sign? = some z.msb := by
  rw [← decode_eq_interchange] at h ⊢
  obtain ⟨-, hz⟩ | ⟨-, -, hz⟩ | ⟨-, -, hz⟩ := decode_cases z
  · exact absurd hz h
  · rw [hz, Number.sign?, isNegative_eq_msb]
  · rw [hz, Number.sign?, isNegative_eq_msb]

/-! ## Signs -/

theorem agreesInSign_of_finite {x : Word w} {s : Bool} {q : Rat} (h : decode x = .finite s q) :
    AgreesInSign s q := by
  obtain ⟨-, -, rfl, rfl⟩ := value_of_finite h
  exact agreesInSign_value x

theorem AgreesInSign.mul {s t : Bool} {p q : Rat} (hp : AgreesInSign s p)
    (hq : AgreesInSign t q) : AgreesInSign (s ^^ t) (p * q) := by
  cases s <;> cases t
  · exact mul_nonneg hp hq
  · exact mul_nonpos_of_nonneg_of_nonpos hp hq
  · exact mul_nonpos_of_nonpos_of_nonneg hp hq
  · exact mul_nonneg_of_nonpos_of_nonpos hp hq

theorem AgreesInSign.inv {s : Bool} {q : Rat} (hq : AgreesInSign s q) : AgreesInSign s q⁻¹ := by
  cases s
  · exact inv_nonneg.mpr hq
  · exact inv_nonpos.mpr hq

theorem agreesInSign_zero (s : Bool) : AgreesInSign s 0 := by
  cases s <;> exact le_rfl

/-- A zero is a number of the format, so it is rounded to itself. -/
theorem Rounds.interchange_of_zero {s : Bool} {z : Word w} (h : Rounds (.finite s 0) z) :
    interchange z = .finite s 0 := by
  have hzero : z = ofRat w s 0 := (rounds_ofRat (agreesInSign_zero s) z).mp ((h z).mpr rfl)
  rw [hzero, ← decode_eq_interchange, decode_ofRat (isRepresentable_zero w), if_pos rfl]

/-- Only a zero needs to be given a sign. -/
theorem ofRat_signed (s : Bool) (q : Rat) :
    ofRat w s q = ofRat w (if q = 0 then s else decide (q < 0)) q := by
  by_cases hq : q = 0
  · rw [if_pos hq]
  · rw [ofRat, ofRat, if_neg hq, if_neg hq]

theorem agreesInSign_signed (s : Bool) (q : Rat) :
    AgreesInSign (if q = 0 then s else decide (q < 0)) q := by
  by_cases hq : q = 0
  · rw [hq]
    exact agreesInSign_zero _
  · rw [if_neg hq]
    exact agreesInSign_decide q

/-! ## The four operations -/

/-- On a NaN all operations do the same. -/
theorem eval_op_of_isNaN (operation : Arithmetic) {x y : Word w}
    (h : isNaN x = true ∨ isNaN y = true) : operation.op.eval x y = firstNaN x y := by
  have hadd : ∀ {u v : Word w}, isNaN u = true ∨ isNaN v = true → add u v = firstNaN u v := by
    intro u v huv
    rw [isNaN_iff_decode, isNaN_iff_decode] at huv
    obtain hu | hv := huv
    · rw [add, hu]
    · cases hu : decode u <;> rw [add, hu, hv]
  rw [isNaN_iff_decode, isNaN_iff_decode] at h
  cases operation with
  | sum => exact hadd (by rwa [isNaN_iff_decode, isNaN_iff_decode])
  | difference =>
    change sub x y = firstNaN x y
    rw [sub]
    split_ifs with hy
    · rfl
    · have hx := h.resolve_right fun hdecode => hy ((isNaN_iff_decode y).mpr hdecode)
      rw [← isNaN_iff_decode] at hx
      rw [hadd (.inl hx), firstNaN, firstNaN, if_pos hx, if_pos hx]
  | product =>
    change mul x y = firstNaN x y
    obtain hx | hy := h
    · rw [mul, hx]
    · cases hx : decode x <;> rw [mul, hx, hy]
  | quotient =>
    change div x y = firstNaN x y
    obtain hx | hy := h
    · rw [div, hx]
    · cases hx : decode x <;> rw [div, hx, hy]

section

variable {x y : Word w} (hx : isNaN x = false) (hy : isNaN y = false)

include hx in
theorem infinite_or_finite : (∃ s, decode x = .infinite s) ∨ ∃ s q, decode x = .finite s q := by
  obtain ⟨hnan, -⟩ | ⟨-, -, h⟩ | ⟨-, -, h⟩ := decode_cases x
  · rw [hx] at hnan
    cases hnan
  · exact .inl ⟨_, h⟩
  · exact .inr ⟨_, _, h⟩

include hx hy

theorem rounds_add : Rounds ((decode x).add (decode y)) (add x y) := by
  obtain ⟨s, hx⟩ | ⟨s, p, hx⟩ := infinite_or_finite hx
  · obtain ⟨t, hy⟩ | ⟨t, q, hy⟩ := infinite_or_finite hy
    · simp only [add, hx, hy, Number.add]
      split_ifs
      · exact rounds_of_infinite hx
      · exact rounds_invalid
    · simp only [add, hx, hy, Number.add]
      exact rounds_of_infinite hx
  · obtain ⟨t, hy⟩ | ⟨t, q, hy⟩ := infinite_or_finite hy
    · simp only [add, hx, hy, Number.add]
      exact rounds_of_infinite hy
    · -- the library leaves the sign to the sum unless that is zero
      simp only [add, hx, hy, Number.add]
      rw [ofRat_signed]
      exact rounds_ofRat (agreesInSign_signed _ _)

theorem rounds_sub : Rounds ((decode x).add (decode y).neg) (sub x y) := by
  rw [sub, if_neg (by simp [hy]), ← decode_neg]
  exact rounds_add hx (by rwa [isNaN_neg])

theorem rounds_mul : Rounds ((decode x).mul (decode y)) (mul x y) := by
  obtain ⟨s, hx⟩ | ⟨s, p, hx⟩ := infinite_or_finite hx
  · obtain ⟨t, hy⟩ | ⟨t, q, hy⟩ := infinite_or_finite hy
    · simp only [mul, hx, hy, Number.mul]
      exact rounds_infinity _
    · simp only [mul, hx, hy, Number.mul]
      split_ifs
      · exact rounds_invalid
      · exact rounds_infinity _
  · obtain ⟨t, hy⟩ | ⟨t, q, hy⟩ := infinite_or_finite hy
    · simp only [mul, hx, hy, Number.mul]
      split_ifs
      · exact rounds_invalid
      · exact rounds_infinity _
    · simp only [mul, hx, hy, Number.mul]
      exact rounds_ofRat ((agreesInSign_of_finite hx).mul (agreesInSign_of_finite hy))

theorem rounds_div : Rounds ((decode x).mul (decode y).inv) (div x y) := by
  obtain ⟨s, hx⟩ | ⟨s, p, hx⟩ := infinite_or_finite hx
  · obtain ⟨t, hy⟩ | ⟨t, q, hy⟩ := infinite_or_finite hy
    · -- the inverse of an infinity is a zero, so this is a product that is not there either
      simp only [div, hx, hy, Number.inv, Number.mul, if_true]
      exact rounds_invalid
    · have hexact : Number.mul (.infinite s) (Number.inv (.finite t q)) = .infinite (s ^^ t) := by
        by_cases hq : q = 0 <;> simp [Number.mul, Number.inv, hq]
      simp only [div, hx, hy, hexact]
      exact rounds_infinity _
  · obtain ⟨t, hy⟩ | ⟨t, q, hy⟩ := infinite_or_finite hy
    · simp only [div, hx, hy, Number.inv, Number.mul, mul_zero]
      exact rounds_ofRat (agreesInSign_zero _)
    · by_cases hq : q = 0
      · simp only [div, hx, hy, Number.inv, if_pos hq, Number.mul]
        split_ifs
        · exact rounds_invalid
        · exact rounds_infinity _
      · simp only [div, hx, hy, Number.inv, if_neg hq, Number.mul, div_eq_mul_inv]
        exact rounds_ofRat ((agreesInSign_of_finite hx).mul (agreesInSign_of_finite hy).inv)

end

/-- **Every operation rounds its exact result.** -/
theorem rounds_operation (operation : Arithmetic) (x y : Word w) :
    Rounds (operation.exact (decode x) (decode y)) (operation.op.eval x y) := by
  by_cases h : isNaN x = true ∨ isNaN y = true
  · have hexact : operation.exact (decode x) (decode y) = .nan := by
      rw [operation.exact_eq_nan_iff]
      rw [isNaN_iff_decode, isNaN_iff_decode] at h
      exact h.imp_right .inl
    rw [hexact, eval_op_of_isNaN operation h]
    exact rounds_firstNaN h
  · rw [not_or, Bool.not_eq_true, Bool.not_eq_true] at h
    cases operation with
    | sum => exact rounds_add h.1 h.2
    | difference => exact rounds_sub h.1 h.2
    | product => exact rounds_mul h.1 h.2
    | quotient => exact rounds_div h.1 h.2

/-! ## The root -/

/-- **The root of a number.** The root of a zero is that zero. Above zero it is the number of the
format that is nearer than every other to the real root. -/
def IsRoot (a : Number) (z : Word w) : Prop :=
  match a with
  | .nan => interchange z = .nan
  | .infinite s => interchange z = if s then .nan else .infinite false
  | .finite s q =>
    if q < 0 then interchange z = .nan
    else if q = 0 then interchange z = .finite s 0
    else ∃ v, interchange z = .finite false v ∧
      ∀ (y : Word w) (t : Bool) (u : Rat), interchange y = .finite t u → u ≠ v →
        |(v : ℝ) - √(q : ℝ)| < |(u : ℝ) - √(q : ℝ)|

theorem isRoot_sqrt (x : Word w) : IsRoot (decode x) (sqrt x) := by
  cases hx : decode x with
  | nan =>
    rw [sqrt, hx]
    exact rounds_of_isNaN (isNaN_quiet ((isNaN_iff_decode x).mpr hx))
  | infinite s =>
    rw [sqrt, hx]
    cases s
    · exact rounds_of_infinite hx
    · exact rounds_invalid
  | finite s q =>
    have hsign := agreesInSign_of_finite hx
    rw [IsRoot]
    split_ifs with hneg hzero
    · -- a number below zero has the negative sign
      have hs : s = true := by
        cases s
        · exact absurd hneg (not_lt.mpr hsign)
        · rfl
      rw [sqrt, hx]
      dsimp only
      rw [if_neg hneg.ne, if_pos hs]
      exact rounds_invalid
    · rw [sqrt, hx]
      dsimp only
      rw [if_pos hzero, ← decode_eq_interchange, hx, hzero]
    · have hpos : 0 < q := lt_of_le_of_ne (not_lt.mp hneg) (Ne.symm hzero)
      have hs : s = false := by
        cases s
        · rfl
        · exact absurd hpos (not_lt.mpr hsign)
      rw [hs] at hx
      obtain ⟨v, hv, hnear⟩ := decode_sqrt hx hpos
      refine ⟨v, by rwa [← decode_eq_interchange], fun y t u hy => hnear y t u ?_⟩
      rwa [decode_eq_interchange]

/-- Only a number below zero has no root. -/
theorem IsRoot.interchange_eq_nan_iff {a : Number} {z : Word w} (h : IsRoot a z) :
    interchange z = .nan ↔ a = .nan ∨ a.IsBelowZero := by
  cases a with
  | nan => exact iff_of_true h (.inl rfl)
  | infinite s =>
    have hz : interchange z = if s then .nan else .infinite false := h
    rw [hz]
    cases s <;> simp [Number.IsBelowZero]
  | finite s q =>
    rw [IsRoot] at h
    split_ifs at h with hneg hzero
    · exact iff_of_true h (.inr hneg)
    · simp [h, Number.IsBelowZero, hneg]
    · obtain ⟨v, hz, -⟩ := h
      simp [hz, Number.IsBelowZero, hneg]

end Floating

/-! ## The instructions -/

namespace NumOp

open Floating (interchange Arithmetic Rounds IsRoot)

/-- **Arithmetic is exact arithmetic, rounded once.** The result of an operation is what the exact
result of the two numbers is rounded to, and it is a NaN just if there is none. The root is the
nearest number to the real root, and a NaN just below zero. A sum of zero is negative just if both
operands are, a word less itself is the positive zero, and in products and quotients the signs
multiply. -/
theorem arithmetic_rounds_once (w : Width) :
    let binary := fun op (x y : Word w) => (NumOp.floatBinary w op).apply [.float w x, .float w y]
    let root := fun x : Word w => (NumOp.floatUnary w .sqrt).apply [.float w x]
    (∀ (operation : Arithmetic) x y, ∃ z, binary operation.op x y = .ok (.float w z)
        ∧ Rounds (operation.exact (interchange x) (interchange y)) z
        ∧ (interchange z = .nan ↔ operation.IsInvalid (interchange x) (interchange y)))
      ∧ (∀ x, ∃ z, root x = .ok (.float w z) ∧ IsRoot (interchange x) z
        ∧ (interchange z = .nan ↔ interchange x = .nan ∨ (interchange x).IsBelowZero))
      ∧ (∀ x y s t p q, interchange x = .finite s p → interchange y = .finite t q → p + q = 0 →
        ∃ z, binary .add x y = .ok (.float w z) ∧ interchange z = .finite (s && t) 0)
      ∧ (∀ x s q, interchange x = .finite s q →
        ∃ z, binary .sub x x = .ok (.float w z) ∧ interchange z = .finite false 0)
      ∧ ∀ operation ∈ [Arithmetic.product, .quotient], ∀ x y z,
        binary operation.op x y = .ok (.float w z) → interchange z ≠ .nan →
          z.msb = (x.msb ^^ y.msb) := by
  intro binary root
  have hbinary : ∀ op x y, binary op x y = .ok (.float w (op.eval x y)) := apply_floatBinary w
  have hrounds : ∀ (operation : Arithmetic) (x y : Word w),
      Rounds (operation.exact (interchange x) (interchange y)) (operation.op.eval x y) := by
    intro operation x y
    rw [← Floating.decode_eq_interchange, ← Floating.decode_eq_interchange]
    exact Floating.rounds_operation operation x y
  refine ⟨fun operation x y => ⟨_, hbinary operation.op x y, hrounds operation x y, ?_⟩,
    fun x => ⟨_, apply_floatUnary w .sqrt x, ?_⟩, fun x y s t p q hx hy hsum => ?_,
    fun x s q hx => ?_, fun operation hoperation x y z hz hnumber => ?_⟩
  · rw [(hrounds operation x y).interchange_eq_nan_iff, operation.exact_eq_nan_iff]
  · have hroot := Floating.isRoot_sqrt x
    rw [Floating.decode_eq_interchange] at hroot
    exact ⟨hroot, hroot.interchange_eq_nan_iff⟩
  · have hzero := hrounds .sum x y
    simp only [Arithmetic.exact, hx, hy, Floating.Number.add, hsum, if_true] at hzero
    exact ⟨_, hbinary .add x y, hzero.interchange_of_zero⟩
  · have hzero := hrounds .difference x x
    simp only [Arithmetic.exact, hx, Floating.Number.neg, Floating.Number.add, add_neg_cancel,
      if_true, Bool.and_not_self] at hzero
    exact ⟨_, hbinary .sub x x, hzero.interchange_of_zero⟩
  · obtain rfl : operation.op.eval x y = z := by
      simpa using (hbinary operation.op x y).symm.trans hz
    -- rounding keeps the sign of the exact result, where signs multiply
    have hrounded := hrounds operation x y
    have hexact := mt hrounded.interchange_eq_nan_iff.mpr hnumber
    have hx : interchange x ≠ .nan := fun h =>
      hexact ((operation.exact_eq_nan_iff _ _).mpr (.inl h))
    have hy : interchange y ≠ .nan := fun h =>
      hexact ((operation.exact_eq_nan_iff _ _).mpr (.inr (.inl h)))
    have hxsign := Floating.sign?_interchange hx
    have hysign := Floating.sign?_interchange hy
    have hsign : some (operation.op.eval x y).msb = some (x.msb ^^ y.msb) := by
      rw [← Floating.sign?_interchange hnumber, hrounded.sign?]
      fin_cases hoperation
      · exact Floating.Number.sign?_mul hxsign hysign hexact
      · exact Floating.Number.sign?_mul hxsign ((Floating.Number.sign?_inv _).trans hysign) hexact
    exact Option.some.inj hsign

/-- Two negative zeros add up to a negative zero, and a number less itself is the positive one. The
product of the least numbers of either sign vanishes and keeps the negative sign. A negative zero
is its own root, and has no quotient with the other zero. -/
theorem arithmetic_rounds_once_zeros :
    interchange (w := .w32) 0x80000000#32 = .finite true 0
      ∧ (NumOp.floatBinary .w32 .add).apply [.float .w32 0x80000000#32, .float .w32 0x80000000#32]
        = .ok (.float .w32 0x80000000#32)
      ∧ (NumOp.floatBinary .w32 .sub).apply [.float .w32 0x3dcccccd#32, .float .w32 0x3dcccccd#32]
        = .ok (.float .w32 0x00000000#32)
      ∧ (NumOp.floatBinary .w32 .mul).apply [.float .w32 0x80000001#32, .float .w32 0x00000001#32]
        = .ok (.float .w32 0x80000000#32)
      ∧ (0x80000000#32).msb = ((0x80000001#32).msb ^^ (0x00000001#32).msb)
      ∧ (NumOp.floatUnary .w32 .sqrt).apply [.float .w32 0x80000000#32]
        = .ok (.float .w32 0x80000000#32)
      ∧ ∃ z, interchange z = .nan ∧ (NumOp.floatBinary .w32 .div).apply
        [.float .w32 0x80000000#32, .float .w32 0x00000000#32] = .ok (.float .w32 z) := by
  obtain ⟨hbinary, hroot, hsum, hsame, hsigns⟩ := arithmetic_rounds_once .w32
  have hzero : ∀ (s : Bool) (x : Word .w32),
      interchange x = .finite s 0 ↔ Floating.magnitude x = 0 ∧ Floating.isNegative x = s := by
    intro s x
    rw [← Floating.decode_eq_interchange, Floating.decode_eq_zero_iff]
  have hminus := (hzero true 0x80000000#32).mpr (by decide)
  have hplus := (hzero false 0x00000000#32).mpr (by decide)
  have hword : ∀ {s : Bool} {x z : Word .w32}, interchange x = .finite s 0 →
      interchange z = .finite s 0 → x = z := by
    intro s x z hx hz
    rw [hzero] at hx hz
    exact Floating.eq_of_magnitude (hx.2.trans hz.2.symm) (hx.1.trans hz.1.symm)
  have hproduct : (NumOp.floatBinary .w32 .mul).apply
      [.float .w32 0x80000001#32, .float .w32 0x00000001#32]
        = .ok (.float .w32 0x80000000#32) := by decide +kernel
  refine ⟨hminus, ?_, ?_, hproduct, ?_, ?_, ?_⟩
  · obtain ⟨z, hz, hnegative⟩ := hsum _ _ _ _ _ _ hminus hminus (add_zero 0)
    rwa [hword hnegative hminus] at hz
  · have htenth := Floating.decode_of_finite (w := .w32) (x := 0x3dcccccd#32) (by decide)
    rw [Floating.decode_eq_interchange] at htenth
    obtain ⟨z, hz, hpositive⟩ := hsame _ _ _ htenth
    rwa [hword hpositive hplus] at hz
  · exact hsigns .product (by decide) _ _ _ hproduct
      ((Floating.interchange_ne_nan_iff (w := .w32) _).mpr (by decide))
  · obtain ⟨z, hz, hz', -⟩ := hroot 0x80000000#32
    rw [hminus, IsRoot, if_neg (lt_irrefl _), if_pos rfl] at hz'
    rwa [hword hz' hminus] at hz
  · obtain ⟨z, hz, -, hnan⟩ := hbinary .quotient 0x80000000#32 0x00000000#32
    exact ⟨z, hnan.mpr (.inr (.inr ⟨true, false, .inr ⟨hminus, hplus⟩⟩)), hz⟩

end NumOp

end WasmExec
