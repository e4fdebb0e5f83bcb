/-
Comparisons and the order of numbers.

A word that is not a NaN stands for a point of the extended line: a rational, or one of the two
ends. The library compares words by their magnitudes and looks at no numbers. It has a rational
for the infinities too, the power of two that would follow the greatest finite number, and that
is what connects the two orders. No finite number reaches that power, so putting the infinities
there instead of at the ends of the line changes no comparison (`value_lt_iff`).

Everything else is a fact about the line. It is totally ordered, so of three relations exactly
one holds and `lt` is transitive. And promotion does not move a word on the line, so the two
widths agree on every comparison, although the rational that stands in for an infinity is not
the same in both.
-/
import WasmExec.Proofs.Floating.Demotion
import WasmExec.Proofs.Floating.Lattice
import Mathlib.Order.WithBot

set_option autoImplicit false

namespace WasmExec

/-! ## The extended line -/

/-- **The point of the extended line** that a number is. The two zeros are one point, and a NaN
is none. -/
def Floating.Number.point? : Floating.Number → Option (WithBot (WithTop Rat))
  | .nan => none
  | .infinite negative => some (if negative then ⊥ else (⊤ : WithTop Rat))
  | .finite _ q => some (q : WithTop Rat)

/-- **The relation that a comparison decides.** -/
def FloatCompare.Relates {α : Type} [LinearOrder α] : FloatCompare → α → α → Prop
  | .eq, a, b => a = b
  | .ne, a, b => a ≠ b
  | .lt, a, b => a < b
  | .gt, a, b => b < a
  | .le, a, b => a ≤ b
  | .ge, a, b => b ≤ a

/-- In a total order exactly one of three relations holds. -/
theorem FloatCompare.existsUnique_relates {α : Type} [LinearOrder α] (a b : α) :
    ∃! op, op ∈ [FloatCompare.lt, .eq, .gt] ∧ op.Relates a b := by
  obtain h | h | h := lt_trichotomy a b
  · refine ⟨.lt, ⟨by simp, h⟩, ?_⟩
    rintro op ⟨hop, hrelates⟩
    fin_cases hop
    · rfl
    · exact absurd hrelates h.ne
    · exact absurd hrelates h.asymm
  · refine ⟨.eq, ⟨by simp, h⟩, ?_⟩
    rintro op ⟨hop, hrelates⟩
    fin_cases hop
    · exact absurd h (ne_of_lt hrelates)
    · rfl
    · exact absurd h (ne_of_gt hrelates)
  · refine ⟨.gt, ⟨by simp, h⟩, ?_⟩
    rintro op ⟨hop, hrelates⟩
    fin_cases hop
    · exact absurd hrelates h.asymm
    · exact absurd hrelates h.ne'
    · rfl

namespace Floating

variable {w : Width} {x y : Word w} {a b : WithBot (WithTop Rat)}

/-- Where a word is on the line, and the rational that it is compared by. -/
theorem point_cases (h : (decode x).point? = some a) :
    isNaN x = false ∧ ((a = ⊥ ∧ value x = -2 ^ w.overflowExponent)
      ∨ (a = (⊤ : WithTop Rat) ∧ value x = 2 ^ w.overflowExponent)
      ∨ (a = (value x : WithTop Rat) ∧ |value x| < 2 ^ w.overflowExponent)) := by
  cases hx : decode x with
  | nan =>
    rw [hx] at h
    cases h
  | infinite s =>
    obtain ⟨hnan, hvalue⟩ := value_of_infinite hx
    rw [hx] at h
    obtain rfl := Option.some.inj h
    cases s with
    | true => exact ⟨hnan, .inl ⟨rfl, hvalue⟩⟩
    | false => exact ⟨hnan, .inr (.inl ⟨rfl, hvalue⟩)⟩
  | finite s q =>
    obtain ⟨hfinite, hnan, -, rfl⟩ := value_of_finite hx
    rw [hx] at h
    exact ⟨hnan, .inr (.inr ⟨(Option.some.inj h).symm, (isRepresentable_value hfinite).abs_lt⟩)⟩

/-- **The rationals that words are compared by are in the order of the line.** -/
theorem value_lt_iff (hx : (decode x).point? = some a) (hy : (decode y).point? = some b) :
    value x < value y ↔ a < b := by
  have hpos : (0 : Rat) < 2 ^ w.overflowExponent := by positivity
  obtain ⟨-, ⟨rfl, hx'⟩ | ⟨rfl, hx'⟩ | ⟨rfl, hx'⟩⟩ := point_cases hx
  · obtain ⟨-, ⟨rfl, hy'⟩ | ⟨rfl, hy'⟩ | ⟨rfl, hy'⟩⟩ := point_cases hy
    · simp [hx', hy']
    · exact iff_of_true (by linarith) (WithBot.bot_lt_coe _)
    · exact iff_of_true (by linarith [(abs_lt.mp hy').1]) (WithBot.bot_lt_coe _)
  · obtain ⟨-, ⟨rfl, hy'⟩ | ⟨rfl, hy'⟩ | ⟨rfl, hy'⟩⟩ := point_cases hy
    · exact iff_of_false (by linarith) not_lt_bot
    · simp [hx', hy']
    · exact iff_of_false (by linarith [(abs_lt.mp hy').2]) not_top_lt
  · obtain ⟨-, ⟨rfl, hy'⟩ | ⟨rfl, hy'⟩ | ⟨rfl, hy'⟩⟩ := point_cases hy
    · exact iff_of_false (by linarith [(abs_lt.mp hx').1]) not_lt_bot
    · exact iff_of_true (by linarith [(abs_lt.mp hx').2])
        (WithBot.coe_lt_coe.mpr (WithTop.coe_lt_top _))
    · rw [WithBot.coe_lt_coe, WithTop.coe_lt_coe]

theorem eq_iff (x y : Word w) :
    eq x y = true ↔ isNaN x = false ∧ isNaN y = false ∧ value x = value y := by
  rw [value_eq_keyValue, value_eq_keyValue, (strictMono_keyValue w).injective.eq_iff]
  simp [eq, comparable, and_assoc]

/-- A comparison decides its relation between the points of two words. -/
theorem eval_iff_relates (op : FloatCompare) (hx : (decode x).point? = some a)
    (hy : (decode y).point? = some b) : op.eval x y = true ↔ op.Relates a b := by
  have hxnan := (point_cases hx).1
  have hynan := (point_cases hy).1
  have hle : value x ≤ value y ↔ a ≤ b := by rw [← not_lt, value_lt_iff hy hx, not_lt]
  have hge : value y ≤ value x ↔ b ≤ a := by rw [← not_lt, value_lt_iff hx hy, not_lt]
  have hvalue : value x = value y ↔ a = b := by
    rw [le_antisymm_iff, hle, hge, ← le_antisymm_iff]
  have heq : eq x y = true ↔ a = b := by simp [eq_iff, hvalue, hxnan, hynan]
  cases op with
  | eq => exact heq
  | ne => rw [FloatCompare.eval, Bool.not_eq_true', ← Bool.not_eq_true, heq, FloatCompare.Relates]
  | lt => simp [FloatCompare.eval, lt_iff, value_lt_iff hx hy, hxnan, hynan, FloatCompare.Relates]
  | gt => simp [FloatCompare.eval, lt_iff, value_lt_iff hy hx, hxnan, hynan, FloatCompare.Relates]
  | le => simp [FloatCompare.eval, le_iff, hle, hxnan, hynan, FloatCompare.Relates]
  | ge => simp [FloatCompare.eval, le_iff, hge, hxnan, hynan, FloatCompare.Relates]

/-- A NaN is unequal to every word and stands in no other relation. -/
theorem eval_of_isNaN (op : FloatCompare) (h : isNaN x = true ∨ isNaN y = true) :
    op.eval x y = decide (op = .ne) := by
  have hcomparable : comparable x y = false ∧ comparable y x = false := by
    unfold comparable
    obtain h | h := h <;> simp [h]
  cases op <;> simp [FloatCompare.eval, eq, lt, le, hcomparable]

/-- The words that are on the line are those that are not NaNs. -/
theorem exists_point_iff (x : Word w) : (∃ a, (decode x).point? = some a) ↔ isNaN x = false := by
  obtain ⟨hnan, hx⟩ | ⟨hnan, -, hx⟩ | ⟨hnan, -, hx⟩ := decode_cases x <;>
    simp [hx, hnan, Number.point?]

theorem isNaN_promote (x : Word .w32) : isNaN (promote x) = isNaN x := by
  rw [Bool.eq_iff_iff, isNaN_iff_decode, isNaN_iff_decode, decode_promote]

/-- **Promotion changes no comparison.** -/
theorem eval_promote (op : FloatCompare) (x y : Word .w32) :
    op.eval (promote x) (promote y) = op.eval x y := by
  by_cases hnan : isNaN x = true ∨ isNaN y = true
  · rw [eval_of_isNaN op hnan, eval_of_isNaN op (by rwa [isNaN_promote, isNaN_promote])]
  · simp only [not_or, Bool.not_eq_true, ← exists_point_iff] at hnan
    obtain ⟨⟨a, hx⟩, b, hy⟩ := hnan
    have hwide := eval_iff_relates (x := promote x) (y := promote y) op
      (by rw [decode_promote, hx]) (by rw [decode_promote, hy])
    rw [Bool.eq_iff_iff, hwide, eval_iff_relates op hx hy]

end Floating

/-! ## The instructions -/

namespace NumOp

open Floating (interchange)

/-- **Comparisons are the order of the extended line.** With a NaN on either side only `ne` holds.
Otherwise every comparison gives one if its relation holds between the points that the words stand
for, and zero if not. So of less, equal and greater exactly one holds, less or equal is what it
says, and less is transitive. A comparison of narrow words is that of the promoted ones. -/
theorem comparison_order (w : Width) :
    let compare := fun op (x y : Word w) => (NumOp.floatCompare w op).apply [.float w x, .float w y]
    let promote := fun x : Word .w32 => (NumOp.convert .promote).apply [.float .w32 x]
    let yes : Except Fault Value := .ok (.int .w32 1)
    let no : Except Fault Value := .ok (.int .w32 0)
    (∀ op x y, interchange x = .nan ∨ interchange y = .nan →
        compare op x y = if op = .ne then yes else no)
      ∧ (∀ op x y a b, (interchange x).point? = some a → (interchange y).point? = some b →
        (op.Relates a b → compare op x y = yes) ∧ (¬ op.Relates a b → compare op x y = no))
      ∧ (∀ x y, interchange x ≠ .nan → interchange y ≠ .nan →
        (∃! op, op ∈ [FloatCompare.lt, .eq, .gt] ∧ compare op x y = yes)
          ∧ (compare .le x y = yes ↔ compare .lt x y = yes ∨ compare .eq x y = yes))
      ∧ (∀ x y z, compare .lt x y = yes → compare .lt y z = yes → compare .lt x z = yes)
      ∧ ∀ op (x y : Word .w32), ∃ x' y', promote x = .ok x' ∧ promote y = .ok y'
        ∧ (NumOp.floatCompare .w64 op).apply [x', y']
          = (NumOp.floatCompare .w32 op).apply [.float .w32 x, .float .w32 y] := by
  intro compare promote yes no
  have hcompare : ∀ op x y, compare op x y = .ok (.int .w32 (truthWord (op.eval x y))) :=
    apply_floatCompare w
  have hyes : ∀ op x y, compare op x y = yes ↔ op.eval x y = true := apply_floatCompare_iff w
  refine ⟨fun op x y hnan => ?_, fun op x y a b hx hy => ?_, fun x y hx hy => ?_,
    fun x y z hxy hyz => ?_, fun op x y => ⟨_, _, apply_promote x, apply_promote y, ?_⟩⟩
  · rw [← Floating.isNaN_iff_interchange, ← Floating.isNaN_iff_interchange] at hnan
    rw [hcompare, Floating.eval_of_isNaN op hnan]
    by_cases hop : op = .ne
    · rw [if_pos hop, decide_eq_true hop]
      rfl
    · rw [if_neg hop, decide_eq_false hop]
      rfl
  · rw [← Floating.decode_eq_interchange] at hx hy
    have heval := Floating.eval_iff_relates op hx hy
    refine ⟨fun h => (hyes op x y).mpr (heval.mpr h), fun h => ?_⟩
    rw [← heval, Bool.not_eq_true] at h
    rw [hcompare, h]
    rfl
  · rw [Floating.interchange_ne_nan_iff, ← Floating.exists_point_iff] at hx hy
    obtain ⟨⟨a, hx⟩, b, hy⟩ := hx, hy
    have hrelates := fun op => (hyes op x y).trans (Floating.eval_iff_relates op hx hy)
    simp only [hrelates]
    exact ⟨FloatCompare.existsUnique_relates a b, le_iff_lt_or_eq⟩
  · rw [hyes] at hxy hyz ⊢
    have hxy' := (Floating.lt_iff x y).mp hxy
    have hyz' := (Floating.lt_iff y z).mp hyz
    exact (Floating.lt_iff x z).mpr ⟨hxy'.1, hyz'.2.1, hxy'.2.2.trans hyz'.2.2⟩
  · rw [apply_floatCompare, apply_floatCompare, Floating.eval_promote]

/-- The two zeros are equal and neither is less, a NaN is not even equal to itself, and from the
negative infinity over the greatest negative number to the least positive one the words go up. -/
theorem comparison_order_zeros :
    (NumOp.floatCompare .w32 .eq).apply [.float .w32 0x80000000#32, .float .w32 0x00000000#32]
        = .ok (.int .w32 1)
      ∧ (NumOp.floatCompare .w32 .lt).apply [.float .w32 0x80000000#32, .float .w32 0x00000000#32]
        = .ok (.int .w32 0)
      ∧ (NumOp.floatCompare .w32 .eq).apply [.float .w32 0xffa00001#32, .float .w32 0xffa00001#32]
        = .ok (.int .w32 0)
      ∧ (NumOp.floatCompare .w32 .le).apply [.float .w32 0xff800000#32, .float .w32 0x00000001#32]
        = .ok (.int .w32 1) := by
  obtain ⟨hnan, hpoints, htotal, htrans, -⟩ := comparison_order .w32
  have hzero : ∀ s x, Floating.magnitude x = 0 ∧ Floating.isNegative x = s →
      (interchange (w := .w32) x).point? = some ((0 : Rat) : WithTop Rat) := by
    intro s x hx
    rw [← Floating.decode_eq_interchange, Floating.decode_eq_zero_iff.mpr hx]
    rfl
  have hminus := hzero true 0x80000000#32 (by decide)
  have hplus := hzero false 0x00000000#32 (by decide)
  have hpayload : interchange (w := .w32) 0xffa00001#32 = .nan :=
    (Floating.isNaN_iff_interchange _).mp (by decide)
  have hless := htrans 0xff800000#32 0x80000001#32 0x00000001#32 (by decide) (by decide)
  have hfirst := (Floating.interchange_ne_nan_iff (w := .w32) 0xff800000#32).mpr (by decide)
  have hlast := (Floating.interchange_ne_nan_iff (w := .w32) 0x00000001#32).mpr (by decide)
  exact ⟨(hpoints .eq _ _ _ _ hminus hplus).1 rfl,
    (hpoints .lt _ _ _ _ hminus hplus).2 (lt_irrefl _), hnan .eq _ _ (.inl hpayload),
    (htotal _ _ hfirst hlast).2.mpr (.inl hless)⟩

end NumOp

end WasmExec
