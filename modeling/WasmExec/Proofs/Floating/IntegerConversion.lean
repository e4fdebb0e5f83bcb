/-
Integers to floating point, rounded once.

An integer word stands for an integer, and the integer is a rational, so its conversion is the
rounding of that rational and has no detour through the other width. A detour would show. The
integer `2 ^ 53 + 2 ^ 29 + 1` is just past the middle between two narrow numbers, but the wide
format has no room for its last digit and would put it on the middle, from where the second
rounding goes down.

What is said of the instructions here follows from what is known of rounding: that it goes to
the nearest number, that it keeps the order, and that it changes no number of the format. The
last is enough for the way back as well. Every integer of 32 bits is a number of the wide format,
so it is converted exactly, and dropping its fraction gives it back.
-/
import WasmExec.Proofs.Floating.Nearest
import WasmExec.Proofs.Floating.Truncation

set_option autoImplicit false

namespace WasmExec

namespace Floating

variable {w : Width}

/-! ## Conversion of integers -/

/-- An integer that is not zero has its sign in any case, and zero is positive. -/
theorem ofInt_eq_ofRat (w : Width) (n : Int) :
    ofInt w n = ofRat w (decide ((n : Rat) < 0)) (n : Rat) := by
  rw [ofInt, ofRat, ofRat]
  by_cases hzero : (n : Rat) = 0
  · rw [if_pos hzero, if_pos hzero, hzero, decide_eq_false (lt_irrefl 0)]
  · rw [if_neg hzero, if_neg hzero]

/-- **The one word that an integer is rounded to.** -/
theorem isRounded_ofInt_iff (n : Int) (x : Word w) :
    IsRounded (decide (n < 0)) (n : Rat) x ↔ x = ofInt w n := by
  have hsign := agreesInSign_decide (n : Rat)
  rw [ofInt_eq_ofRat, ← isRounded_iff hsign]
  simp only [Int.cast_lt_zero]

/-- **The order of integers is kept.** -/
theorem le_ofInt {m n : Int} (h : m ≤ n) : le (ofInt w m) (ofInt w n) = true := by
  rw [ofInt_eq_ofRat, ofInt_eq_ofRat]
  exact le_ofRat (agreesInSign_decide _) (agreesInSign_decide _) (by exact_mod_cast h)

/-- A number that some word has is a number of the format. -/
theorem isRepresentable_of_interchange {y : Word w} {s : Bool} {q : Rat}
    (h : interchange y = .finite s q) : IsRepresentable w q := by
  rw [← decode_eq_interchange] at h
  exact isRepresentable_of_decode h

/-- **An integer that the format has is not rounded.** -/
theorem interchange_ofInt {n : Int} (h : IsRepresentable w (n : Rat)) :
    interchange (ofInt w n) = .finite (decide (n < 0)) n := by
  rw [← decode_eq_interchange, ofInt, decode_ofRat h]
  by_cases hzero : n = 0
  · simp [hzero]
  · simp [hzero]

/-- **Dropping the fraction undoes an exact conversion.** -/
theorem truncate_ofInt {n : Int} (h : IsRepresentable w (n : Rat)) (target : Width)
    (sign : Signedness) (hrange : sign.least target ≤ n ∧ n ≤ sign.greatest target) :
    truncate target sign (ofInt w n) = .ok (BitVec.ofInt target.bits n) := by
  have hexact := interchange_ofInt h
  rw [← decode_eq_interchange] at hexact
  rw [truncate_of_finite target sign hexact, truncateInt_intCast, if_pos hrange]

/-- The wide format has more digits than a narrow integer. -/
theorem isRepresentable_read (sign : Signedness) (a : Word .w32) :
    IsRepresentable .w64 ((sign.read a : Int) : Rat) := by
  have hrange := sign.read_mem_range a
  apply isRepresentable_intCast
  have hleast : (-2147483648 : Int) ≤ sign.least .w32 := by cases sign <;> decide
  have hgreatest : sign.greatest .w32 ≤ 4294967295 := by cases sign <;> decide
  have hdigits : 2 * Width.implicitBit .w64 = 9007199254740992 := rfl
  omega

end Floating

/-! ## The instructions -/

namespace NumOp

open Floating (interchange IsRounded)

theorem apply_convert (source target : Width) (sign : Signedness) (a : Word source) :
    (NumOp.convert (.convert source target sign)).apply [.int source a]
      = .ok (.float target (Floating.ofInt target (sign.read a))) := by
  rw [NumOp.apply, Conversion.apply, Value.asInt_self]
  rfl

theorem apply_le_iff (w : Width) (x y : Word w) :
    (NumOp.floatCompare w .le).apply [.float w x, .float w y] = .ok (.int .w32 1)
      ↔ Floating.le x y = true :=
  apply_floatCompare_iff w .le x y

/-- **Integers are rounded once.** The conversion of every integer word succeeds, whichever way
the word is read, and gives the one word that the integer is rounded to. For zero this is the
word of zeros, and for an integer that the format has it is that integer. So the order of
integers is kept, and the integers of 32 bits, all of which the wide format has, are found again
by dropping the fraction. -/
theorem convert_rounds_once (source target : Width) (sign : Signedness) :
    let convert := fun a : Word source =>
      (NumOp.convert (.convert source target sign)).apply [.int source a]
    (∀ a, ∃ x, convert a = .ok (.float target x)
        ∧ (∀ y : Word target,
          IsRounded (decide (sign.read a < 0)) ((sign.read a : Int) : Rat) y ↔ y = x)
        ∧ (sign.read a = 0 → x = 0)
        ∧ ((∃ (y : Word target) (s : Bool), interchange y = .finite s (sign.read a : Int)) →
          interchange x = .finite (decide (sign.read a < 0)) (sign.read a : Int)))
      ∧ (∀ a b, sign.read a ≤ sign.read b → ∃ x y, convert a = .ok x ∧ convert b = .ok y
        ∧ (NumOp.floatCompare target .le).apply [x, y] = .ok (.int .w32 1))
      ∧ ∀ a : Word .w32, ∃ x,
        (NumOp.convert (.convert .w32 .w64 sign)).apply [.int .w32 a] = .ok x
          ∧ (NumOp.convert (.truncate .w64 .w32 sign false)).apply [x] = .ok (.int .w32 a) := by
  intro convert
  have hconvert : ∀ a, convert a = .ok (.float target (Floating.ofInt target (sign.read a))) :=
    apply_convert source target sign
  refine ⟨fun a => ?_, fun a b hle => ?_, fun a => ?_⟩
  · refine ⟨_, hconvert a, Floating.isRounded_ofInt_iff (sign.read a), fun hzero => ?_, ?_⟩
    · rw [hzero]
      cases target <;> decide
    · -- that some word has the integer is all that exactness asks of the format
      rintro ⟨y, s, hy⟩
      exact Floating.interchange_ofInt (Floating.isRepresentable_of_interchange hy)
  · refine ⟨_, _, hconvert a, hconvert b, ?_⟩
    rw [apply_le_iff]
    exact Floating.le_ofInt hle
  · -- the integer is in the range that it was read from, so the way back does not trap
    have htruncate := Floating.truncate_ofInt (Floating.isRepresentable_read sign a) .w32 sign
      (sign.read_mem_range a)
    refine ⟨_, apply_convert .w32 .w64 sign a, ?_⟩
    rw [apply_truncate, htruncate, sign.ofInt_read]
    rfl

/-- An integer just past a middle goes up, and through the wide format it would go down. The
integer of all ones is converted in order with it when both are read without a sign. -/
theorem convert_rounds_once_past_middle :
    (NumOp.convert (.convert .w64 .w32 .unsigned)).apply [.int .w64 0x20000020000001#64]
        = .ok (.float .w32 0x5a000001#32)
      ∧ IsRounded (w := .w32) false 9007199791611905 0x5a000001#32
      ∧ Floating.demote (Floating.ofInt .w64 9007199791611905) = 0x5a000000#32
      ∧ (NumOp.floatCompare .w32 .le).apply [.float .w32 0x5a000001#32, .float .w32 0x5f800000#32]
        = .ok (.int .w32 1) := by
  have hpast : (NumOp.convert (.convert .w64 .w32 .unsigned)).apply
      [.int .w64 0x20000020000001#64] = .ok (.float .w32 0x5a000001#32) := by decide +kernel
  have hones : (NumOp.convert (.convert .w64 .w32 .unsigned)).apply
      [.int .w64 0xffffffffffffffff#64] = .ok (.float .w32 0x5f800000#32) := by decide +kernel
  obtain ⟨hrounded, hmono, -⟩ := convert_rounds_once .w64 .w32 .unsigned
  refine ⟨hpast, ?_, by decide +kernel, ?_⟩
  · have hread : Signedness.unsigned.read 0x20000020000001#64 = 9007199791611905 := by decide
    obtain ⟨x, hx, hnearest, -, -⟩ := hrounded 0x20000020000001#64
    obtain rfl : 0x5a000001#32 = x := by simpa using hpast.symm.trans hx
    have hword := (hnearest 0x5a000001#32).mpr rfl
    rw [hread] at hword
    exact_mod_cast hword
  · obtain ⟨x, y, hx, hy, hle⟩ := hmono 0x20000020000001#64 0xffffffffffffffff#64 (by decide)
    obtain rfl := Except.ok.inj (hpast.symm.trans hx)
    obtain rfl := Except.ok.inj (hones.symm.trans hy)
    exact hle

end NumOp

end WasmExec
