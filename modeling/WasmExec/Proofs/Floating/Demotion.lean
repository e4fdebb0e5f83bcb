/-
Between the widths.

Promotion has nothing to round, since the wide format has every number of the narrow one.
Demotion is rounding, and it is one function of the value for all that are not NaNs: an infinity
may be taken for the power of two that its magnitude stands for, and as that is beyond the
threshold of the narrow format, it rounds to an infinity again (`demote_eq_ofRat`). So demotion
keeps the order because rounding does, without a case for each pair of kinds.

That demotion undoes promotion is then the fact that a number of the format is not rounded, with
the sign carried along beside the value for the sake of the two zeros. The word comes back and
not only its number, because a word that is not a NaN is known by its number.
-/
import WasmExec.Proofs.Floating.IntegerConversion

set_option autoImplicit false

namespace WasmExec

namespace Floating

variable {w : Width}

theorem isNaN_demoteNaN (x : Word .w64) : isNaN (demoteNaN x) = true := by
  apply isNaN_ofPayload
  have hmod : magnitude x % Width.implicitBit .w64 < 2 ^ 23 * 2 ^ 29 := Nat.mod_lt _ (by decide)
  have hbit : Width.implicitBit .w32 = 2 ^ 23 := rfl
  rw [Nat.shiftRight_eq_div_pow, hbit]
  omega

/-! ## Words by their numbers -/

/-- A number that is not rounded has a word of each sign that it may have, and only that. -/
theorem eq_ofRat_of_decode {x : Word w} {s : Bool} {q : Rat} (h : decode x = .finite s q) :
    ofRat w s q = x := by
  obtain ⟨hfinite, -, rfl, rfl⟩ := value_of_finite h
  rw [ofRat_eq_ofMagnitude (agreesInSign_value x), abs_value,
    roundMagnitude_magnitudeValue w hfinite.le, ofMagnitude_self]

theorem eq_infinity_of_decode {x : Word w} {s : Bool} (h : decode x = .infinite s) :
    infinity w s = x := by
  obtain ⟨-, hx⟩ | ⟨-, htop, hx⟩ | ⟨-, -, hx⟩ := decode_cases x
  · simp [hx] at h
  · obtain rfl : isNegative x = s := by simpa [hx] using h
    rw [infinity, ← htop, ofMagnitude_self]
  · simp [hx] at h

/-! ## Demotion -/

/-- **Demotion is rounding**, of an infinity as well. -/
theorem demote_eq_ofRat {y : Word .w64} (h : isNaN y = false) :
    demote y = ofRat .w32 (isNegative y) (value y) := by
  obtain ⟨hnan, -⟩ | ⟨-, htop, hy⟩ | ⟨-, -, hy⟩ := decode_cases y
  · rw [hnan] at h
    cases h
  · -- the value of an infinity is a power of two, far beyond the narrow threshold
    have hpast : Width.overflowThreshold .w32 ≤ |value y| := by
      rw [abs_value, htop, magnitudeValue_infinity]
      exact (overflowThreshold_le .w32).trans (zpow_le_zpow_right₀ (by norm_num) (by decide))
    rw [ofRat_eq_ofMagnitude (agreesInSign_value y),
      roundMagnitude_of_overflow (abs_nonneg _) hpast, demote, hy]
    rfl
  · rw [demote, hy]

/-- **Demotion keeps the order.** -/
theorem le_demote {y z : Word .w64} (h : le y z = true) : le (demote y) (demote z) = true := by
  obtain ⟨hy, hz, hvalue⟩ := (le_iff y z).mp h
  rw [demote_eq_ofRat hy, demote_eq_ofRat hz]
  exact le_ofRat (agreesInSign_value y) (agreesInSign_value z) hvalue

/-- **Demotion undoes promotion.** -/
theorem demote_promote {x : Word .w32} (h : isNaN x = false) : demote (promote x) = x := by
  have hpromote := decode_promote x
  obtain ⟨hnan, -⟩ | ⟨-, -, hx⟩ | ⟨-, -, hx⟩ := decode_cases x
  · rw [hnan] at h
    cases h
  · rw [demote, hpromote, hx]
    exact eq_infinity_of_decode hx
  · rw [demote, hpromote, hx]
    exact eq_ofRat_of_decode hx

end Floating

/-! ## The instructions -/

namespace NumOp

open Floating (interchange IsRounded)

theorem apply_promote (x : Word .w32) :
    (NumOp.convert .promote).apply [.float .w32 x] = .ok (.float .w64 (Floating.promote x)) := rfl

theorem apply_demote (y : Word .w64) :
    (NumOp.convert .demote).apply [.float .w64 y] = .ok (.float .w32 (Floating.demote y)) := rfl

/-- **Promotion is exact, and demotion is its inverse up to rounding.** A promoted word has the
number of the operand, with the sign of a zero, and is demoted to the operand. A demoted word is
the one that the number is rounded to with the sign that it has, and an infinity stays one, so
the order is kept. A NaN becomes a NaN in both directions. -/
theorem promote_exact_demote_rounds :
    let promote := fun x : Word .w32 => (NumOp.convert .promote).apply [.float .w32 x]
    let demote := fun y : Word .w64 => (NumOp.convert .demote).apply [.float .w64 y]
    (∀ x, ∃ y, promote x = .ok (.float .w64 y) ∧ interchange y = interchange x
        ∧ (interchange x ≠ .nan → demote y = .ok (.float .w32 x)))
      ∧ (∀ y, ∃ x, demote y = .ok (.float .w32 x) ∧ match interchange y with
        | .nan => interchange x = .nan
        | .infinite negative => interchange x = .infinite negative
        | .finite negative q => ∀ x', IsRounded negative q x' ↔ x' = x)
      ∧ ∀ y z, (NumOp.floatCompare .w64 .le).apply [.float .w64 y, .float .w64 z]
          = .ok (.int .w32 1) →
        ∃ x x', demote y = .ok x ∧ demote z = .ok x'
          ∧ (NumOp.floatCompare .w32 .le).apply [x, x'] = .ok (.int .w32 1) := by
  intro promote demote
  refine ⟨fun x => ⟨_, apply_promote x, ?_, fun hx => ?_⟩, fun y => ⟨_, apply_demote y, ?_⟩,
    fun y z hle => ⟨_, _, apply_demote y, apply_demote z, ?_⟩⟩
  · rw [← Floating.decode_eq_interchange, ← Floating.decode_eq_interchange]
    exact Floating.decode_promote x
  · rw [← Floating.decode_eq_interchange, Ne, ← Floating.isNaN_iff_decode,
      Bool.not_eq_true] at hx
    show (NumOp.convert .demote).apply _ = _
    rw [apply_demote, Floating.demote_promote hx]
  · rw [← Floating.decode_eq_interchange, ← Floating.decode_eq_interchange]
    cases hy : Floating.decode y with
    | nan =>
      rw [Floating.demote, hy]
      exact Floating.decode_of_isNaN (Floating.isNaN_demoteNaN y)
    | infinite s =>
      rw [Floating.demote, hy]
      exact Floating.decode_infinity .w32 s
    | finite s q =>
      obtain ⟨-, -, rfl, rfl⟩ := Floating.value_of_finite hy
      rw [Floating.demote, hy]
      exact Floating.isRounded_iff (Floating.agreesInSign_value y)
  · rw [apply_le_iff] at hle ⊢
    exact Floating.le_demote hle

/-- The least subnormal number of the narrow format, with its sign, goes up and comes back. A
wide number just above half of it is rounded up to it, one just below is rounded to the zero of
its sign, and the two stay in order. -/
theorem promote_exact_demote_rounds_subnormal :
    (NumOp.convert .demote).apply [.float .w64 (Floating.promote 0x80000001#32)]
        = .ok (.float .w32 0x80000001#32)
      ∧ (NumOp.convert .demote).apply [.float .w64 0xb690000000000001#64]
        = .ok (.float .w32 0x80000001#32)
      ∧ (NumOp.convert .demote).apply [.float .w64 0xb690000000000000#64]
        = .ok (.float .w32 0x80000000#32)
      ∧ (NumOp.floatCompare .w32 .le).apply [.float .w32 0x80000001#32, .float .w32 0x80000000#32]
        = .ok (.int .w32 1) := by
  obtain ⟨hback, -, hmono⟩ := promote_exact_demote_rounds
  have habove : (NumOp.convert .demote).apply [.float .w64 0xb690000000000001#64]
      = .ok (.float .w32 0x80000001#32) := by decide +kernel
  have hbelow : (NumOp.convert .demote).apply [.float .w64 0xb690000000000000#64]
      = .ok (.float .w32 0x80000000#32) := by decide +kernel
  refine ⟨?_, habove, hbelow, ?_⟩
  · obtain ⟨y, hy, -, hx⟩ := hback 0x80000001#32
    have hnumber : interchange (w := .w32) 0x80000001#32 ≠ .nan := by
      rw [← Floating.decode_eq_interchange, Ne, ← Floating.isNaN_iff_decode]
      decide
    obtain rfl : Floating.promote 0x80000001#32 = y := by
      simpa using (apply_promote _).symm.trans hy
    exact hx hnumber
  · obtain ⟨x, x', hx, hx', hle⟩ :=
      hmono 0xb690000000000001#64 0xb690000000000000#64 (by decide +kernel)
    obtain rfl := Except.ok.inj (habove.symm.trans hx)
    obtain rfl := Except.ok.inj (hbelow.symm.trans hx')
    exact hle

end NumOp

end WasmExec
