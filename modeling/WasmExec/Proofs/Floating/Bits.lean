/-
What the operations on bits do to the number.

Two operations work on the bits of a word and never look at the number behind them. One changes
the sign bit, the other sets the quiet bit of a NaN. Neither touches what the other is about: the
sign is above the magnitude, and the quiet bit is in the magnitude. So all that is said of them
here is said of the sign and of the magnitude of the result, and a word is known by these two.

On numbers a change of the sign bit is `Number.neg`. It is the opposite of every number, and the
opposite of a zero is the other zero.
-/
import WasmExec.Proofs.Floating.Lattice
import WasmExec.Proofs.Floating.Nearest

set_option autoImplicit false

namespace WasmExec.Floating

variable {w : Width}

/-! ## The sign bit -/

/-- **The opposite number.** -/
def Number.neg : Number → Number
  | .nan => .nan
  | .infinite s => .infinite !s
  | .finite s q => .finite (!s) (-q)

theorem value_neg (x : Word w) : value (neg x) = -value x := by
  rw [value, value, isNegative_neg, magnitude_neg]
  cases isNegative x <;> simp

theorem decode_neg (x : Word w) : decode (neg x) = (decode x).neg := by
  obtain ⟨hnan, hx⟩ | ⟨-, htop, hx⟩ | ⟨-, hfinite, hx⟩ := decode_cases x
  · rw [hx]
    exact decode_of_isNaN (by rwa [isNaN_neg])
  · rw [hx, decode_of_infinite (by rwa [magnitude_neg]), isNegative_neg]
    rfl
  · rw [hx, decode_of_finite (by rwa [magnitude_neg]), isNegative_neg, value_neg]
    rfl

/-! ## The quiet bit -/

theorem magnitude_quiet (x : Word w) : magnitude (quiet x) = magnitude x ||| w.quietBit := by
  have hquiet : w.quietBit % 2 ^ w.bits = w.quietBit := by cases w <;> rfl
  have hbelow : w.quietBit % 2 ^ (w.bits - 1) = w.quietBit := by cases w <;> rfl
  rw [magnitude, magnitude, quiet, BitVec.toNat_or, BitVec.toNat_ofNat, hquiet, w.signBit_eq,
    Nat.or_mod_two_pow, hbelow]

theorem isNegative_quiet (x : Word w) : isNegative (quiet x) = isNegative x := by
  have hquiet : (BitVec.ofNat w.bits w.quietBit).msb = false := by cases w <;> decide
  rw [isNegative_eq_msb, isNegative_eq_msb, quiet, BitVec.msb_or, hquiet, Bool.or_false]

/-- Setting a bit does not make a magnitude less, so a NaN stays one. -/
theorem isNaN_quiet {x : Word w} (h : isNaN x = true) : isNaN (quiet x) = true := by
  have hnan : w.infinityMagnitude < magnitude x := of_decide_eq_true h
  rw [isNaN, magnitude_quiet]
  exact decide_eq_true (hnan.trans_le Nat.left_le_or)

theorem quiet_quiet (x : Word w) : quiet (quiet x) = quiet x := by
  rw [quiet, quiet, BitVec.or_assoc, BitVec.or_self]

/-- The two operations do not meet. -/
theorem quiet_neg (x : Word w) : quiet (neg x) = neg (quiet x) := by
  apply eq_of_magnitude
  · rw [isNegative_quiet, isNegative_neg, isNegative_neg, isNegative_quiet]
  · rw [magnitude_quiet, magnitude_neg, magnitude_neg, magnitude_quiet]

end WasmExec.Floating
