/-
Words by the integers that they stand for.

A word has two readings, and either is a representative of its class modulo the number of
words of its length: putting a reading back gives the word again (`ofInt_read`). An operation
can therefore be described on integers, read by one sign or the other, with the result put
back. For sums, products and shifts to the left it is all one which reading that is. For
divisions and shifts to the right it is not, and there the description says which of the two
the operation takes (`eval_div`, `eval_rem`, `eval_shr`). It holds at every length, and the
operations on bits that compute it are not looked at again.

Two things are left to ask about a result. Whether it is the integer itself is a question of
the range that it has to stay in (`mem_range_iff`). Whether a narrower word would hold the same
is no question at all, since what is put back into a wide word and cut off is put back into a
narrow one (`setWidth_ofInt`).
-/
import WasmExec.Integer
import Mathlib.Tactic

set_option autoImplicit false

namespace WasmExec

namespace Signedness

variable (sign : Signedness) {m n : Nat}

/-! ## Reading a word and putting it back -/

/-- A word is found again from the integer that it stands for. -/
theorem ofInt_read (a : BitVec n) : BitVec.ofInt n (sign.read a) = a := by
  cases sign with
  | signed => exact BitVec.ofInt_toInt
  | unsigned =>
    show BitVec.ofInt n (a.toNat : Int) = a
    rw [BitVec.ofInt_natCast, BitVec.ofNat_toNat, BitVec.setWidth_eq]

theorem read_injective : Function.Injective (sign.read : BitVec n → Int) := by
  intro a b h
  rw [← sign.ofInt_read a, h, sign.ofInt_read]

theorem read_zero : sign.read (0 : BitVec n) = 0 := by
  cases sign with
  | signed => exact BitVec.toInt_zero
  | unsigned => simp [read]

theorem read_eq_zero_iff {a : BitVec n} : sign.read a = 0 ↔ a = 0 := by
  rw [← sign.read_injective.eq_iff, sign.read_zero]

/-- **The range of a width has exactly the integers that its words stand for.** -/
theorem mem_range_iff (w : Width) (t : Int) :
    sign.least w ≤ t ∧ t ≤ sign.greatest w ↔ sign.read (BitVec.ofInt w.bits t) = t := by
  -- with the width fixed the bounds are numerals, and the rest is a remainder by a numeral
  cases sign with
  | signed =>
    cases w with
    | w32 =>
      simp only [least, greatest, read, Width.bits, BitVec.toInt_ofInt, Int.bmod_def]
      omega
    | w64 =>
      simp only [least, greatest, read, Width.bits, BitVec.toInt_ofInt, Int.bmod_def]
      omega
  | unsigned =>
    cases w with
    | w32 =>
      simp only [least, greatest, read, Width.bits, BitVec.toNat_ofInt]
      omega
    | w64 =>
      simp only [least, greatest, read, Width.bits, BitVec.toNat_ofInt]
      omega

theorem read_mem_range {w : Width} (a : Word w) :
    sign.least w ≤ sign.read a ∧ sign.read a ≤ sign.greatest w := by
  rw [sign.mem_range_iff, sign.ofInt_read]

theorem zero_mem_range (w : Width) : sign.least w ≤ 0 ∧ 0 ≤ sign.greatest w := by
  cases sign <;> cases w <;> decide

/-! ## Other lengths -/

/-- Widening puts the reading into a wider word. -/
theorem extend_eq (a : BitVec n) : sign.extend m a = BitVec.ofInt m (sign.read a) := by
  cases sign with
  | signed => rfl
  | unsigned =>
    show a.setWidth m = BitVec.ofInt m (a.toNat : Int)
    rw [BitVec.ofInt_natCast, ← BitVec.ofNat_toNat]

/-- A wider word stands for the same integer. -/
theorem read_extend (h : n ≤ m) (a : BitVec n) : sign.read (sign.extend m a) = sign.read a := by
  cases sign with
  | signed => exact BitVec.toInt_signExtend_of_le h
  | unsigned =>
    show ((a.setWidth m).toNat : Int) = a.toNat
    rw [BitVec.toNat_setWidth_of_le h]

/-- Cutting a word off is putting its integer into the shorter word. -/
theorem setWidth_ofInt (h : n ≤ m) (t : Int) :
    (BitVec.ofInt m t).setWidth n = BitVec.ofInt n t := by
  -- the narrow remainder of the wide remainder is the narrow remainder
  have hdvd : ((2 ^ n : Nat) : Int) ∣ ((2 ^ m : Nat) : Int) :=
    Int.natCast_dvd_natCast.mpr (Nat.pow_dvd_pow 2 h)
  have hnonneg : 0 ≤ t % ((2 ^ m : Nat) : Int) := Int.emod_nonneg t (by positivity)
  apply BitVec.eq_of_toNat_eq
  rw [BitVec.toNat_setWidth, BitVec.toNat_ofInt, BitVec.toNat_ofInt, ← Int.emod_emod_of_dvd t hdvd,
    Int.toNat_emod hnonneg (by positivity), Int.toNat_natCast]

/-- Cutting off undoes widening. -/
theorem setWidth_extend (h : n ≤ m) (a : BitVec n) : (sign.extend m a).setWidth n = a := by
  rw [sign.extend_eq, setWidth_ofInt h, sign.ofInt_read]

end Signedness

/-! ## Operations on readings -/

namespace IntBinary

variable (sign : Signedness) {n : Nat} (a b : BitVec n)

/-- **The quotient toward zero** of the readings, put back. Only the signed quotient can be out
of range before that. -/
theorem eval_div :
    (IntBinary.div sign).eval a b = if b = 0 then .error (.trap .divideByZero)
      else .ok (BitVec.ofInt n ((sign.read a).tdiv (sign.read b))) := by
  cases sign with
  | signed =>
    have hquotient : a.sdiv b = BitVec.ofInt n (a.toInt.tdiv b.toInt) := by
      apply BitVec.eq_of_toInt_eq
      rw [BitVec.toInt_sdiv, BitVec.toInt_ofInt]
    rw [eval, hquotient]
    rfl
  | unsigned =>
    have hquotient : a.udiv b = BitVec.ofInt n ((a.toNat : Int).tdiv b.toNat) := by
      rw [← Int.ofNat_tdiv, ← BitVec.toNat_udiv, BitVec.udiv_eq]
      exact (Signedness.unsigned.ofInt_read (a / b)).symm
    rw [eval, hquotient]
    rfl

/-- **The remainder** that goes with it. -/
theorem eval_rem :
    (IntBinary.rem sign).eval a b = if b = 0 then .error (.trap .divideByZero)
      else .ok (BitVec.ofInt n ((sign.read a).tmod (sign.read b))) := by
  cases sign with
  | signed =>
    have hremainder : a.srem b = BitVec.ofInt n (a.toInt.tmod b.toInt) := by
      rw [← BitVec.toInt_srem, BitVec.ofInt_toInt]
    rw [eval, hremainder]
    rfl
  | unsigned =>
    have hremainder : a.umod b = BitVec.ofInt n ((a.toNat : Int).tmod b.toNat) := by
      rw [← Int.ofNat_tmod, ← BitVec.toNat_umod, BitVec.umod_eq]
      exact (Signedness.unsigned.ofInt_read (a % b)).symm
    rw [eval, hremainder]
    rfl

/-- What divides traps on a zero, and else puts back what an operation on the readings gives. -/
theorem exists_eval_eq {op : IntBinary} (hop : op = .div sign ∨ op = .rem sign) :
    ∃ f : Int → Int → Int, ∀ {n : Nat} (a b : BitVec n),
      op.eval a b = if b = 0 then .error (.trap .divideByZero)
        else .ok (BitVec.ofInt n (f (sign.read a) (sign.read b))) := by
  obtain rfl | rfl := hop
  · exact ⟨Int.tdiv, eval_div sign⟩
  · exact ⟨Int.tmod, eval_rem sign⟩

/-- A shift to the left multiplies, whichever reading is taken. -/
theorem eval_shl :
    IntBinary.shl.eval a b = .ok (BitVec.ofInt n (sign.read a * 2 ^ shiftAmount b)) := by
  have hpower : (2 ^ shiftAmount b : Int) = ((2 ^ shiftAmount b : Nat) : Int) := by push_cast; rfl
  have hshift : a <<< shiftAmount b = a * BitVec.ofInt n (2 ^ shiftAmount b) := by
    apply BitVec.eq_of_toNat_eq
    rw [BitVec.toNat_shiftLeft, Nat.shiftLeft_eq, hpower, BitVec.ofInt_natCast, BitVec.toNat_mul,
      BitVec.toNat_ofNat, Nat.mul_mod_mod]
  rw [eval, hshift, BitVec.ofInt_mul, sign.ofInt_read]

/-- A shift to the right divides the reading and drops what is behind the point. -/
theorem eval_shr :
    (IntBinary.shr sign).eval a b
      = .ok (BitVec.ofInt n (sign.read a / 2 ^ shiftAmount b)) := by
  cases sign with
  | signed =>
    rw [eval, BitVec.sshiftRight, Int.shiftRight_eq_div_pow]
    push_cast
    rfl
  | unsigned =>
    have hshift : a >>> shiftAmount b = BitVec.ofInt n ((a.toNat : Int) / 2 ^ shiftAmount b) := by
      have hquotient : (a.toNat : Int) / 2 ^ shiftAmount b = (a >>> shiftAmount b).toNat := by
        rw [BitVec.toNat_ushiftRight, Nat.shiftRight_eq_div_pow]
        push_cast
        rfl
      rw [hquotient]
      exact (Signedness.unsigned.ofInt_read (a >>> shiftAmount b)).symm
    rw [eval, hshift]
    rfl

end IntBinary

end WasmExec
