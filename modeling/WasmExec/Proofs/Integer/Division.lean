/-
Division of words is exact.

A quotient toward zero and its remainder are known by what they satisfy (`IsDivision`), and
there is one pair for each dividend and divisor. The division of words is that of their
readings, put back into words, so what is left to show is that nothing was lost on the way
back. The remainder is never out of range, since it is smaller than the divisor. The quotient
is no larger than the dividend, which leaves one pair of operands: the least signed integer has
no opposite, and its quotient by minus one is the integer after the greatest. Put back, that is
the least one again.

The last case is not an exception to everything. Dividend, quotient and remainder are bound by
an equation of integers, and an equation of integers holds of the words as well, whether or not
the integers were in range. So the wrapping product and sum give the dividend back in every case
(`mul_add_eq`).
-/
import WasmExec.Proofs.Instruction.Operand
import WasmExec.Proofs.Integer.Reading

set_option autoImplicit false

namespace WasmExec

/-! ## Division of integers -/

/-- **Division toward zero.** The dividend is the divisor taken as often as the quotient says,
and a remainder that is less than the divisor and lies on the dividend's side of zero. -/
structure IsDivision (a b q r : Int) : Prop where
  sum : a = q * b + r
  small : |r| < |b|
  side : r = 0 ∨ r.sign = a.sign

namespace IsDivision

variable {a b q r : Int}

theorem nonneg (h : IsDivision a b q r) (ha : 0 ≤ a) : 0 ≤ r := by
  obtain hr | hr := h.side
  · exact hr.ge
  · rw [← Int.sign_nonneg_iff] at ha ⊢
    rwa [hr]

theorem nonpos (h : IsDivision a b q r) (ha : a ≤ 0) : r ≤ 0 := by
  obtain hr | hr := h.side
  · exact hr.le
  · rw [← Int.sign_nonpos_iff] at ha ⊢
    rwa [hr]

/-- Two remainders on one side of zero are less than a divisor apart. -/
theorem abs_sub_lt {q' r' : Int} (h : IsDivision a b q r) (h' : IsDivision a b q' r') :
    |r - r'| < |b| := by
  have hlt := h.small
  have hlt' := h'.small
  obtain ha | ha := le_total 0 a
  · have hr := h.nonneg ha
    have hr' := h'.nonneg ha
    rw [abs_of_nonneg hr] at hlt
    rw [abs_of_nonneg hr'] at hlt'
    exact abs_sub_lt_iff.mpr ⟨by omega, by omega⟩
  · have hr := h.nonpos ha
    have hr' := h'.nonpos ha
    rw [abs_of_nonpos hr] at hlt
    rw [abs_of_nonpos hr'] at hlt'
    exact abs_sub_lt_iff.mpr ⟨by omega, by omega⟩

/-- Of natural numbers it is the division with a remainder below the divisor. -/
theorem of_natCast {a b q r : Nat} (h : IsDivision a b q r) : a = q * b + r ∧ r < b := by
  have hsum := h.sum
  have hsmall := h.small
  rw [Nat.abs_cast, Nat.abs_cast] at hsmall
  exact ⟨by exact_mod_cast hsum, by exact_mod_cast hsmall⟩

end IsDivision

theorem isDivision_tdiv (a : Int) {b : Int} (hb : b ≠ 0) :
    IsDivision a b (a.tdiv b) (a.tmod b) := by
  refine ⟨(Int.tdiv_mul_add_tmod a b).symm, ?_, ?_⟩
  · have hlt : a.natAbs % b.natAbs < b.natAbs := Nat.mod_lt _ (Int.natAbs_pos.mpr hb)
    rw [Int.abs_eq_natAbs, Int.abs_eq_natAbs, Int.natAbs_tmod]
    exact_mod_cast hlt
  · by_cases hdvd : b ∣ a
    · exact .inl (Int.tmod_eq_zero_of_dvd hdvd)
    · right
      rw [Int.sign_tmod, if_neg hdvd]

/-- **There is one division toward zero.** -/
theorem isDivision_iff {a b q r : Int} (hb : b ≠ 0) :
    IsDivision a b q r ↔ q = a.tdiv b ∧ r = a.tmod b := by
  constructor
  · intro h
    have h' := isDivision_tdiv a hb
    have hsum := h.sum
    have hsum' := h'.sum
    -- the two remainders differ by a multiple of the divisor that is less than the divisor
    have hdvd : |b| ∣ r - a.tmod b := by
      rw [abs_dvd]
      exact ⟨a.tdiv b - q, by linear_combination hsum' - hsum⟩
    have hr : r = a.tmod b := sub_eq_zero.mp (Int.eq_zero_of_abs_lt_dvd hdvd (h.abs_sub_lt h'))
    have hq : q = a.tdiv b := by
      apply mul_right_cancel₀ hb
      rw [hr] at hsum
      linear_combination hsum' - hsum
    exact ⟨hq, hr⟩
  · rintro ⟨rfl, rfl⟩
    exact isDivision_tdiv a hb

namespace Signedness

variable (sign : Signedness) (w : Width) {a b : Int}

/-- **Only the least integer by minus one has its quotient out of range.** -/
theorem tdiv_mem_range (ha : sign.least w ≤ a ∧ a ≤ sign.greatest w) (hb : sign.least w ≤ b)
    (hne : ¬ (a = sign.least w ∧ b = -1)) :
    sign.least w ≤ a.tdiv b ∧ a.tdiv b ≤ sign.greatest w := by
  cases sign with
  | unsigned =>
    have hleast : Signedness.least .unsigned w = 0 := by cases w <;> rfl
    rw [hleast] at ha hb ⊢
    exact ⟨Int.tdiv_nonneg ha.1 hb, (Int.tdiv_le_self b ha.1).trans ha.2⟩
  | signed =>
    have hends : Signedness.least .signed w = -Signedness.greatest .signed w - 1 := by
      cases w <;> rfl
    by_cases hone : b.natAbs = 1
    · obtain rfl | rfl : b = 1 ∨ b = -1 := by omega
      · rwa [Int.tdiv_one]
      · rw [Int.tdiv_neg, Int.tdiv_one]
        omega
    · -- any other divisor at least halves the dividend, or is zero
      have hhalf : (a.tdiv b).natAbs ≤ a.natAbs / 2 := by
        rw [Int.natAbs_tdiv]
        obtain hzero | htwo : b.natAbs = 0 ∨ 2 ≤ b.natAbs := by omega
        · rw [hzero]
          exact (Nat.div_zero _).trans_le (Nat.zero_le _)
        · exact Nat.div_le_div_left htwo (by decide)
      omega

/-- That quotient is the opposite of the least integer, which is put back as the least one. -/
theorem read_ofInt_neg_least :
    sign.read (BitVec.ofInt w.bits (-sign.least w)) = sign.least w := by
  cases sign <;> cases w <;> decide

/-- A remainder lies between zero and the dividend. -/
theorem tmod_mem_range (ha : sign.least w ≤ a ∧ a ≤ sign.greatest w) (hb : b ≠ 0) :
    sign.least w ≤ a.tmod b ∧ a.tmod b ≤ sign.greatest w := by
  have hends := sign.zero_mem_range w
  have habs := Int.natAbs_tmod a b
  have hle := Nat.mod_le a.natAbs b.natAbs
  obtain hpos | hneg := le_total 0 a
  · have hside := (isDivision_tdiv a hb).nonneg hpos
    omega
  · have hside := (isDivision_tdiv a hb).nonpos hneg
    omega

end Signedness

/-! ## Division of words -/

namespace IntBinary

/-- **The wrapped quotient and remainder make up the dividend**, in range or not. -/
theorem mul_add_eq (sign : Signedness) {n : Nat} (a b : BitVec n) :
    BitVec.ofInt n ((sign.read a).tdiv (sign.read b)) * b
      + BitVec.ofInt n ((sign.read a).tmod (sign.read b)) = a := by
  calc BitVec.ofInt n ((sign.read a).tdiv (sign.read b)) * b
        + BitVec.ofInt n ((sign.read a).tmod (sign.read b))
      = BitVec.ofInt n ((sign.read a).tdiv (sign.read b) * sign.read b
          + (sign.read a).tmod (sign.read b)) := by
        rw [BitVec.ofInt_add, BitVec.ofInt_mul, sign.ofInt_read]
    _ = a := by rw [Int.tdiv_mul_add_tmod, sign.ofInt_read]

end IntBinary

/-! ## The instructions -/

namespace NumOp

section

variable (sign : Signedness) {w : Width} (a b : Word w)

theorem apply_div :
    (NumOp.intBinary w (.div sign)).apply [.int w a, .int w b]
      = if b = 0 then .error (.trap .divideByZero)
        else .ok (.int w (BitVec.ofInt w.bits ((sign.read a).tdiv (sign.read b)))) := by
  rw [apply_intBinary, IntBinary.eval_div]
  split <;> rfl

theorem apply_rem :
    (NumOp.intBinary w (.rem sign)).apply [.int w a, .int w b]
      = if b = 0 then .error (.trap .divideByZero)
        else .ok (.int w (BitVec.ofInt w.bits ((sign.read a).tmod (sign.read b)))) := by
  rw [apply_intBinary, IntBinary.eval_rem]
  split <;> rfl

/-- Division by zero is the one trap. -/
theorem apply_eq_divideByZero_iff {op : IntBinary} (hop : op = .div sign ∨ op = .rem sign) :
    (NumOp.intBinary w op).apply [.int w a, .int w b] = .error (.trap .divideByZero)
      ↔ b = 0 := by
  obtain ⟨f, hf⟩ := IntBinary.exists_eval_eq sign hop
  rw [apply_intBinary, hf]
  split_ifs with hb
  · exact iff_of_true rfl hb
  · exact iff_of_false nofun hb

end

/-- **Division and remainder are exact.** They trap if the divisor is zero, and only then.
Otherwise, read either way, they are the division toward zero of the integers, with the one
exception of the least signed integer by minus one, where the quotient is the least integer
again and the remainder zero. Without a sign there is no exception and no remainder below zero.
In every case the wrapping product and sum make up the dividend again. -/
theorem division_exact (w : Width) (a b : Word w) :
    let run := fun op (x y : Word w) => (NumOp.intBinary w op).apply [.int w x, .int w y]
    (∀ sign, (run (.div sign) a b = .error (.trap .divideByZero) ↔ b = 0)
        ∧ (run (.rem sign) a b = .error (.trap .divideByZero) ↔ b = 0))
      ∧ (b ≠ 0 → ∀ sign, ∃ q r,
        run (.div sign) a b = .ok (.int w q) ∧ run (.rem sign) a b = .ok (.int w r)
        ∧ (¬ (sign.read a = sign.least w ∧ sign.read b = -1) →
          IsDivision (sign.read a) (sign.read b) (sign.read q) (sign.read r)
            ∧ sign.read q = (sign.read a).tdiv (sign.read b))
        ∧ (sign.read a = sign.least w ∧ sign.read b = -1 →
          sign.read q = sign.least w ∧ sign.read r = 0)
        ∧ (sign = .unsigned → a.toNat = q.toNat * b.toNat + r.toNat ∧ r.toNat < b.toNat)
        ∧ ∃ p, run .mul q b = .ok (.int w p) ∧ run .add p r = .ok (.int w a)) := by
  intro run
  have hdiv : ∀ sign, run (.div sign) a b = _ := fun sign => apply_div sign a b
  have hrem : ∀ sign, run (.rem sign) a b = _ := fun sign => apply_rem sign a b
  refine ⟨fun sign => ⟨apply_eq_divideByZero_iff sign a b (.inl rfl),
    apply_eq_divideByZero_iff sign a b (.inr rfl)⟩, fun hb sign => ?_⟩
  have hzero : sign.read b ≠ 0 := by rwa [Ne, sign.read_eq_zero_iff]
  have ha := sign.read_mem_range a
  have hrange := (sign.read_mem_range b).1
  have hr := (sign.mem_range_iff w _).mp (sign.tmod_mem_range w ha hzero)
  have hq : ¬ (sign.read a = sign.least w ∧ sign.read b = -1) →
      sign.read (BitVec.ofInt w.bits ((sign.read a).tdiv (sign.read b)))
        = (sign.read a).tdiv (sign.read b) :=
    fun hne => (sign.mem_range_iff w _).mp (sign.tdiv_mem_range w ha hrange hne)
  refine ⟨_, _, by rw [hdiv, if_neg hb], by rw [hrem, if_neg hb], fun hne => ?_, ?_, ?_,
    _, apply_intBinary w .mul _ b, ?_⟩
  · exact ⟨(isDivision_iff hzero).mpr ⟨hq hne, hr⟩, hq hne⟩
  · -- the quotient is out of range, and is what its integer is put back as
    rintro ⟨hleast, hminus⟩
    rw [hr, hleast, hminus, Int.tdiv_neg, Int.tdiv_one, Int.tmod_neg, Int.tmod_one]
    exact ⟨sign.read_ofInt_neg_least w, rfl⟩
  · rintro rfl
    -- a divisor that is read without a sign is not minus one
    have hnonneg : (0 : Int) ≤ Signedness.unsigned.read b := Int.natCast_nonneg b.toNat
    exact IsDivision.of_natCast ((isDivision_iff hzero).mpr ⟨hq (by omega), hr⟩)
  · show (NumOp.intBinary w _).apply _ = _
    rw [apply_intBinary]
    show Except.ok (Value.int w _) = _
    rw [IntBinary.mul_add_eq]

/-- The least integer of 32 bits by minus one gives itself and no remainder, and the product
wraps back to it. Without a sign the same operands are an ordinary division. Minus seven by two
goes toward zero, so its remainder is below zero. -/
theorem division_exact_least_by_minus_one :
    let run := fun op => (NumOp.intBinary .w32 op).apply
      [.int .w32 0x80000000#32, .int .w32 0xffffffff#32]
    (0xffffffff#32 ≠ 0 ∧ Signedness.signed.read 0xffffffff#32 = -1)
      ∧ run (.div .signed) = .ok (.int .w32 0x80000000#32)
      ∧ run (.rem .signed) = .ok (.int .w32 0#32)
      ∧ (∃ p, run .mul = .ok (.int .w32 p)
        ∧ (NumOp.intBinary .w32 .add).apply [.int .w32 p, .int .w32 0#32]
          = .ok (.int .w32 0x80000000#32))
      ∧ (∃ q r : BitVec 32, run (.div .unsigned) = .ok (.int .w32 q)
        ∧ 0x80000000 = q.toNat * 0xffffffff + r.toNat ∧ r.toNat < 0xffffffff)
      ∧ (NumOp.intBinary .w64 (.div .signed)).apply [.int .w64 (-7), .int .w64 2]
          = .ok (.int .w64 (-3))
      ∧ IsDivision (-7) 2 (-3) (-1) := by
  intro run
  have hdivisor : 0xffffffff#32 ≠ 0 := by decide
  have hminus : Signedness.signed.read 0xffffffff#32 = -1 := by decide
  have hleast : Signedness.signed.read 0x80000000#32 = Signedness.signed.least .w32 := by decide
  have hdiv : run (.div .signed) = .ok (.int .w32 0x80000000#32) := by decide
  have hseven : (NumOp.intBinary .w64 (.div .signed)).apply [.int .w64 (-7), .int .w64 2]
      = .ok (.int .w64 (-3)) := by decide
  have hseven' : (NumOp.intBinary .w64 (.rem .signed)).apply [.int .w64 (-7), .int .w64 2]
      = .ok (.int .w64 (-1)) := by decide
  obtain ⟨-, hexact⟩ := division_exact .w32 0x80000000#32 0xffffffff#32
  refine ⟨⟨hdivisor, hminus⟩, hdiv, ?_, ?_, ?_, hseven, ?_⟩
  · obtain ⟨q, r, -, hr, -, hwrapped, -⟩ := hexact hdivisor .signed
    obtain ⟨-, hzero⟩ := hwrapped ⟨hleast, hminus⟩
    obtain rfl := (Signedness.read_eq_zero_iff _).mp hzero
    exact hr
  · obtain ⟨q, r, hq, hr, -, hwrapped, -, p, hp, hsum⟩ := hexact hdivisor .signed
    obtain ⟨-, hzero⟩ := hwrapped ⟨hleast, hminus⟩
    obtain rfl := (Signedness.read_eq_zero_iff _).mp hzero
    obtain rfl : 0x80000000#32 = q := by simpa using hdiv.symm.trans hq
    exact ⟨p, hp, hsum⟩
  · obtain ⟨q, r, hq, -, -, -, hunsigned, -⟩ := hexact hdivisor .unsigned
    exact ⟨q, r, hq, hunsigned rfl⟩
  · obtain ⟨-, hexact⟩ := division_exact .w64 (-7) 2
    obtain ⟨q, r, hq, hr, hdivision, -⟩ := hexact (by decide) .signed
    obtain rfl : (-3 : Word .w64) = q := by simpa using hseven.symm.trans hq
    obtain rfl : (-1 : Word .w64) = r := by simpa using hseven'.symm.trans hr
    exact (hdivision (by decide)).1

end NumOp

end WasmExec
