/-
The narrow integers inside the wide ones.

Each instruction on integers of 32 bits is the one on integers of 64 bits, between a widening of
its operands and a wrapping of its result. Why that is so is not the same for all of them.
Wrapping is a homomorphism for what looks at low bits only, which is the ring of sums and
products and the bits one by one, and there it does not matter how the operands were widened
(`eval_setWidth`). Comparison and division look at the integer as a whole, so they have to be
widened by the sign that they read. Widening keeps that reading, and cutting off finds in the
wide word what the narrow one would have been given, in the range or not (`eval_extend`). The
shifts are divisions and products as well, once the amount has been cut to five bits, which the
wide instruction would not do by itself.
-/
import WasmExec.Proofs.Integer.Division
import WasmExec.Proofs.Integer.BitCount

set_option autoImplicit false

namespace WasmExec

/-! ## Narrow instructions by way of wide ones -/

namespace NumOp

/-- Runs an instruction on wide integers, on narrow operands that are widened by their signs. -/
def onWidened (op : NumOp) (operands : List (Signedness × Word .w32)) : Except Fault Value := do
  op.apply (← operands.mapM fun (sign, a) => (NumOp.convert (.extend sign)).apply [.int .w32 a])

/-- **By way of the wide integers**: the operands are widened, and the result is wrapped. -/
def throughWide (op : NumOp) (operands : List (Signedness × Word .w32)) : Except Fault Value := do
  (NumOp.convert .wrap).apply [← op.onWidened operands]

section

variable (s t : Signedness) (a b : Word .w32)

theorem onWidened_eqz :
    (NumOp.intEqz .w64).onWidened [(s, a)]
      = .ok (.int .w32 (truthWord ((s.extend 64 a : Word .w64) = 0))) := rfl

theorem onWidened_compare (op : IntCompare) :
    (NumOp.intCompare .w64 op).onWidened [(s, a), (t, b)]
      = .ok (.int .w32 (truthWord (op.eval (s.extend 64 a) (t.extend 64 b)))) := rfl

theorem throughWide_unary (op : IntUnary) :
    (NumOp.intUnary .w64 op).throughWide [(s, a)]
      = .ok (.int .w32 ((op.eval (s.extend 64 a)).setWidth 32)) := rfl

theorem throughWide_binary (op : IntBinary) :
    (NumOp.intBinary .w64 op).throughWide [(s, a), (t, b)]
      = ((op.eval (s.extend 64 a) (t.extend 64 b)).map (BitVec.setWidth 32)).map
          (Value.int .w32) := by
  have hstep : (NumOp.intBinary .w64 op).onWidened [(s, a), (t, b)]
      = (op.eval (s.extend 64 a) (t.extend 64 b)).map (Value.int .w64) :=
    apply_intBinary .w64 op _ _
  rw [throughWide, hstep]
  cases op.eval (s.extend 64 a) (t.extend 64 b) <;> rfl

end

end NumOp

/-! ## What cutting off keeps -/

section

variable {m n : Nat}

/-- **Wrapping is a homomorphism** for sums, differences and products, and for bits. -/
theorem IntBinary.eval_setWidth (h : n ≤ m) {op : IntBinary}
    (hop : op ∈ [.add, .sub, .mul, .and, .or, .xor]) (x y : BitVec m) :
    op.eval (x.setWidth n) (y.setWidth n) = (op.eval x y).map (BitVec.setWidth n) := by
  simp only [List.mem_cons, List.not_mem_nil, or_false] at hop
  have hadd := BitVec.setWidth_add x y h
  have hsub : (x - y).setWidth n = x.setWidth n - y.setWidth n := by
    rw [BitVec.sub_eq_add_neg, BitVec.setWidth_add x (-y) h, BitVec.setWidth_neg_of_le h,
      ← BitVec.sub_eq_add_neg]
  have hmul := BitVec.setWidth_mul x y h
  have hand : (x &&& y).setWidth n = x.setWidth n &&& y.setWidth n := BitVec.setWidth_and
  have hor : (x ||| y).setWidth n = x.setWidth n ||| y.setWidth n := BitVec.setWidth_or
  have hxor : (x ^^^ y).setWidth n = x.setWidth n ^^^ y.setWidth n := BitVec.setWidth_xor
  obtain rfl | rfl | rfl | rfl | rfl | rfl := hop <;>
    simp only [IntBinary.eval, Except.map, hadd, hsub, hmul, hand, hor, hxor]

theorem IntUnary.eval_not_setWidth (h : n ≤ m) (x : BitVec m) :
    IntUnary.not.eval (x.setWidth n) = (IntUnary.not.eval x).setWidth n :=
  (BitVec.setWidth_not h).symm

variable (sign : Signedness) (a b : BitVec n)

theorem Signedness.extend_inj (h : n ≤ m) : sign.extend m a = sign.extend m b ↔ a = b := by
  rw [← sign.read_injective.eq_iff, sign.read_extend h, sign.read_extend h,
    sign.read_injective.eq_iff]

theorem Signedness.extend_eq_zero_iff (h : n ≤ m) : sign.extend m b = 0 ↔ b = 0 := by
  rw [← sign.read_eq_zero_iff, sign.read_extend h, sign.read_eq_zero_iff]

/-- **The wide division is the narrow one**, also where its quotient is out of the narrow range,
and with the same trap. -/
theorem IntBinary.eval_division (h : n ≤ m) {op : IntBinary}
    (hop : op = .div sign ∨ op = .rem sign) :
    (op.eval (sign.extend m a) (sign.extend m b)).map (BitVec.setWidth n) = op.eval a b := by
  -- both lengths put back the same integer, since the readings are the same
  obtain ⟨f, hf⟩ := IntBinary.exists_eval_eq sign hop
  have hzero := sign.extend_eq_zero_iff b h
  by_cases hb : b = 0
  · rw [hf, hf, if_pos (hzero.mpr hb), if_pos hb]
    rfl
  · have hb' : ¬ sign.extend m b = 0 := by rwa [hzero]
    rw [hf, hf, if_neg hb', if_neg hb, sign.read_extend h, sign.read_extend h, Except.map,
      Signedness.setWidth_ofInt h]

/-- A comparison asks only for the integers, which widening keeps. -/
theorem IntCompare.eval_extend (h : n ≤ m) {op : IntCompare}
    (hop : op ∈ [.eq, .ne, .lt sign, .gt sign, .le sign, .ge sign]) :
    op.eval (sign.extend m a) (sign.extend m b) = op.eval a b := by
  simp only [List.mem_cons, List.not_mem_nil, or_false] at hop
  obtain rfl | rfl | rfl | rfl | rfl | rfl := hop <;>
    simp only [IntCompare.eval, sign.read_extend h, ne_eq, sign.extend_inj a b h]

end

/-! ## Shifts -/

/-- The low five bits of an amount are the places that a narrow word is shifted by. -/
theorem shiftAmount_extend_and (b : Word .w32) :
    shiftAmount (Signedness.unsigned.extend 64 (b &&& 31)) = shiftAmount b := by
  have hlow : (b &&& 31).toNat = b.toNat % 32 := by
    rw [BitVec.toNat_and]
    exact Nat.and_two_pow_sub_one_eq_mod b.toNat 5
  have hlt := (b &&& 31).isLt
  rw [shiftAmount, Signedness.extend, BitVec.toNat_setWidth_of_le (by decide), hlow, shiftAmount]
  exact Nat.mod_eq_of_lt (by omega)

section

variable (a b : Word .w32)

theorem IntBinary.eval_shl_wide :
    (IntBinary.shl.eval (Signedness.unsigned.extend 64 a)
      (Signedness.unsigned.extend 64 (b &&& 31))).map (BitVec.setWidth 32)
      = IntBinary.shl.eval a b := by
  rw [IntBinary.eval_shl .unsigned, IntBinary.eval_shl .unsigned, shiftAmount_extend_and,
    Signedness.read_extend _ (by decide), Except.map, Signedness.setWidth_ofInt (by decide)]

theorem IntBinary.eval_shr_wide (sign : Signedness) :
    ((IntBinary.shr sign).eval (sign.extend 64 a)
      (Signedness.unsigned.extend 64 (b &&& 31))).map (BitVec.setWidth 32)
      = (IntBinary.shr sign).eval a b := by
  rw [IntBinary.eval_shr, IntBinary.eval_shr, shiftAmount_extend_and,
    Signedness.read_extend _ (by decide), Except.map, Signedness.setWidth_ofInt (by decide)]

/-! ## Bit counts -/

/-- The wide word has as many more leading zeros as it is longer. -/
theorem setWidth_clz_extend :
    (Signedness.unsigned.extend 64 a).clz.setWidth 32 - 32 = a.clz := by
  have hsize : a.toNat.size ≤ 32 := Nat.size_le.mpr a.isLt
  apply BitVec.eq_of_toNat_eq
  rw [BitVec.toNat_sub, BitVec.toNat_setWidth, toNat_clz, toNat_clz, Signedness.extend,
    BitVec.toNat_setWidth_of_le (by decide)]
  show (2 ^ 32 - 32 + (64 - a.toNat.size) % 2 ^ 32) % 2 ^ 32 = 32 - a.toNat.size
  omega

/-- The bits that widening adds are clear. -/
theorem setWidth_cpop_extend :
    (Signedness.unsigned.extend 64 a).cpop.setWidth 32 = a.cpop := by
  apply BitVec.eq_of_toNat_eq
  rw [BitVec.toNat_setWidth, Signedness.extend, BitVec.toNat_cpop_setWidth_eq_of_le (by decide),
    Nat.mod_eq_of_lt a.cpop.isLt]

end

/-! ## The instructions -/

namespace NumOp

/-- **The narrow instructions are the wide ones, between widening and wrapping.** Sums, products
and bits come out right however each operand was widened. Division goes by the sign that it reads,
with the same trap, and so does the order; equality only needs both operands widened alike. Shifts
take the low five bits of the amount, and leading zeros are counted from the top of the narrow
word. -/
theorem narrow_through_wide (a b : Word .w32) :
    let unary := fun op => (NumOp.intUnary .w32 op).apply [.int .w32 a]
    let binary := fun op => (NumOp.intBinary .w32 op).apply [.int .w32 a, .int .w32 b]
    (∀ op ∈ [IntBinary.add, .sub, .mul, .and, .or, .xor], ∀ s t,
        binary op = (NumOp.intBinary .w64 op).throughWide [(s, a), (t, b)])
      ∧ (∀ s, unary .not = (NumOp.intUnary .w64 .not).throughWide [(s, a)])
      ∧ (∀ sign, ∀ op ∈ [IntBinary.div sign, .rem sign],
        binary op = (NumOp.intBinary .w64 op).throughWide [(sign, a), (sign, b)]
          ∧ (binary op = .error (.trap .divideByZero) ↔ b = 0))
      ∧ (∀ sign, ∀ op ∈ [IntCompare.eq, .ne, .lt sign, .gt sign, .le sign, .ge sign],
        (NumOp.intCompare .w32 op).apply [.int .w32 a, .int .w32 b]
          = (NumOp.intCompare .w64 op).onWidened [(sign, a), (sign, b)])
      ∧ (∀ sign, (NumOp.intEqz .w32).apply [.int .w32 a]
        = (NumOp.intEqz .w64).onWidened [(sign, a)])
      ∧ (∃ low : Word .w32,
        (NumOp.intBinary .w32 .and).apply [.int .w32 b, .int .w32 31] = .ok (.int .w32 low)
          ∧ binary .shl = (NumOp.intBinary .w64 .shl).throughWide [(.unsigned, a), (.unsigned, low)]
          ∧ ∀ sign, binary (.shr sign)
            = (NumOp.intBinary .w64 (.shr sign)).throughWide [(sign, a), (.unsigned, low)])
      ∧ (∃ zeros : Word .w32,
        (NumOp.intUnary .w64 .clz).throughWide [(.unsigned, a)] = .ok (.int .w32 zeros)
          ∧ unary .clz = (NumOp.intBinary .w32 .sub).apply [.int .w32 zeros, .int .w32 32])
      ∧ unary .popcnt = (NumOp.intUnary .w64 .popcnt).throughWide [(.unsigned, a)] := by
  intro unary binary
  have hunary : ∀ op, unary op = .ok (.int .w32 (op.eval a)) := fun op => apply_intUnary .w32 op a
  have hbinary : ∀ op, binary op = (op.eval a b).map (Value.int .w32) :=
    fun op => apply_intBinary .w32 op a b
  have hdivides : ∀ {sign : Signedness} {op : IntBinary},
      op ∈ [IntBinary.div sign, .rem sign] → op = .div sign ∨ op = .rem sign := by simp
  refine ⟨fun op hop s t => ?_, fun s => ?_, fun sign op hop => ⟨?_, ?_⟩, fun sign op hop => ?_,
    fun sign => ?_, ⟨_, apply_intBinary .w32 .and b 31, ?_, fun sign => ?_⟩,
    ⟨_, throughWide_unary .unsigned a .clz, ?_⟩, ?_⟩
  · -- the homomorphism takes the widened operands back to the narrow ones
    rw [hbinary, throughWide_binary, ← IntBinary.eval_setWidth (by decide) hop,
      s.setWidth_extend (by decide), t.setWidth_extend (by decide)]
  · rw [hunary, throughWide_unary, ← IntUnary.eval_not_setWidth (by decide),
      s.setWidth_extend (by decide)]
  · rw [hbinary, throughWide_binary, IntBinary.eval_division sign a b (by decide)
      (hdivides hop)]
  · exact apply_eq_divideByZero_iff sign a b (hdivides hop)
  · rw [apply_intCompare, onWidened_compare, IntCompare.eval_extend sign a b (by decide) hop]
  · have hzero : (sign.extend 64 a : Word .w64) = 0 ↔ a = 0 :=
      sign.extend_eq_zero_iff a (by decide)
    rw [apply_intEqz, onWidened_eqz, decide_eq_decide.mpr hzero]
  · rw [hbinary, throughWide_binary, IntBinary.eval_shl_wide]
  · rw [hbinary, throughWide_binary, IntBinary.eval_shr_wide]
  · rw [hunary, apply_intBinary]
    show Except.ok (Value.int .w32 a.clz) = Except.ok (Value.int .w32 (_ - 32))
    rw [← setWidth_clz_extend a]
    rfl
  · rw [hunary, throughWide_unary, IntUnary.eval, IntUnary.eval, setWidth_cpop_extend]

/-- The least narrow integer by minus one: the wide quotient is out of the narrow range, and is
cut off to what the narrow instruction gives. The sum of the two comes out right although one is
widened with its sign and the other without, and minus one is the greater where there is none. -/
theorem narrow_through_wide_least_by_minus_one :
    (NumOp.intBinary .w32 (.div .signed)).apply [.int .w32 0x80000000#32, .int .w32 0xffffffff#32]
        = .ok (.int .w32 0x80000000#32)
      ∧ (NumOp.intBinary .w64 (.div .signed)).throughWide
          [(.signed, 0x80000000#32), (.signed, 0xffffffff#32)] = .ok (.int .w32 0x80000000#32)
      ∧ (NumOp.intBinary .w64 .add).throughWide
          [(.signed, 0x80000000#32), (.unsigned, 0xffffffff#32)] = .ok (.int .w32 0x7fffffff#32)
      ∧ (NumOp.intCompare .w64 (.lt .unsigned)).onWidened
          [(.unsigned, 0x80000000#32), (.unsigned, 0xffffffff#32)] = .ok (.int .w32 1) := by
  obtain ⟨hring, -, hdivision, hcompare, -⟩ := narrow_through_wide 0x80000000#32 0xffffffff#32
  obtain ⟨hwide, -⟩ := hdivision .signed (.div .signed) (by decide)
  have hleast : (NumOp.intBinary .w32 (.div .signed)).apply
      [.int .w32 0x80000000#32, .int .w32 0xffffffff#32] = .ok (.int .w32 0x80000000#32) := by
    decide
  refine ⟨hleast, hwide.symm.trans hleast, ?_, ?_⟩
  · exact (hring .add (by decide) .signed .unsigned).symm.trans (by decide)
  · exact (hcompare .unsigned (.lt .unsigned) (by decide)).symm.trans (by decide)

end NumOp

end WasmExec
