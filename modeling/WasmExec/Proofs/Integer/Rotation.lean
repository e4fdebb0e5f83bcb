/-
Shifts and rotations, for every amount.

A shift is arithmetic: to the left it multiplies modulo the number of words, to the right it
divides and takes the floor, of the reading that it is for. The floor of a reading is again in
the range of that reading, so nothing is lost when it is put back.

A rotation is no arithmetic, but it is translation. The places of a word are the residues modulo
its length, and the bit that a rotation puts at a place is the one that stood so many places
before it. Only the residue of the amount counts, its *turn*, and since the length divides the
number of words, wrapping sums and differences of amounts are sums and differences of turns
(`turn_add`, `turn_zero_sub`). What is said of rotations is then what is known of translations:
they compose by adding, turning by the opposite undoes them, and they permute the places, so no
bit is lost and their number stays.
-/
import WasmExec.Proofs.Instruction.Operand
import WasmExec.Proofs.Integer.Reading
import WasmExec.Proofs.Integer.BitCount

set_option autoImplicit false

namespace WasmExec

variable {w : Width}

/-! ## Shifts -/

/-- The floor of a quotient by a positive number stays in the range. -/
theorem Signedness.ediv_mem_range (sign : Signedness) (w : Width) {t d : Int} (hd : 0 < d)
    (ht : sign.least w ≤ t ∧ t ≤ sign.greatest w) :
    sign.least w ≤ t / d ∧ t / d ≤ sign.greatest w := by
  have hends := sign.zero_mem_range w
  obtain hpos | hneg := le_total 0 t
  · exact ⟨hends.1.trans (Int.ediv_nonneg hpos hd.le), (Int.ediv_le_self d hpos).trans ht.2⟩
  · have hle : t ≤ t / d := by
      rw [Int.le_ediv_iff_mul_le hd]
      nlinarith
    have hnonpos : t / d ≤ 0 := (Int.ediv_le_ediv hd hneg).trans_eq (Int.zero_ediv d)
    exact ⟨ht.1.trans hle, hnonpos.trans hends.2⟩

/-! ## Turns -/

instance (w : Width) : NeZero w.bits := ⟨by cases w <;> decide⟩

/-- **The places that an amount turns by**, which is all that a rotation looks at. -/
def turn (b : Word w) : Fin w.bits := Fin.ofNat w.bits b.toNat

theorem val_turn (b : Word w) : (turn b).val = shiftAmount b := rfl

theorem bits_dvd (w : Width) : w.bits ∣ 2 ^ w.bits := by
  cases w <;> decide

/-- A sum that wraps turns like the sum that does not. -/
theorem turn_add (a b : Word w) : turn (a + b) = turn a + turn b := by
  apply Fin.ext
  -- what wrapping takes off is a multiple of the length
  rw [Fin.val_add, val_turn, val_turn, val_turn, shiftAmount, shiftAmount, shiftAmount,
    BitVec.toNat_add, Nat.mod_mod_of_dvd _ (bits_dvd w), Nat.add_mod]

/-- The opposite amount turns back. -/
theorem turn_zero_sub (b : Word w) : turn (0 - b) = -turn b := by
  have hsum : 0 - b + b = 0 := BitVec.sub_add_cancel 0 b
  have hzero : turn (0 : Word w) = 0 := by cases w <;> rfl
  rw [eq_neg_iff_add_eq_zero, ← turn_add, hsum, hzero]

/-! ## Rotations -/

/-- **The bit at a place after a turn to the left** stood as many places below. -/
theorem getLsbD_rotateLeft (a b : Word w) (i : Fin w.bits) :
    (a.rotateLeft (shiftAmount b)).getLsbD i = a.getLsbD (i - turn b : Fin w.bits) := by
  have hturn := (turn b).isLt
  rw [BitVec.getLsbD_rotateLeft, Fin.val_sub, ← val_turn, Nat.mod_eq_of_lt hturn]
  -- below the turn the bit has come round from the top
  by_cases hlow : i.val < (turn b).val
  · rw [decide_eq_true hlow, cond_true, Nat.mod_eq_of_lt (by omega)]
  · have hplace : w.bits - (turn b).val + i.val = w.bits + (i.val - (turn b).val) := by omega
    rw [decide_eq_false hlow, cond_false, decide_eq_true i.isLt, Bool.true_and, hplace,
      Nat.add_mod_left, Nat.mod_eq_of_lt (by omega)]

/-- **The bit at a place after a turn to the right** stood as many places above. -/
theorem getLsbD_rotateRight (a b : Word w) (i : Fin w.bits) :
    (a.rotateRight (shiftAmount b)).getLsbD i = a.getLsbD (i + turn b : Fin w.bits) := by
  have hturn := (turn b).isLt
  rw [BitVec.getLsbD_rotateRight, Fin.val_add, ← val_turn, Nat.mod_eq_of_lt hturn]
  -- in the highest places the bit has come round from below
  by_cases hlow : i.val < w.bits - (turn b).val
  · rw [decide_eq_true hlow, cond_true, Nat.mod_eq_of_lt (by omega), Nat.add_comm]
  · have hplace : i.val + (turn b).val = w.bits + (i.val - (w.bits - (turn b).val)) := by omega
    rw [decide_eq_false hlow, cond_false, decide_eq_true i.isLt, Bool.true_and, hplace,
      Nat.add_mod_left, Nat.mod_eq_of_lt (by omega)]

/-- Words are equal that have the same bit at every residue. -/
theorem eq_of_getLsbD {a b : Word w} (h : ∀ i : Fin w.bits, a.getLsbD i = b.getLsbD i) : a = b :=
  BitVec.eq_of_getLsbD_eq fun i hi => h ⟨i, hi⟩

/-- To the right is to the left by the opposite. -/
theorem rotateRight_eq (a b : Word w) :
    a.rotateRight (shiftAmount b) = a.rotateLeft (shiftAmount (0 - b)) := by
  apply eq_of_getLsbD
  intro i
  rw [getLsbD_rotateRight, getLsbD_rotateLeft, turn_zero_sub, sub_neg_eq_add]

theorem rotateRight_rotateLeft (a b : Word w) :
    (a.rotateLeft (shiftAmount b)).rotateRight (shiftAmount b) = a := by
  apply eq_of_getLsbD
  intro i
  rw [getLsbD_rotateRight, getLsbD_rotateLeft, add_sub_cancel_right]

theorem rotateLeft_rotateLeft (a b c : Word w) :
    (a.rotateLeft (shiftAmount b)).rotateLeft (shiftAmount c)
      = a.rotateLeft (shiftAmount (b + c)) := by
  apply eq_of_getLsbD
  intro i
  rw [getLsbD_rotateLeft, getLsbD_rotateLeft, getLsbD_rotateLeft, turn_add, sub_sub,
    add_comm (turn c)]

/-- **A rotation loses no bit.** -/
theorem cpop_rotateLeft (a b : Word w) : (a.rotateLeft (shiftAmount b)).cpop = a.cpop := by
  apply BitVec.eq_of_toNat_eq
  -- the places of set bits are translated by the turn
  rw [toNat_cpop, toNat_cpop]
  refine Finset.card_equiv (Equiv.subRight (turn b)) fun i => ?_
  rw [mem_setBits, mem_setBits, getLsbD_rotateLeft]
  rfl

/-- **The two shifts that make up a rotation.** A turn by nothing is no exception, although
both shifts then give the whole word. -/
theorem rotateLeft_eq_or (a b : Word w) :
    a.rotateLeft (shiftAmount b) = a <<< shiftAmount b ||| a >>> shiftAmount (0 - b) := by
  have hturn := (turn b).isLt
  have hopposite : shiftAmount (0 - b) = (w.bits - shiftAmount b) % w.bits := by
    rw [← val_turn, turn_zero_sub, Fin.val_neg', val_turn]
  rw [BitVec.rotateLeft_def, ← val_turn, Nat.mod_eq_of_lt hturn, hopposite, ← val_turn]
  by_cases hzero : (turn b).val = 0
  · rw [hzero, Nat.sub_zero, Nat.mod_self, BitVec.shiftLeft_zero, BitVec.ushiftRight_zero,
      BitVec.ushiftRight_eq_zero le_rfl, BitVec.or_zero, BitVec.or_self]
  · rw [Nat.mod_eq_of_lt (by omega)]

/-! ## The instructions -/

namespace NumOp

/-- **Shifts and rotations, for every amount.** The amount counts modulo the length, read without
a sign. A shift to the left multiplies by a power of two and wraps; one to the right divides the
reading that it is for and takes the floor. A rotation to the left is the two shifts by the amount
and by its opposite, put together, and one to the right is one to the left by the opposite. They
undo each other, amounts of rotations add with wrapping, and the number of set bits stays. -/
theorem shifts_and_rotations (w : Width) (a m n : Word w) :
    let run := fun op (x y : Word w) => (NumOp.intBinary w op).apply [.int w x, .int w y]
    let popcnt := fun x : Word w => (NumOp.intUnary w .popcnt).apply [.int w x]
    let k := n.toNat % w.bits
    (∃ x, run .shl a n = .ok (.int w x) ∧ x.toNat = a.toNat * 2 ^ k % 2 ^ w.bits)
      ∧ (∀ sign, ∃ x, run (.shr sign) a n = .ok (.int w x)
        ∧ sign.read x = ⌊((sign.read a : Int) : Rat) / 2 ^ k⌋)
      ∧ (∃ opposite high low, run .sub 0 n = .ok (.int w opposite)
        ∧ run .shl a n = .ok (.int w high) ∧ run (.shr .unsigned) a opposite = .ok (.int w low)
        ∧ run .rotl a n = run .or high low ∧ run .rotr a n = run .rotl a opposite)
      ∧ (∃ turned, run .rotl a n = .ok (.int w turned) ∧ run .rotr turned n = .ok (.int w a)
        ∧ popcnt turned = popcnt a)
      ∧ ∃ turned sum, run .rotl a m = .ok (.int w turned) ∧ run .add m n = .ok (.int w sum)
        ∧ run .rotl turned n = run .rotl a sum := by
  intro run popcnt k
  have hrun : ∀ op x y, run op x y = (op.eval x y).map (Value.int w) := apply_intBinary w
  have hshl : ∀ x y, run .shl x y = .ok (.int w (x <<< shiftAmount y)) :=
    fun x y => hrun .shl x y
  have hshr : ∀ sign x y, run (.shr sign) x y
      = .ok (.int w (BitVec.ofInt w.bits (sign.read x / 2 ^ shiftAmount y))) := by
    intro sign x y
    rw [hrun, IntBinary.eval_shr]
    rfl
  have hushr : ∀ x y, run (.shr .unsigned) x y = .ok (.int w (x >>> shiftAmount y)) :=
    fun x y => hrun (.shr .unsigned) x y
  have hrotl : ∀ x y, run .rotl x y = .ok (.int w (x.rotateLeft (shiftAmount y))) :=
    fun x y => hrun .rotl x y
  have hrotr : ∀ x y, run .rotr x y = .ok (.int w (x.rotateRight (shiftAmount y))) :=
    fun x y => hrun .rotr x y
  refine ⟨⟨_, hshl a n, ?_⟩, fun sign => ⟨_, hshr sign a n, ?_⟩,
    ⟨_, _, _, hrun .sub 0 n, hshl a n, hushr a (0 - n), ?_, ?_⟩,
    ⟨_, hrotl a n, ?_, ?_⟩, ⟨_, _, hrotl a m, hrun .add m n, ?_⟩⟩
  · rw [BitVec.toNat_shiftLeft, Nat.shiftLeft_eq]
    rfl
  · -- the floor is in range, so reading it again loses nothing
    have hfloor := (sign.mem_range_iff w (sign.read a / 2 ^ k)).mp
      (sign.ediv_mem_range w (by positivity) (sign.read_mem_range a))
    refine hfloor.trans ?_
    exact_mod_cast (Rat.floor_intCast_div_natCast (sign.read a) (2 ^ k)).symm
  · rw [hrotl, rotateLeft_eq_or]
    exact (hrun .or _ _).symm
  · rw [hrotr, hrotl, rotateRight_eq]
  · rw [hrotr, rotateRight_rotateLeft]
  · show (NumOp.intUnary w _).apply _ = (NumOp.intUnary w _).apply _
    rw [apply_intUnary, apply_intUnary, IntUnary.eval, IntUnary.eval, cpop_rotateLeft]
  · rw [hrotl, hrotl, rotateLeft_rotateLeft]

end NumOp

end WasmExec
