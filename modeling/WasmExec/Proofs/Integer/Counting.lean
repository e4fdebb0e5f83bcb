/-
The three counts of bits and what ties them together.

A word is a set of places, those where its bits are set. Complement, conjunction and disjunction
of words are complement, intersection and union of such sets, so the laws of the number of set bits
are those of the size of finite sets. The other two counts are about the order of the places: a
word that is not zero has a highest and a lowest one (`isGreatest_setBits`, `isLeast_setBits`).

Between the lowest place and the number of set bits stands a difference. Subtracting one borrows
from the lowest set bit, which clears it, sets every bit below, and leaves those above alone. Of
these, the bits that were clear before are the ones below. So they are as many as there are trailing
zeros (`setBits_below`), and for the word zero, where the difference wraps, they are all there are.
-/
import WasmExec.Proofs.Instruction.Operand
import WasmExec.Proofs.Integer.BitCount

set_option autoImplicit false

namespace WasmExec

variable {n : Nat}

/-! ## Words as sets of places -/

theorem setBits_not (a : BitVec n) : setBits (~~~a) = (setBits a)ᶜ := by
  ext i
  rw [Finset.mem_compl, mem_setBits, mem_setBits, BitVec.getLsbD_not, decide_eq_true i.isLt,
    Bool.true_and, Bool.not_eq_true', Bool.not_eq_true]

theorem setBits_and (a b : BitVec n) : setBits (a &&& b) = setBits a ∩ setBits b := by
  ext i
  rw [Finset.mem_inter, mem_setBits, mem_setBits, mem_setBits, BitVec.getLsbD_and,
    Bool.and_eq_true]

theorem setBits_or (a b : BitVec n) : setBits (a ||| b) = setBits a ∪ setBits b := by
  ext i
  rw [Finset.mem_union, mem_setBits, mem_setBits, mem_setBits, BitVec.getLsbD_or, Bool.or_eq_true]

/-- **A word and its complement** share the places out. -/
theorem cpop_add_cpop_not (a : BitVec n) : a.cpop.toNat + (~~~a).cpop.toNat = n := by
  rw [toNat_cpop, toNat_cpop, setBits_not, Finset.card_add_card_compl, Fintype.card_fin]

/-- **Conjunction and disjunction** together have the set bits of both words. -/
theorem cpop_and_add_cpop_or (a b : BitVec n) :
    (a &&& b).cpop.toNat + (a ||| b).cpop.toNat = a.cpop.toNat + b.cpop.toNat := by
  rw [toNat_cpop, toNat_cpop, toNat_cpop, toNat_cpop, setBits_and, setBits_or,
    Finset.card_inter_add_card_union]

/-! ## The highest and the lowest place -/

theorem toNat_clz_lt {a : BitVec n} (ha : a ≠ 0) : a.clz.toNat < n := by
  have hlt := BitVec.lt_def.mp (BitVec.clz_lt_iff_ne_zero.mpr ha)
  exact hlt.trans_le (Nat.mod_le n _)

theorem toNat_ctz_lt {a : BitVec n} (ha : a ≠ 0) : a.ctz.toNat < n := by
  have hlt := BitVec.lt_def.mp (BitVec.ctz_lt_iff_ne_zero.mpr ha)
  exact hlt.trans_le (Nat.mod_le n _)

/-- **Leading zeros are counted down to the highest set bit.** -/
theorem isGreatest_setBits {a : BitVec n} (ha : a ≠ 0) :
    IsGreatest (setBits a : Set (Fin n))
      ⟨n - 1 - a.clz.toNat, by have := toNat_clz_lt ha; omega⟩ := by
  have hclz := toNat_clz_lt ha
  constructor
  · rw [Finset.mem_coe, mem_setBits]
    exact BitVec.getLsbD_true_clz_of_ne_zero (by omega) ha
  · intro i hi
    rw [Finset.mem_coe, mem_setBits] at hi
    -- a set bit above would make the number as large as its power of two
    have hle : 2 ^ i.val ≤ a.toNat := Nat.ge_two_pow_of_testBit hi
    have hlt : i.val < n - a.clz.toNat :=
      (Nat.pow_lt_pow_iff_right (by decide)).mp (hle.trans_lt BitVec.toNat_lt_two_pow_sub_clz)
    exact Fin.le_def.mpr (show i.val ≤ n - 1 - a.clz.toNat by omega)

/-- **Trailing zeros are counted up to the lowest set bit.** -/
theorem isLeast_setBits {a : BitVec n} (ha : a ≠ 0) :
    IsLeast (setBits a : Set (Fin n)) ⟨a.ctz.toNat, toNat_ctz_lt ha⟩ := by
  constructor
  · rw [Finset.mem_coe, mem_setBits]
    exact BitVec.getLsbD_true_ctz_of_ne_zero ha
  · intro i hi
    rw [Finset.mem_coe, mem_setBits] at hi
    rw [Fin.le_def]
    refine Nat.le_of_not_lt fun hlt => ?_
    rw [BitVec.getLsbD_false_of_lt_ctz hlt] at hi
    cases hi

theorem toNat_clz_zero : (0 : BitVec n).clz.toNat = n := by
  have hzero : (0 : BitVec n).toNat = 0 := BitVec.toNat_zero
  rw [toNat_clz, hzero, Nat.size_zero, Nat.sub_zero]

theorem toNat_ctz_zero : (0 : BitVec n).ctz.toNat = n := by
  have hreverse : (0 : BitVec n).reverse = 0 := BitVec.reverse_eq_zero_iff.mpr rfl
  rw [BitVec.ctz_eq_reverse_clz, hreverse, toNat_clz_zero]

/-- The clear bits above the highest set one are all the bits there. -/
theorem card_above_highest {a : BitVec n} {h : Fin n}
    (hgreatest : IsGreatest (setBits a : Set (Fin n)) h) :
    ((Finset.Ioi h).filter fun i : Fin n => a.getLsbD i = false).card = n - 1 - h := by
  have hclear : ∀ i ∈ Finset.Ioi h, a.getLsbD i = false := by
    intro i habove
    refine Bool.eq_false_iff.mpr fun hset => ?_
    exact (hgreatest.2 (Finset.mem_coe.mpr (mem_setBits.mpr hset))).not_gt (Finset.mem_Ioi.mp habove)
  rw [Finset.filter_true_of_mem hclear, Fin.card_Ioi]

/-! ## Below the lowest place -/

/-- A place is among the trailing zeros if no bit is set there or below. -/
theorem lt_ctz_iff {a : BitVec n} {i : Fin n} :
    i.val < a.ctz.toNat ↔ ∀ j ≤ i.val, a.getLsbD j = false := by
  constructor
  · intro hi j hj
    exact BitVec.getLsbD_false_of_lt_ctz (hj.trans_lt hi)
  · intro hclear
    refine Nat.lt_of_not_le fun hle => ?_
    by_cases ha : a = 0
    · rw [ha, toNat_ctz_zero] at hle
      exact absurd i.isLt hle.not_gt
    · have hlowest := BitVec.getLsbD_true_ctz_of_ne_zero ha
      rw [hclear _ hle] at hlowest
      cases hlowest

/-- **What a borrow newly sets** are the places of the trailing zeros. -/
theorem setBits_below (a : BitVec n) :
    setBits (~~~a &&& (a - 1)) = Finset.univ.filter fun i => i.val < a.ctz.toNat := by
  ext i
  -- taking one away is complementing the opposite, whose bits are known by a look below
  have hdifference : a - 1 = ~~~(-a) := (BitVec.not_neg a).symm
  rw [Finset.mem_filter, lt_ctz_iff, mem_setBits, hdifference, BitVec.getLsbD_and,
    BitVec.getLsbD_not, BitVec.getLsbD_not, BitVec.getLsbD_neg]
  simp only [i.isLt, decide_true, Bool.true_and, Finset.mem_univ, true_and]
  constructor
  · intro hset j hj
    rw [Bool.and_eq_true, Bool.not_eq_true'] at hset
    obtain ⟨hclear, hborrowed⟩ := hset
    have hbelow : ¬ ∃ j < i.val, a.getLsbD j = true := by
      rw [hclear, Bool.false_xor, Bool.not_eq_true'] at hborrowed
      exact of_decide_eq_false hborrowed
    obtain rfl | hlt := hj.eq_or_lt
    · exact hclear
    · exact Bool.eq_false_iff.mpr fun hj => hbelow ⟨j, hlt, hj⟩
  · intro hclear
    have hbelow : ¬ ∃ j < i.val, a.getLsbD j = true := by
      rintro ⟨j, hj, hset⟩
      rw [hclear j hj.le] at hset
      cases hset
    rw [hclear i le_rfl, decide_eq_false hbelow]
    rfl

/-- **Trailing zeros are set bits after a borrow.** -/
theorem cpop_below (a : BitVec n) : (~~~a &&& (a - 1)).cpop = a.ctz := by
  have hle : a.ctz.toNat ≤ n := by
    by_cases ha : a = 0
    · rw [ha, toNat_ctz_zero]
    · exact (toNat_ctz_lt ha).le
  apply BitVec.eq_of_toNat_eq
  rw [toNat_cpop, setBits_below, Fin.card_filter_val_lt, min_eq_right hle]

/-! ## The instructions -/

namespace NumOp

/-- **Bit counts match positions and each other.** Leading zeros are the clear bits above the highest
set bit, trailing zeros the place of the lowest one, and for the word zero both are its length. A word
and its complement have as many set bits as there are bits, trailing zeros are the set bits that
a borrow leaves where none were, and conjunction and disjunction together have as many set bits as
both words. -/
theorem bit_counts (w : Width) (a b : Word w) :
    let count := fun op (x : Word w) => (NumOp.intUnary w op).apply [.int w x]
    let run := fun op (x y : Word w) => (NumOp.intBinary w op).apply [.int w x, .int w y]
    (∃ c, count .clz a = .ok (.int w c) ∧ (a = 0 → c.toNat = w.bits)
        ∧ (a ≠ 0 → ∃ h, IsGreatest {i : Fin w.bits | a.getLsbD i = true} h
          ∧ c.toNat = ((Finset.Ioi h).filter fun i : Fin w.bits => a.getLsbD i = false).card
          ∧ c.toNat = w.bits - 1 - h))
      ∧ (∃ c, count .ctz a = .ok (.int w c) ∧ (a = 0 → c.toNat = w.bits)
        ∧ (a ≠ 0 → ∃ l, IsLeast {i : Fin w.bits | a.getLsbD i = true} l ∧ c.toNat = l))
      ∧ (∃ c, count .popcnt a = .ok (.int w c)
        ∧ c.toNat = (Finset.univ.filter fun i : Fin w.bits => a.getLsbD i = true).card)
      ∧ (∃ c complement c', count .popcnt a = .ok (.int w c)
        ∧ count .not a = .ok (.int w complement) ∧ count .popcnt complement = .ok (.int w c')
        ∧ c.toNat + c'.toNat = w.bits)
      ∧ (∃ complement less both, count .not a = .ok (.int w complement)
        ∧ run .sub a 1 = .ok (.int w less) ∧ run .and complement less = .ok (.int w both)
        ∧ count .ctz a = count .popcnt both)
      ∧ ∃ both either c c' d d', run .and a b = .ok (.int w both) ∧ run .or a b = .ok (.int w either)
        ∧ count .popcnt both = .ok (.int w c) ∧ count .popcnt either = .ok (.int w c')
        ∧ count .popcnt a = .ok (.int w d) ∧ count .popcnt b = .ok (.int w d')
        ∧ c.toNat + c'.toNat = d.toNat + d'.toNat := by
  intro count run
  have hcount : ∀ op x, count op x = .ok (.int w (op.eval x)) := apply_intUnary w
  have hrun : ∀ op x y, run op x y = (op.eval x y).map (Value.int w) := apply_intBinary w
  have hplaces : {i : Fin w.bits | a.getLsbD i = true} = (setBits a : Set (Fin w.bits)) := by
    ext i
    exact mem_setBits.symm
  rw [hplaces]
  refine ⟨⟨_, hcount .clz a, ?_, ?_⟩, ⟨_, hcount .ctz a, ?_, ?_⟩, ⟨_, hcount .popcnt a, ?_⟩,
    ⟨_, _, _, hcount .popcnt a, hcount .not a, hcount .popcnt _, ?_⟩,
    ⟨_, _, _, hcount .not a, hrun .sub a 1, hrun .and _ _, ?_⟩,
    ⟨_, _, _, _, _, _, hrun .and a b, hrun .or a b, hcount .popcnt _, hcount .popcnt _,
      hcount .popcnt a, hcount .popcnt b, ?_⟩⟩
  · rintro rfl
    exact toNat_clz_zero
  · intro ha
    have hgreatest := isGreatest_setBits ha
    have hlast : a.clz.toNat = w.bits - 1 - (w.bits - 1 - a.clz.toNat) := by
      have hclz := toNat_clz_lt ha
      omega
    exact ⟨_, hgreatest, hlast.trans (card_above_highest hgreatest).symm, hlast⟩
  · rintro rfl
    exact toNat_ctz_zero
  · intro ha
    exact ⟨_, isLeast_setBits ha, rfl⟩
  · exact toNat_cpop a
  · exact cpop_add_cpop_not a
  · rw [hcount, hcount]
    exact congrArg (fun c => Except.ok (Value.int w c)) (cpop_below a).symm
  · exact cpop_and_add_cpop_or a b

end NumOp

end WasmExec
