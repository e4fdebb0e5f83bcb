/-
Bit counts.

The number of set bits is the size of a set of places (`setBits`), so what moves bits about
without losing any keeps the count, and what adds bits that are clear keeps it too. The number
of leading zeros is what the size of the number leaves of the length (`toNat_clz`), so a longer
word with the same number has as many more of them as it is longer.
-/
import WasmExec.Integer
import Mathlib.Tactic
import Mathlib.Data.Nat.Size

set_option autoImplicit false

namespace WasmExec

variable {n : Nat}

/-- The places of a word where its bits are set. -/
def setBits (a : BitVec n) : Finset (Fin n) := Finset.univ.filter fun i => a.getLsbD i

theorem mem_setBits {a : BitVec n} {i : Fin n} : i ∈ setBits a ↔ a.getLsbD i = true := by
  rw [setBits, Finset.mem_filter]
  exact and_iff_right (Finset.mem_univ i)

/-- The count looks at one place after another. -/
theorem cpopNatRec_eq_sum (a : BitVec n) (k : Nat) :
    a.cpopNatRec k 0 = ∑ i ∈ Finset.range k, if a.getLsbD i then 1 else 0 := by
  induction k with
  | zero => rfl
  | succ k ih =>
    rw [BitVec.cpopNatRec_succ, BitVec.cpopNatRec_eq, ih, Finset.sum_range_succ, Nat.zero_add]
    cases a.getLsbD k <;> rfl

/-- **The number of set bits.** -/
theorem toNat_cpop (a : BitVec n) : a.cpop.toNat = (setBits a).card := by
  rw [BitVec.toNat_cpop, cpopNatRec_eq_sum, setBits, Finset.card_filter]
  exact (Fin.sum_univ_eq_sum_range (fun i => if a.getLsbD i then 1 else 0) n).symm

/-- **The number of leading zeros** is what the number leaves of the length. -/
theorem toNat_clz (a : BitVec n) : a.clz.toNat = n - a.toNat.size := by
  have hsize : a.toNat.size ≤ n - a.clz.toNat := Nat.size_le.mpr BitVec.toNat_lt_two_pow_sub_clz
  by_cases ha : a = 0
  · rw [BitVec.clz_eq_iff_eq_zero.mpr ha, ha]
    simp [Nat.mod_eq_of_lt Nat.lt_two_pow_self]
  · have hlength : 0 < n := by
      rw [Nat.pos_iff_ne_zero]
      rintro rfl
      exact ha (BitVec.of_length_zero)
    have hhighest : n - 1 - a.clz.toNat < a.toNat.size :=
      Nat.lt_size.mpr (BitVec.two_pow_sub_clz_le_toNat_of_ne_zero hlength ha)
    omega

end WasmExec
