/-
Numbers within range.

Whether a number is within range is tested with its first digits and the power of ten that goes
with them, each rounded to double precision, and the product rounded again. Here is a bound up
to which every number passes the test. Three things can make the product greater than the number:
the digits taken up may pass it, and both factors may be rounded up. Each accounts for a factor
of two at most, and three such factors are far less than what is between the bound and the
overflow.
-/
import WasmExec.Proofs.Floating.Order
import WasmExec.Proofs.Json.Grammar
import WasmExec.Proofs.Json.Kept

set_option autoImplicit false

namespace WasmExec.Json.Number

/-- **The rational that a number denotes.** -/
def value (n : Number) : Rat :=
  (if n.negative then -1 else 1) * Nat.ofDigitChars 10 (n.whole ++ n.fraction.getD []) 0
    * 10 ^ (n.exponent.getD 0 - ((n.fraction.getD []).length : Int))

/-! ## The first digits -/

theorem mul_pow_le_ofDigitChars (cs : List Char) (n : Nat) :
    n * 10 ^ cs.length ≤ Nat.ofDigitChars 10 cs n := by
  induction cs generalizing n with
  | nil => simp
  | cons c cs ih =>
    rw [Nat.ofDigitChars_cons]
    refine le_trans ?_ (ih _)
    rw [List.length_cons, pow_succ, ← mul_assoc, mul_right_comm]
    gcongr
    omega

/-- **What is taken up** of a row of digits, and how many digits are left over. -/
theorem absorb_spec {cs : List Char} (hcs : ∀ c ∈ cs, c.isDigit = true) (n : Nat) :
    (absorb n cs).1 * 10 ^ (absorb n cs).2 ≤ Nat.ofDigitChars 10 cs n
      ∧ (absorb n cs).2 ≤ cs.length
      ∧ (absorb n cs).1 + 1 ≤ (n + 1) * 10 ^ (cs.length - (absorb n cs).2)
      ∧ ((absorb n cs).2 = 0 → (absorb n cs).1 = Nat.ofDigitChars 10 cs n)
      ∧ ((absorb n cs).2 ≠ 0 → 1 ≤ (absorb n cs).1) := by
  induction cs generalizing n with
  | nil => simp [absorb]
  | cons c cs ih =>
    have hdigit : c.toNat - 48 ≤ 9 := by
      have hc := hcs c List.mem_cons_self
      simp only [Char.isDigit, Bool.and_eq_true, decide_eq_true_eq] at hc
      have hnine : c.toNat ≤ 57 := hc.2
      omega
    by_cases hnext : 10 * n + (c.toNat - 48) ≤ 18446744073709551615
    · have hstep : absorb n (c :: cs) = absorb (10 * n + (c.toNat - 48)) cs := by
        rw [absorb, if_pos hnext]
      obtain ⟨hle, hleft, hlt, hall, hpos⟩ :=
        ih (fun d hd => hcs d (List.mem_cons_of_mem c hd)) (10 * n + (c.toNat - 48))
      rw [hstep]
      refine ⟨?_, ?_, ?_, ?_, hpos⟩
      · rw [Nat.ofDigitChars_cons]
        exact hle
      · rw [List.length_cons]
        omega
      · rw [List.length_cons, Nat.succ_sub hleft, pow_succ, ← mul_assoc]
        refine hlt.trans ?_
        rw [mul_right_comm]
        gcongr
        omega
      · rw [Nat.ofDigitChars_cons]
        exact hall
    · have hstep : absorb n (c :: cs) = (n, cs.length + 1) := by rw [absorb, if_neg hnext]
      rw [hstep]
      have hleft : cs.length + 1 ≠ 0 := Nat.succ_ne_zero cs.length
      have hpos : 1 ≤ n := by omega
      refine ⟨mul_pow_le_ofDigitChars (c :: cs) n, le_rfl, ?_, fun h => absurd h hleft,
        fun _ => hpos⟩
      rw [List.length_cons]
      simp

/-- Digits that are left over before the point are counted as zeros, and yet a digit behind the
point may be taken up; so what is taken up can pass the number, but not by a factor of two. -/
theorem absorb_absorb_le {whole fraction : List Char}
    (hdigits : ∀ c ∈ whole ++ fraction, c.isDigit = true) :
    (absorb (absorb 0 whole).1 fraction).1
        * 10 ^ ((absorb 0 whole).2 + (absorb (absorb 0 whole).1 fraction).2)
      ≤ 2 * Nat.ofDigitChars 10 (whole ++ fraction) 0 := by
  obtain ⟨hwhole, hfraction⟩ := List.forall_mem_append.mp hdigits
  obtain ⟨hle, -, -, hall, hpos⟩ := absorb_spec hwhole 0
  generalize hfirst : absorb 0 whole = first at hle hall hpos ⊢
  obtain ⟨a, left⟩ := first
  obtain ⟨hle', hdropped, hlt', -, -⟩ := absorb_spec hfraction a
  simp only at hle hall hpos ⊢
  rw [Nat.ofDigitChars_append]
  by_cases hleft : left = 0
  · rw [hleft, Nat.zero_add, ← hall hleft]
    omega
  · have ha := hpos hleft
    calc (absorb a fraction).1 * 10 ^ (left + (absorb a fraction).2)
        ≤ (a + 1) * 10 ^ (fraction.length - (absorb a fraction).2)
            * 10 ^ (left + (absorb a fraction).2) := by
          gcongr
          omega
      _ = (a + 1) * 10 ^ left * 10 ^ fraction.length := by
          rw [mul_assoc, mul_assoc, ← pow_add, ← pow_add]
          congr 2
          omega
      _ ≤ 2 * a * 10 ^ left * 10 ^ fraction.length := by
          gcongr
          omega
      _ ≤ 2 * (Nat.ofDigitChars 10 whole 0 * 10 ^ fraction.length) := by
          rw [mul_assoc 2, mul_assoc 2]
          gcongr
      _ ≤ 2 * Nat.ofDigitChars 10 fraction (Nat.ofDigitChars 10 whole 0) := by
          gcongr
          exact mul_pow_le_ofDigitChars _ _

/-- **The first digits and their power of ten** are at most twice the number. -/
theorem scientific_le {n : Number}
    (hdigits : ∀ c ∈ n.whole ++ n.fraction.getD [], c.isDigit = true) :
    (n.scientific.1 : Rat) * 10 ^ n.scientific.2 ≤ 2 * |n.value| := by
  have hten : (10 : Rat) ≠ 0 := by norm_num
  have hvalue : |n.value| = (Nat.ofDigitChars 10 (n.whole ++ n.fraction.getD []) 0 : Rat)
      * 10 ^ (n.exponent.getD 0 - ((n.fraction.getD []).length : Int)) := by
    have hsign : |(if n.negative then (-1 : Rat) else 1)| = 1 := by
      cases n.negative <;> norm_num
    have hpower : (0 : Rat) < 10 ^ (n.exponent.getD 0 - ((n.fraction.getD []).length : Int)) := by
      positivity
    rw [value, abs_mul, abs_mul, hsign, one_mul, Nat.abs_cast, abs_of_pos hpower]
  have habsorbed := absorb_absorb_le hdigits
  rw [hvalue, scientific]
  simp only
  generalize hfirst : absorb 0 n.whole = first at habsorbed ⊢
  obtain ⟨a, left⟩ := first
  simp only at habsorbed ⊢
  generalize absorb a (n.fraction.getD []) = second at habsorbed ⊢
  obtain ⟨b, dropped⟩ := second
  simp only at habsorbed ⊢
  have hcast : (b : Rat) * 10 ^ (left + dropped)
      ≤ 2 * Nat.ofDigitChars 10 (n.whole ++ n.fraction.getD []) 0 := by exact_mod_cast habsorbed
  have hexp : (left : Int) - (((n.fraction.getD []).length : Int) - (dropped : Int))
        + n.exponent.getD 0
      = ((left + dropped : Nat) : Int)
        + (n.exponent.getD 0 - ((n.fraction.getD []).length : Int)) := by
    push_cast
    ring
  rw [hexp, zpow_add₀ hten, zpow_natCast, ← mul_assoc, ← mul_assoc]
  gcongr

/-! ## The product -/

open Floating (decode magnitude mul ofMagnitude ofRat magnitudeValue roundMagnitude)

/-- **A product of two roundings is finite** where the exact product is well below the
overflow. Each factor is at most doubled. -/
theorem magnitude_mul_lt {w : Width} {p q : Rat} (hp : 1 ≤ p) (hq : 1 ≤ q)
    (h : 4 * (p * q) ≤ 2 ^ (w.overflowExponent - 1)) :
    magnitude (mul (ofRat w false p) (ofRat w false q)) < w.infinityMagnitude := by
  have hfactor : ∀ r : Rat, 1 ≤ r → r ≤ 2 ^ (w.overflowExponent - 1) →
      decode (ofRat w false r) = .finite false (magnitudeValue w (roundMagnitude w r)) := by
    intro r hr hle
    rw [Floating.ofRat_of_nonneg (by linarith), Floating.decode_ofMagnitude false
      (Floating.roundMagnitude_lt_infinity w (by linarith) hle), if_neg (by decide)]
  have hpnonneg := Floating.magnitudeValue_nonneg w (roundMagnitude w p)
  have hqnonneg := Floating.magnitudeValue_nonneg w (roundMagnitude w q)
  have hpdouble := Floating.magnitudeValue_roundMagnitude_le w hp
  have hqdouble := Floating.magnitudeValue_roundMagnitude_le w hq
  have hproduct : magnitudeValue w (roundMagnitude w p) * magnitudeValue w (roundMagnitude w q)
      ≤ 2 ^ (w.overflowExponent - 1) := by
    calc magnitudeValue w (roundMagnitude w p) * magnitudeValue w (roundMagnitude w q)
        ≤ 2 * p * (2 * q) := by gcongr
      _ = 4 * (p * q) := by ring
      _ ≤ _ := h
  have hnonneg := mul_nonneg hpnonneg hqnonneg
  have hfinite := Floating.roundMagnitude_lt_infinity w hnonneg hproduct
  rw [mul, hfactor p hp (by nlinarith), hfactor q hq (by nlinarith)]
  show magnitude (ofRat w false _) < _
  rwa [Floating.ofRat_of_nonneg hnonneg,
    Floating.magnitude_ofMagnitude false (hfinite.trans w.infinityMagnitude_lt_signBit)]

/-- The bound below, against the next power of ten and against the overflow. -/
theorem two_mul_bound_lt : (2 : Rat) * 10 ^ 307 < 10 ^ (308 : Int) := by
  have hpow : (10 : Rat) ^ (308 : Int) = 10 * 10 ^ 307 := by
    rw [← pow_succ']
    rfl
  have hpos : (0 : Rat) < 10 ^ 307 := by positivity
  rw [hpow]
  generalize (10 : Rat) ^ 307 = bound at hpos ⊢
  linarith

theorem eight_mul_bound_le :
    (8 : Rat) * 10 ^ 307 ≤ 2 ^ (Width.overflowExponent .w64 - 1) := by
  have hnat : 8 * 10 ^ 307 ≤ 2 ^ 1023 := by decide +kernel
  have hcast : ((8 * 10 ^ 307 : Nat) : Rat) ≤ ((2 ^ 1023 : Nat) : Rat) := Nat.cast_le.mpr hnat
  rw [Nat.cast_mul, Nat.cast_pow, Nat.cast_pow] at hcast
  exact hcast

/-- **Numbers up to this bound are within range**, and so are those of their size below zero. -/
theorem inRange_of_le {cs : List Char} {n : Number} (hspells : SpellsNumber cs n)
    (h : |n.value| ≤ 10 ^ 307) : n.inRange = true := by
  have hdigits : ∀ c ∈ n.whole ++ n.fraction.getD [], c.isDigit = true := by
    obtain ⟨-, hwhole, hfraction, -⟩ := hspells
    refine List.forall_mem_append.mpr ⟨?_, ?_⟩
    · obtain rfl | ⟨-, _, hnumeral⟩ := hwhole
      · exact List.forall_mem_singleton.mpr rfl
      · exact hnumeral.2.1
    · cases hfraction with
      | absent => exact nofun
      | digits hnumeral => exact hnumeral.2.1
  have hbound : (n.scientific.1 : Rat) * 10 ^ n.scientific.2 ≤ 2 * 10 ^ 307 :=
    (scientific_le hdigits).trans (mul_le_mul_of_nonneg_left h (by norm_num))
  rw [inRange]
  generalize n.scientific = scientific at hbound ⊢
  obtain ⟨digits, exponent⟩ := scientific
  simp only at hbound ⊢
  by_cases htrivial : (digits = 0 || exponent < 0) = true
  · rw [if_pos htrivial]
  · rw [if_neg htrivial]
    simp only [Bool.or_eq_true, decide_eq_true_eq, not_or, not_lt] at htrivial
    obtain ⟨hne, hexponent⟩ := htrivial
    have hone : (1 : Rat) ≤ digits := by exact_mod_cast Nat.pos_of_ne_zero hne
    have hpower : (1 : Rat) ≤ 10 ^ exponent := one_le_zpow₀ (by norm_num) hexponent
    have hsmall : ¬ 308 < exponent := by
      intro hlarge
      have hgrows : (10 : Rat) ^ (308 : Int) ≤ 10 ^ exponent :=
        zpow_le_zpow_right₀ (by norm_num) hlarge.le
      have htimes : (10 : Rat) ^ exponent ≤ digits * 10 ^ exponent :=
        le_mul_of_one_le_left (by positivity) hone
      exact absurd ((hgrows.trans htimes).trans hbound) (not_le.mpr two_mul_bound_lt)
    have hmargin := eight_mul_bound_le
    rw [if_neg hsmall, decide_eq_true_iff]
    refine magnitude_mul_lt (w := .w64) (by exact_mod_cast hone) hpower ?_
    rw [Int.cast_natCast]
    generalize (10 : Rat) ^ 307 = bound at hbound hmargin
    linarith

end WasmExec.Json.Number
