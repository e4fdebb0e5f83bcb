/-
Decimal fractions, read and written.

A fraction is read as its exact number and rounded once. No power of ten is formed that can be
avoided. A great power is known to be beyond every finite number and a small one to be below half
of the least, and the shortcuts for them answer what rounding would have (`ofDecimal_eq`). So the
word that a fraction is read as is the rounding of its number, whatever the text is
(`read_of_isDecimal`).

A number is written as digits and a power of ten, with all its places. Zeros are put
in front of the digits or behind them until the point falls where it should, and zeros behind the
last place are cut off again, so digits and power are not found again when the text is read, only
their product is. That product rounds to the number that was written, because the numeral is a
shortest one that does (`isShortest_shortest`).
-/
import WasmExec.Proofs.Floating.Shortest
import WasmExec.Proofs.Text.Decimal

set_option autoImplicit false

namespace WasmExec

namespace Floating

open Text (IsDecimal IsPlaces)

variable {w : Width}

/-! ## Reading fractions -/

/-- What is less than half the least positive number rounds to zero. -/
theorem roundMagnitude_of_lt (w : Width) {q : Rat} (hq : 0 ≤ q)
    (hlt : q < 2 ^ (w.leastExponent - 1)) : roundMagnitude w q = 0 := by
  have hnearest := isNearestMagnitude_roundMagnitude w hq
  by_contra hne
  have hbetween := (strictMono_magnitudeValue w) (Nat.pos_of_ne_zero hne)
  have hmiddle := (abs_sub_le_iff_middle' hbetween).mp (hnearest.le (Nat.zero_le _))
  -- the magnitude is at least the least positive one, and half of that was not reached
  have hleast : magnitudeValue w 1 = 2 ^ w.leastExponent := by
    have hbit := w.implicitBit_pos
    have hvalue := magnitudeValue_grid w (j := 0) (n := 1) (by omega) (.inl rfl)
    simpa using hvalue
  have hfirst := (strictMono_magnitudeValue w).monotone (Nat.one_le_iff_ne_zero.mpr hne)
  rw [zpow_sub_one₀ (by norm_num)] at hlt
  rw [magnitudeValue_zero] at hmiddle
  rw [hleast] at hfirst
  linarith

/-- Beyond the ceiling for powers of ten every numeral but zero overflows. -/
theorem overflowThreshold_le_of_exponentCeiling {digits : Nat} {exponent : Int}
    (hdigits : digits ≠ 0) (h : exponentCeiling < exponent) :
    w.overflowThreshold ≤ (digits : Rat) * 10 ^ exponent := by
  have hone : (1 : Rat) ≤ digits := by exact_mod_cast Nat.one_le_iff_ne_zero.mpr hdigits
  have hoverflow : w.overflowExponent ≤ 3 * 400 := by cases w <;> decide
  calc w.overflowThreshold ≤ 2 ^ w.overflowExponent := overflowThreshold_le w
    _ ≤ 2 ^ (3 * 400 : Int) := zpow_le_zpow_right₀ (by norm_num) hoverflow
    _ = 8 ^ (400 : Int) := by
      rw [zpow_mul]
      norm_num
    _ ≤ 10 ^ (400 : Int) := zpow_le_zpow_left₀ (by norm_num) (by norm_num) (by norm_num)
    _ ≤ 10 ^ exponent := zpow_le_zpow_right₀ (by norm_num) h.le
    _ ≤ digits * 10 ^ exponent := le_mul_of_one_le_left (by positivity) hone

/-- Far enough below the binary digits of a numeral, its power of ten makes it vanish. -/
theorem lt_of_log2_lt {digits : Nat} {exponent : Int}
    (h : (digits.log2 : Int) + 1 + 3 * exponent < -1100) :
    (digits : Rat) * 10 ^ exponent < 2 ^ (w.leastExponent - 1) := by
  have hten : (10 : Rat) ^ exponent ≤ 2 ^ (3 * exponent) := by
    obtain ⟨n, rfl⟩ : ∃ n : Nat, exponent = -(n : Int) := ⟨(-exponent).toNat, by omega⟩
    rw [zpow_mul, zpow_neg, zpow_neg, zpow_natCast, zpow_natCast]
    gcongr
    norm_num
  have htwo : (digits : Rat) < 2 ^ ((digits.log2 : Int) + 1) := by
    exact_mod_cast Nat.lt_log2_self
  calc (digits : Rat) * 10 ^ exponent
      ≤ digits * 2 ^ (3 * exponent) := by gcongr
    _ < 2 ^ ((digits.log2 : Int) + 1) * 2 ^ (3 * exponent) := by gcongr
    _ = 2 ^ ((digits.log2 : Int) + 1 + 3 * exponent) := (zpow_add₀ (by norm_num) _ _).symm
    _ ≤ 2 ^ (w.leastExponent - 1) := by
      have hleast : -1100 ≤ w.leastExponent - 1 := by cases w <;> decide
      exact zpow_le_zpow_right₀ (by norm_num) (by omega)

/-- **A numeral is rounded once.** Both shortcuts are where rounding gives the same. -/
theorem ofDecimal_eq (w : Width) (negative : Bool) (digits : Nat) (exponent : Int) :
    ofDecimal w negative digits exponent
      = ofMagnitude w negative (roundMagnitude w ((digits : Rat) * 10 ^ exponent)) := by
  rw [ofDecimal]
  split_ifs with hdigits hgreat hsmall
  · rw [hdigits, Nat.cast_zero, zero_mul, roundMagnitude, if_pos rfl]
  · have hoverflow := overflowThreshold_le_of_exponentCeiling (w := w) hdigits hgreat
    rw [roundMagnitude_of_overflow (by positivity) hoverflow, infinity]
  · rw [roundMagnitude_of_lt w (by positivity) (lt_of_log2_lt hsmall)]
  · rfl

/-- The sign in front of a fraction is one that its number may have. -/
theorem agreesInSign_of_isDecimal {cs : List Char} {negative : Bool} {q : Rat}
    (h : IsDecimal cs negative q) : AgreesInSign negative q := by
  obtain ⟨-, places, -, m, e, -, -, hplaces, -, rfl⟩ := h
  have hnonneg := hplaces.nonneg
  have hpower : 0 ≤ m * 10 ^ e := by positivity
  cases negative with
  | false =>
    show 0 ≤ 1 * (m * 10 ^ e)
    linarith
  | true =>
    show -1 * (m * 10 ^ e) ≤ 0
    linarith

/-- **A fraction is read as the rounding of its number.** -/
theorem read_of_isDecimal {cs : List Char} {negative : Bool} {q : Rat}
    (h : IsDecimal cs negative q) : read? w cs = some (ofRat w negative q) := by
  obtain ⟨digits, power, hread, hvalue⟩ := Text.readDecimal_of_isDecimal h
  have hsize : |q| = (digits : Rat) * 10 ^ power := by
    have hnonneg : (0 : Rat) ≤ digits * 10 ^ power := by positivity
    rw [hvalue]
    cases negative <;> simp [abs_of_nonneg hnonneg]
  rw [read?, hread, Option.map_some, ofLiteral, ofDecimal_eq,
    ofRat_eq_ofMagnitude (agreesInSign_of_isDecimal h), hsize]

/-! ## Writing places -/

/-- What is cut off are zeros. -/
theorem dropTrailingZeros_append (cs : List Char) :
    ∃ k, cs = dropTrailingZeros cs ++ List.replicate k '0' := by
  have hzeros : ∀ c ∈ cs.reverse.takeWhile (· = '0'), c = '0' := by
    intro c hc
    have hall : (cs.reverse.takeWhile (· = '0')).all (· = '0') = true := List.all_takeWhile
    simpa using List.all_eq_true.mp hall c hc
  refine ⟨(cs.reverse.takeWhile (· = '0')).length, ?_⟩
  rw [dropTrailingZeros, ← List.reverse_replicate, ← List.eq_replicate_of_mem hzeros,
    ← List.reverse_append, List.takeWhile_append_dropWhile, List.reverse_reverse]

/-- A row of digits with the point so many places from its end, without the zeros there. -/
theorem isPlaces_cut {padded : List Char} (hdigits : ∀ c ∈ padded, c.isDigit = true)
    {places : Nat} (hlength : places < padded.length) :
    IsPlaces
      (let whole := padded.take (padded.length - places)
      let fraction := dropTrailingZeros (padded.drop (padded.length - places))
      if fraction.isEmpty then whole else whole ++ '.' :: fraction)
      ((Nat.ofDigitChars 10 padded 0 : Rat) * 10 ^ (-(places : Int))) := by
  obtain ⟨k, hcut⟩ := dropTrailingZeros_append (padded.drop (padded.length - places))
  simp only
  generalize dropTrailingZeros (padded.drop (padded.length - places)) = fraction at hcut ⊢
  generalize hwhole : padded.take (padded.length - places) = whole
  have hall : whole ++ fraction ++ List.replicate k '0' = padded := by
    rw [List.append_assoc, ← hcut, ← hwhole, List.take_append_drop]
  have hplaces : fraction.length + k = places := by
    have hlen := congrArg List.length hcut
    rw [List.length_drop, List.length_append, List.length_replicate] at hlen
    omega
  have hne : whole ≠ [] := by
    rw [← hwhole]
    exact List.ne_nil_of_length_pos (by rw [List.length_take]; omega)
  have hkept : ∀ c ∈ whole ++ fraction, c.isDigit = true := by
    intro c hc
    exact hdigits c (by rw [← hall]; exact List.mem_append_left _ hc)
  have hvalue : (Nat.ofDigitChars 10 padded 0 : Rat) * 10 ^ (-(places : Int))
      = Nat.ofDigitChars 10 whole 0
        + Nat.ofDigitChars 10 fraction 0 / 10 ^ fraction.length := by
    rw [← hall, Nat.ofDigitChars_append, Nat.ofDigitChars_replicate_zero, ← hplaces,
      Text.ofDigitChars_append_eq]
    push_cast
    rw [neg_add, zpow_add₀ (by norm_num), zpow_neg, zpow_neg, zpow_natCast, zpow_natCast]
    field_simp
  rw [hvalue]
  exact Text.isPlaces_join hne hkept

/-- **Places written out** are a fraction for the number. -/
theorem isPlaces_positional (digits : Nat) (exponent : Int) :
    IsPlaces (positional digits exponent) ((digits : Rat) * 10 ^ exponent) := by
  have hprinted : ∀ c ∈ Nat.toDigits 10 digits, c.isDigit = true := fun c hc =>
    Nat.isDigit_of_mem_toDigits (by decide) (by decide) hc
  have hvalue : Nat.ofDigitChars 10 (Nat.toDigits 10 digits) 0 = digits :=
    Nat.ofDigitChars_toDigits (by decide) (by decide)
  have hzero : ∀ {n : Nat}, ∀ c ∈ List.replicate n '0', c.isDigit = true := by
    intro n c hc
    rw [List.eq_of_mem_replicate hc]
    decide
  rw [positional]
  by_cases hexp : 0 ≤ exponent
  · obtain ⟨n, rfl⟩ := Int.eq_ofNat_of_zero_le hexp
    have hnumber : (digits : Rat) * 10 ^ (n : Int) = ((10 ^ n * digits : Nat) : Rat) := by
      push_cast
      rw [zpow_natCast, mul_comm]
    rw [if_pos hexp, hnumber]
    refine .whole ⟨by simp [Nat.toDigits_ne_nil], List.forall_mem_append.mpr ⟨hprinted, hzero⟩, ?_⟩
    rw [Nat.ofDigitChars_append, hvalue, Nat.ofDigitChars_replicate_zero]
    rfl
  · obtain ⟨places, rfl⟩ : ∃ places : Nat, exponent = -(places : Int) :=
      ⟨(-exponent).toNat, by omega⟩
    rw [if_neg hexp]
    simp only [neg_neg, Int.toNat_natCast]
    generalize hpadded : List.replicate (places + 1 - (Nat.toDigits 10 digits).length) '0'
      ++ Nat.toDigits 10 digits = padded
    -- with the zeros in front there is a digit before the point
    have hlength : places < padded.length := by
      rw [← hpadded, List.length_append, List.length_replicate]
      omega
    have hdigits : ∀ c ∈ padded, c.isDigit = true := by
      rw [← hpadded]
      exact List.forall_mem_append.mpr ⟨hzero, hprinted⟩
    have hnumber : Nat.ofDigitChars 10 padded 0 = digits := by
      rw [← hpadded, Nat.ofDigitChars_append, Nat.ofDigitChars_replicate_zero, Nat.mul_zero, hvalue]
    rw [← hnumber]
    exact isPlaces_cut hdigits hlength

/-! ## Round trip -/

/-- **The text of a word reads back**, bit for bit if it is not a NaN. -/
theorem read_render (x : Word w) :
    read? w (render x) = some (if isNaN x then canonicalNaN w false else x) := by
  rw [read?, render]
  simp only
  by_cases hnan : w.infinityMagnitude < magnitude x
  · rw [if_pos hnan, isNaN, decide_eq_true hnan, if_pos rfl]
    rfl
  · have hx : isNaN x = false := decide_eq_false hnan
    rw [if_neg hnan, hx]
    simp only [Bool.false_eq_true, if_false]
    by_cases hinf : magnitude x = w.infinityMagnitude
    · have hread :
          Text.readDecimal? (if isNegative x then ['-', 'i', 'n', 'f'] else ['i', 'n', 'f'])
            = some (.infinite (isNegative x)) := by
        cases isNegative x <;> decide
      rw [if_pos hinf, hread, Option.map_some, ofLiteral, infinity, ← hinf, ofMagnitude_self]
    · -- a zero is written as its single digit, and all else as its shortest numeral
      obtain ⟨q, hbody, hround⟩ : ∃ q : Rat,
          IsPlaces (if magnitude x = 0 then ['0']
            else positional (shortest w (magnitude x)).1 (shortest w (magnitude x)).2) q
          ∧ roundMagnitude w q = magnitude x := by
        by_cases hzero : magnitude x = 0
        · refine ⟨(0 : Nat), ?_, ?_⟩
          · rw [if_pos hzero]
            exact .whole ⟨by decide, List.forall_mem_singleton.mpr rfl, rfl⟩
          · rw [hzero, Nat.cast_zero, roundMagnitude, if_pos rfl]
        · rw [if_neg hzero]
          have hshortest := isShortest_shortest (Nat.pos_of_ne_zero hzero) (not_lt.mp hnan)
          exact ⟨_, isPlaces_positional _ _, hshortest.1.readsBack⟩
      have hdecimal := hbody.isDecimal (isNegative x)
      have hread := read_of_isDecimal (w := w) hdecimal
      have hnonneg := hbody.nonneg
      have hsize : |(if isNegative x then -1 else 1) * q| = q := by
        cases isNegative x <;> simp [abs_of_nonneg hnonneg]
      rw [ofRat_eq_ofMagnitude (agreesInSign_of_isDecimal hdecimal), hsize, hround,
        ofMagnitude_self] at hread
      rw [if_neg hinf]
      exact hread

end Floating

end WasmExec
