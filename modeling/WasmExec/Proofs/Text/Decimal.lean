/-
Signed integers and decimal fractions, as grammars.

The readers of numbers cut a text up from the left: a sign if there is one, the longest row of
digits, a point, an exponent. What a text says is simpler to state from the parts. An integer is
a sign and a numeral. A decimal fraction has digits with or without a point among them, and
perhaps a power of ten behind them, and its number is the sum and product of what the parts say.

The readers accept what is put together from such parts. That they cut where the parts
meet is due to the characters there: no digit is a sign, a point or a letter, so the part that a
reader has taken as long as it can ends where it should.
-/
import WasmExec.Proofs.Text.Numeral
import Mathlib.Data.Rat.Cast.Order
import Mathlib.Tactic

set_option autoImplicit false

namespace WasmExec.Text

/-! ## Signs -/

/-- **A sign**, which may be absent. -/
inductive IsSign : List Char → Bool → Prop where
  | absent : IsSign [] false
  | plus : IsSign ['+'] false
  | minus : IsSign ['-'] true

section

variable {sign cs : List Char} {negative : Bool}

theorem splitSign_append (hsign : IsSign sign negative) (h : IsUnsigned cs) :
    splitSign (sign ++ cs) = (negative, cs) := by
  cases hsign with
  | absent => exact splitSign_of_isUnsigned h
  | plus => rfl
  | minus => rfl

/-- What is cut off in front is a sign. -/
theorem exists_sign (cs : List Char) :
    ∃ sign, IsSign sign (splitSign cs).1 ∧ cs = sign ++ (splitSign cs).2 := by
  unfold splitSign
  split
  · exact ⟨_, .minus, rfl⟩
  · exact ⟨_, .plus, rfl⟩
  · exact ⟨_, .absent, rfl⟩

end

/-! ## Integers -/

/-- **A signed integer**: a sign and a numeral. -/
def IsInteger (cs : List Char) (z : Int) : Prop :=
  ∃ (sign digits : List Char) (negative : Bool) (n : Nat), cs = sign ++ digits
    ∧ IsSign sign negative ∧ IsNumeral digits n ∧ z = if negative then -(n : Int) else n

theorem isNumeral_of_readDigits {cs : List Char} {n : Nat} (h : readDigits? cs = some n) :
    IsNumeral cs n := by
  unfold readDigits? at h
  split_ifs at h with hempty hdigits
  refine ⟨by simpa using hempty, List.all_eq_true.mp hdigits, Option.some.inj h⟩

/-- **Integers are read, and nothing else is.** -/
theorem readInt_eq_some_iff (cs : List Char) (z : Int) : readInt? cs = some z ↔ IsInteger cs z := by
  constructor
  · intro h
    obtain ⟨sign, hsign, hcs⟩ := exists_sign cs
    cases hn : readDigits? (splitSign cs).2 with
    | none => simp [readInt?, hn] at h
    | some n =>
      refine ⟨sign, _, _, n, hcs, hsign, isNumeral_of_readDigits hn, ?_⟩
      simpa [readInt?, hn] using h.symm
  · rintro ⟨sign, digits, negative, n, rfl, hsign, hdigits, rfl⟩
    rw [readInt?, splitSign_append hsign (isUnsigned_of_isNumeral hdigits),
      readDigits_of_isNumeral hdigits]
    rfl

/-- **A number that takes no minus sign**: a numeral, and perhaps a plus sign in front. -/
def IsNatural (cs : List Char) (n : Nat) : Prop :=
  ∃ sign digits : List Char, cs = sign ++ digits ∧ IsSign sign false ∧ IsNumeral digits n

theorem readNat_eq_some_iff (cs : List Char) (n : Nat) : readNat? cs = some n ↔ IsNatural cs n := by
  rw [readNat_eq]
  constructor
  · intro h
    obtain ⟨sign, hsign, hcs⟩ := exists_sign cs
    split_ifs at h with hminus
    rw [Bool.eq_false_iff.mpr hminus] at hsign
    exact ⟨sign, _, hcs, hsign, isNumeral_of_readDigits h⟩
  · rintro ⟨sign, digits, rfl, hsign, hdigits⟩
    rw [splitSign_append hsign (isUnsigned_of_isNumeral hdigits),
      readDigits_of_isNumeral hdigits]
    rfl

/-- **An index is read from each number that fits it**, and from nothing else. -/
theorem readUInt32_eq_some_iff (cs : List Char) (n : UInt32) :
    readUInt32? cs = some n ↔ IsNatural cs n.toNat := by
  have hfits := le_unsigned_greatest (w := .w32) n.toNat_lt
  rw [← readNat_eq_some_iff, readUInt32?, readBits?]
  cases hread : readNat? cs with
  | none => simp
  | some k =>
    simp only [Option.map_eq_some_iff, Option.some.injEq]
    constructor
    · rintro ⟨word, hword, rfl⟩
      split_ifs at hword with hrange
      obtain rfl := Option.some.inj hword
      have hlt : k < 2 ^ 32 := by
        simp only [Signedness.greatest] at hrange
        omega
      exact (Nat.mod_eq_of_lt hlt).symm
    · rintro rfl
      refine ⟨_, if_pos hfits, ?_⟩
      exact UInt32.toBitVec_inj.mp (BitVec.eq_of_toNat_eq (Nat.mod_eq_of_lt n.toNat_lt))

/-- **A word is read from each integer that one of its two readings may be**, as the pattern of
the integer modulo the number of words. -/
theorem readInteger_eq_some_iff {w : Width} (cs : List Char) (b : Word w) :
    readInteger? w cs = some b ↔
      ∃ z, IsInteger cs z ∧ -2 ^ (w.bits - 1) ≤ z ∧ z < 2 ^ w.bits ∧ b = BitVec.ofInt w.bits z := by
  have hleast : Signedness.signed.least w = -2 ^ (w.bits - 1) := by cases w <;> rfl
  have hgreatest : Signedness.unsigned.greatest w = 2 ^ w.bits - 1 := by cases w <;> rfl
  simp only [readInteger?, ← readInt_eq_some_iff, hleast, hgreatest]
  cases hz : readInt? cs with
  | none => simp
  | some z =>
    by_cases hrange : -2 ^ (w.bits - 1) ≤ z ∧ z ≤ 2 ^ w.bits - 1
    · have hlt : z < 2 ^ w.bits := by omega
      simp [hrange, hlt, eq_comm]
    · have hout : ¬ (-2 ^ (w.bits - 1) ≤ z ∧ z < 2 ^ w.bits) := by omega
      simp only [if_neg hrange, Option.some.injEq, exists_eq_left', reduceCtorEq, false_iff]
      rintro ⟨hge, hlt, -⟩
      exact hout ⟨hge, hlt⟩

/-! ## Decimal fractions -/

/-- **Digits with or without a point.** The point may stand first or last, but there is a
digit. -/
inductive IsPlaces : List Char → Rat → Prop where
  | whole {digits : List Char} {n : Nat} : IsNumeral digits n → IsPlaces digits n
  | point {whole fraction : List Char} : whole ++ fraction ≠ [] →
    (∀ c ∈ whole ++ fraction, c.isDigit = true) →
    IsPlaces (whole ++ '.' :: fraction)
      (Nat.ofDigitChars 10 whole 0 + Nat.ofDigitChars 10 fraction 0 / 10 ^ fraction.length)

/-- **A power of ten**, which may be absent. -/
inductive IsExponent : List Char → Int → Prop where
  | absent : IsExponent [] 0
  | present {c : Char} {cs : List Char} {e : Int} : c = 'e' ∨ c = 'E' → IsInteger cs e →
    IsExponent (c :: cs) e

/-- **A decimal fraction**, with its sign and its number. -/
def IsDecimal (cs : List Char) (negative : Bool) (q : Rat) : Prop :=
  ∃ (sign places exponent : List Char) (m : Rat) (e : Int), cs = sign ++ places ++ exponent
    ∧ IsSign sign negative ∧ IsPlaces places m ∧ IsExponent exponent e
    ∧ q = (if negative then -1 else 1) * (m * 10 ^ e)

/-- Digits behind others count as units below their places. -/
theorem ofDigitChars_append_eq (whole fraction : List Char) :
    Nat.ofDigitChars 10 (whole ++ fraction) 0
      = 10 ^ fraction.length * Nat.ofDigitChars 10 whole 0 + Nat.ofDigitChars 10 fraction 0 := by
  rw [Nat.ofDigitChars_append]
  exact Nat.ofDigitChars_eq_ofDigitChars_zero

/-- A point is needed only in front of digits. -/
theorem isPlaces_join {whole fraction : List Char} (hne : whole ≠ [])
    (hdigits : ∀ c ∈ whole ++ fraction, c.isDigit = true) :
    IsPlaces (if fraction.isEmpty then whole else whole ++ '.' :: fraction)
      (Nat.ofDigitChars 10 whole 0 + Nat.ofDigitChars 10 fraction 0 / 10 ^ fraction.length) := by
  cases fraction with
  | nil =>
    rw [List.append_nil] at hdigits
    simpa using IsPlaces.whole ⟨hne, hdigits, rfl⟩
  | cons d fraction => exact .point (by simp) hdigits

theorem IsPlaces.isDecimal {cs : List Char} {m : Rat} (h : IsPlaces cs m) (negative : Bool) :
    IsDecimal (if negative then '-' :: cs else cs) negative ((if negative then -1 else 1) * m) := by
  cases negative with
  | false => exact ⟨[], cs, [], m, 0, by simp, .absent, h, .absent, by simp⟩
  | true => exact ⟨['-'], cs, [], m, 0, by simp, .minus, h, .absent, by simp⟩

theorem IsPlaces.nonneg {cs : List Char} {m : Rat} (h : IsPlaces cs m) : 0 ≤ m := by
  cases h <;> positivity

theorem toLower_of_isDigit {c : Char} (h : c.isDigit = true) : c.toLower = c := by
  simp only [Char.isDigit, Bool.and_eq_true, decide_eq_true_eq] at h
  have hnine : c.val.toNat ≤ 57 := h.2
  unfold Char.toLower
  rw [dif_neg]
  rintro ⟨hupper, -⟩
  have hletter : 65 ≤ c.val.toNat := hupper
  omega

section

variable {exponent : List Char} {e : Int} (h : IsExponent exponent e)
include h

theorem readExponent_of_isExponent : readExponent? exponent = some e := by
  cases h with
  | absent => rfl
  | present hc hcs => rw [readExponent?, if_pos hc, (readInt_eq_some_iff _ _).mpr hcs]

/-- What begins an exponent is neither a digit nor a point. -/
theorem head_of_isExponent : ∀ c ∈ exponent.head?, c.isDigit = false ∧ c ≠ '.' := by
  cases h with
  | absent => nofun
  | present hc hcs =>
    rintro d ⟨⟩
    obtain rfl | rfl := hc <;> decide

theorem splitFraction_of_isExponent : splitFraction exponent = ([], exponent) := by
  unfold splitFraction
  split
  · exact absurd rfl (head_of_isExponent h '.' rfl).2
  · rfl

end

/-- **The parts of a fraction are found again**, and the digits and the power that they are
joined to are its number. -/
theorem readFinite_of_isPlaces {places exponent : List Char} {m : Rat} {e : Int}
    (hplaces : IsPlaces places m) (hexponent : IsExponent exponent e) (negative : Bool) :
    ∃ digits power, readFinite? negative (places ++ exponent) = some (.finite negative digits power)
      ∧ m * 10 ^ e = (digits : Rat) * 10 ^ power := by
  have hread := readExponent_of_isExponent hexponent
  have hhead := head_of_isExponent hexponent
  cases hplaces with
  | @whole digits n hdigits =>
    obtain ⟨hne, hall, hvalue⟩ := hdigits
    obtain ⟨htake, hdrop⟩ := takeWhile_isDigit hall fun c hc => (hhead c hc).1
    have hempty : places.isEmpty = false := by simpa using hne
    refine ⟨n, e, ?_, rfl⟩
    rw [readFinite?, htake, hdrop, splitFraction_of_isExponent hexponent]
    simp [hempty, hread, hvalue]
  | @point whole fraction hne hall =>
    obtain ⟨hwhole, hfraction⟩ := List.forall_mem_append.mp hall
    have hpoint : ∀ c ∈ ('.' :: (fraction ++ exponent)).head?, c.isDigit = false := by
      rintro c ⟨⟩
      decide
    obtain ⟨htake, hdrop⟩ := takeWhile_isDigit hwhole hpoint
    obtain ⟨htake', hdrop'⟩ := takeWhile_isDigit hfraction fun c hc => (hhead c hc).1
    have hempty : (whole.isEmpty && fraction.isEmpty) = false := by
      rw [Bool.eq_false_iff]
      simpa using hne
    refine ⟨Nat.ofDigitChars 10 (whole ++ fraction) 0, e - fraction.length, ?_, ?_⟩
    · rw [List.append_assoc, List.cons_append, readFinite?, htake, hdrop, splitFraction, htake',
        hdrop']
      simp [hempty, hread]
    · rw [ofDigitChars_append_eq, zpow_sub₀ (by norm_num)]
      push_cast
      rw [zpow_natCast]
      field_simp

/-- The first character of a fraction without its sign is a digit or the point. -/
theorem IsPlaces.exists_cons {cs : List Char} {m : Rat} (h : IsPlaces cs m) :
    ∃ c rest, cs = c :: rest ∧ (c.isDigit = true ∨ c = '.') := by
  cases h with
  | whole hdigits =>
    obtain ⟨c, rest, rfl⟩ := List.exists_cons_of_ne_nil hdigits.1
    exact ⟨c, rest, rfl, .inl (hdigits.2.1 c List.mem_cons_self)⟩
  | @point whole fraction hne hall =>
    cases whole with
    | nil => exact ⟨'.', fraction, rfl, .inr rfl⟩
    | cons c whole => exact ⟨c, _, rfl, .inl (hall c (by simp))⟩

/-- **A decimal fraction is read as its number.** -/
theorem readDecimal_of_isDecimal {cs : List Char} {negative : Bool} {q : Rat}
    (h : IsDecimal cs negative q) :
    ∃ digits power, readDecimal? cs = some (.finite negative digits power)
      ∧ q = (if negative then -1 else 1) * ((digits : Rat) * 10 ^ power) := by
  obtain ⟨sign, places, exponent, m, e, rfl, hsign, hplaces, hexponent, rfl⟩ := h
  obtain ⟨digits, power, hread, hvalue⟩ := readFinite_of_isPlaces hplaces hexponent negative
  refine ⟨digits, power, ?_, by rw [hvalue]⟩
  obtain ⟨c, rest, rfl, hc⟩ := hplaces.exists_cons
  -- so there is no second sign, and the text is none of the words
  have hlower : c.toLower = c := by
    obtain hdigit | rfl := hc
    · exact toLower_of_isDigit hdigit
    · decide
  have hletter : c ≠ 'n' ∧ c ≠ 'i' := by
    constructor
    · rintro rfl
      exact absurd hc (by decide)
    · rintro rfl
      exact absurd hc (by decide)
  have hunsigned : IsUnsigned (c :: rest ++ exponent) := by
    obtain hdigit | rfl := hc
    · exact isUnsigned_of_isDigit hdigit _
    · rintro d ⟨⟩
      decide
  rw [List.append_assoc, readDecimal?, splitSign_append hsign hunsigned]
  simp only [List.cons_append, List.map_cons, hlower, List.cons.injEq, hletter.1, hletter.2,
    false_and, or_self, if_false]
  exact hread

end WasmExec.Text
