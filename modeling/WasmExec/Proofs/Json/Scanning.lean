/-
The scanner reads back every row of lexemes.

Two lexemes need no blank between them, so the scanner has to find the end of each by
itself. For most of them the end is plain from the front, and a string ends at its quote.
Only a number goes on as long as it can, and it is read back if what follows could not
belong to it (`CannotExtend`). Any lexeme but another number will do for that, and so will a
blank; hence the one condition on a row is that no two numbers stand side by side
(`Apart`).

The scanner works in two passes over a string: it cuts the content into pieces, and joins
these. The pieces are not determined by the content, so the statement about the first pass
only says that some pieces come of it, and that they join to the content
(`scanString_of_spells`).
-/
import WasmExec.Proofs.Json.Grammar
import Mathlib.Data.List.Chain

set_option autoImplicit false

namespace WasmExec.Json

open Text (IsNumeral NoDigit)

/-! ## Runs of digits -/

theorem scanDigits_append {ds rest : List Char} {n : Nat} (h : IsNumeral ds n)
    (hrest : NoDigit rest) : scanDigits (ds ++ rest) = some (ds, rest) := by
  obtain ⟨htake, hdrop⟩ := Text.takeWhile_isDigit h.2.1 hrest
  have hempty : ds.isEmpty = false := by simpa using h.1
  rw [scanDigits]
  simp only [htake, hdrop, hempty, Bool.false_eq_true, if_false]

/-- The digits before the point. A zero in front is all there is of them. -/
theorem scanWhole_append {whole rest : List Char} (h : IsWhole whole) (hrest : NoDigit rest) :
    scanWhole (whole ++ rest) = some (whole, rest) := by
  rcases h with rfl | ⟨hzero, n, hdigits⟩
  · rfl
  · obtain ⟨htake, hdrop⟩ := Text.takeWhile_isDigit hdigits.2.1 hrest
    rcases whole with _ | ⟨c, cs⟩
    · exact absurd rfl hdigits.1
    · have hc : c.isDigit = true := hdigits.2.1 c List.mem_cons_self
      have hne : c ≠ '0' := by simpa using hzero
      simp only [List.cons_append, List.takeWhile_cons, List.dropWhile_cons, hc, if_true,
        List.cons.injEq, true_and] at htake hdrop
      rw [List.cons_append, scanWhole]
      · rw [if_pos hc, htake, hdrop]
      · exact hne

/-! ## Numbers -/

/-- **A text that a number in front of it cannot take anything from.** -/
def CannotExtend (cs : List Char) : Prop :=
  ∀ c ∈ cs.head?, c.isDigit = false ∧ c ≠ '.' ∧ c ≠ 'e' ∧ c ≠ 'E'

section

variable {rest : List Char}

theorem CannotExtend.noDigit (h : CannotExtend rest) : NoDigit rest := fun c hc => (h c hc).1

theorem scanExponentDigits_append {ds : List Char} {n : Nat} (h : IsNumeral ds n)
    (hrest : NoDigit rest) :
    scanExponentDigits (ds ++ rest) = some (some (n : Int), rest)
      ∧ scanExponentDigits ('+' :: (ds ++ rest)) = some (some (n : Int), rest)
      ∧ scanExponentDigits ('-' :: (ds ++ rest)) = some (some (-(n : Int)), rest) := by
  have hscan := scanDigits_append h hrest
  have hvalue := h.2.2
  refine ⟨?_, ?_, ?_⟩
  · -- the first digit is no sign
    rcases ds with _ | ⟨c, cs⟩
    · exact absurd rfl h.1
    · have hc : c.isDigit = true := h.2.1 c List.mem_cons_self
      have hminus : c ≠ '-' := by rintro rfl; simp at hc
      have hplus : c ≠ '+' := by rintro rfl; simp at hc
      rw [List.cons_append] at hscan ⊢
      rw [scanExponentDigits, hscan]
      · simp [hvalue]
      · exact fun cs' hcs => hminus (List.cons.inj hcs).1
      · exact fun cs' hcs => hplus (List.cons.inj hcs).1
  · simp [scanExponentDigits, hscan, hvalue]
  · simp [scanExponentDigits, hscan, hvalue]

theorem scanExponent_append {e : List Char} {exponent : Option Int} (h : SpellsExponent e exponent)
    (hrest : CannotExtend rest) : scanExponent (e ++ rest) = some (exponent, rest) := by
  rcases h with _ | ⟨he, hn⟩ | ⟨he, hn⟩ | ⟨he, hn⟩
  · rcases rest with _ | ⟨c, cs⟩
    · rfl
    · obtain ⟨-, -, hlower, hupper⟩ := hrest c (by simp)
      rw [List.nil_append, scanExponent]
      · exact fun cs' hcs => hlower (List.cons.inj hcs).1
      · exact fun cs' hcs => hupper (List.cons.inj hcs).1
  · obtain ⟨hscan, -, -⟩ := scanExponentDigits_append hn hrest.noDigit
    rcases he with rfl | rfl
    · exact hscan
    · exact hscan
  · obtain ⟨-, hscan, -⟩ := scanExponentDigits_append hn hrest.noDigit
    rcases he with rfl | rfl
    · exact hscan
    · exact hscan
  · obtain ⟨-, -, hscan⟩ := scanExponentDigits_append hn hrest.noDigit
    rcases he with rfl | rfl
    · exact hscan
    · exact hscan

/-- An exponent begins with its letter, so it does not go on a run of digits. -/
theorem noDigit_exponent {e : List Char} {exponent : Option Int} (h : SpellsExponent e exponent)
    (hrest : CannotExtend rest) : NoDigit (e ++ rest) := by
  rcases h with _ | ⟨he, -⟩ | ⟨he, -⟩ | ⟨he, -⟩
  · exact hrest.noDigit
  all_goals
    intro c hc
    obtain rfl : _ = c := by simpa using hc
    rcases he with rfl | rfl <;> decide

theorem scanFraction_append {f e : List Char} {fraction : Option (List Char)}
    {exponent : Option Int} (hf : SpellsFraction f fraction) (he : SpellsExponent e exponent)
    (hrest : CannotExtend rest) :
    scanFraction (f ++ (e ++ rest)) = some (fraction, e ++ rest) := by
  rcases hf with _ | hdigits
  · -- neither an exponent nor what follows the number begins with a point
    have hpoint : ∀ cs, e ++ rest ≠ '.' :: cs := by
      intro cs hcs
      rcases he with _ | ⟨he, -⟩ | ⟨he, -⟩ | ⟨he, -⟩
      · rw [List.nil_append] at hcs
        exact (hrest '.' (by rw [hcs]; rfl)).2.1 rfl
      all_goals
        obtain ⟨rfl, -⟩ := List.cons.inj hcs
        simp at he
    rw [List.nil_append]
    unfold scanFraction
    split
    · next cs hcs => exact absurd hcs (hpoint cs)
    · rfl
  · rw [List.cons_append, scanFraction, scanDigits_append hdigits (noDigit_exponent he hrest)]
    rfl

theorem noDigit_fraction {f e : List Char} {fraction : Option (List Char)}
    {exponent : Option Int} (hf : SpellsFraction f fraction) (he : SpellsExponent e exponent)
    (hrest : CannotExtend rest) : NoDigit (f ++ (e ++ rest)) := by
  rcases hf with _ | hdigits
  · rw [List.nil_append]
    exact noDigit_exponent he hrest
  · intro c hc
    obtain rfl : '.' = c := by simpa using hc
    decide

/-- A whole part begins with a digit. -/
theorem IsWhole.exists_digit {whole : List Char} (h : IsWhole whole) :
    ∃ c cs, whole = c :: cs ∧ c.isDigit = true := by
  rcases h with rfl | ⟨-, n, hne, hdigits, -⟩
  · exact ⟨'0', [], rfl, by decide⟩
  · rcases whole with _ | ⟨c, cs⟩
    · exact absurd rfl hne
    · exact ⟨c, cs, rfl, hdigits c List.mem_cons_self⟩

/-- A digit begins no other lexeme, so it is left to the reader of numbers. -/
theorem scanToken_digit {c : Char} {cs : List Char} (hc : c.isDigit = true) :
    scanToken (c :: cs) = (scanNumber false (c :: cs)).map fun (n, rest) => (.number n, rest) := by
  unfold scanToken
  split
  -- the last case is the one of numbers
  case h_12 => rfl
  all_goals
    next hcs =>
      obtain ⟨rfl, -⟩ := List.cons.inj hcs
      exact absurd hc (by decide)

/-- **A number is read up to its end.** -/
theorem scanToken_number {cs : List Char} {n : Number} (h : SpellsNumber cs n)
    (hrest : CannotExtend rest) : scanToken (cs ++ rest) = some (.number n, rest) := by
  obtain ⟨hsign, hwhole, hf, he⟩ := h
  rename_i negative sign whole f e fraction exponent
  have hscan : scanNumber negative (whole ++ (f ++ (e ++ rest)))
      = some (⟨negative, whole, fraction, exponent⟩, rest) := by
    rw [scanNumber, scanWhole_append hwhole (noDigit_fraction hf he hrest)]
    simp [scanFraction_append hf he hrest, scanExponent_append he hrest]
  have htext : sign ++ (whole ++ (f ++ e)) ++ rest = sign ++ (whole ++ (f ++ (e ++ rest))) := by
    simp only [List.append_assoc]
  rw [htext, hsign]
  by_cases hnegative : negative = true
  · rw [hnegative] at hscan ⊢
    have hminus : scanToken ('-' :: (whole ++ (f ++ (e ++ rest))))
        = (scanNumber true (whole ++ (f ++ (e ++ rest)))).map
          fun (n, rest) => (.number n, rest) := rfl
    rw [if_pos rfl, List.singleton_append, hminus, hscan]
    rfl
  · rw [Bool.not_eq_true] at hnegative
    rw [hnegative] at hscan ⊢
    obtain ⟨c, cs, rfl, hc⟩ := hwhole.exists_digit
    rw [if_neg Bool.false_ne_true, List.nil_append]
    rw [List.cons_append] at hscan ⊢
    rw [scanToken_digit hc, hscan]
    rfl

end

/-! ## Strings -/

theorem unit_of_spells {digits : List Char} {n : Nat} (h : SpellsUnit digits n) :
    ∃ a b c d, digits = [a, b, c, d] ∧ unit? a b c d = some (.unit n) := by
  obtain ⟨ha, hb, hc, hd⟩ := h
  rename_i a b c d p q r s
  refine ⟨a, b, c, d, rfl, ?_⟩
  have hvalue : ((p * 16 + q) * 16 + r) * 16 + s
      = p * 0x1000 + q * 0x100 + r * 0x10 + s := by ring
  simp [unit?, ha, hb, hc, hd, hvalue]

/-- **A unit that is no surrogate** joins nothing. -/
theorem joinPieces_unit {n : Nat} (h : n < 0xd800 ∨ 0xe000 ≤ n) (pieces : List Piece) :
    joinPieces (.unit n :: pieces) = (joinPieces pieces).map (Char.ofNat n :: ·) := by
  have hnone : ¬ (0xd800 ≤ n ∧ n < 0xe000) := by omega
  rcases pieces with _ | ⟨c | low, pieces⟩
  · simp [joinPieces, hnone]
  · simp [joinPieces, hnone]
  · have hpair : ¬ (0xd800 ≤ n ∧ n < 0xdc00 ∧ 0xdc00 ≤ low ∧ low < 0xe000) := by omega
    rw [joinPieces, if_neg hpair, if_neg hnone]

/-- A character is not the number of a surrogate. -/
theorem toNat_not_surrogate (c : Char) : c.toNat < 0xd800 ∨ 0xe000 ≤ c.toNat := by
  rcases c.valid with hlow | ⟨hhigh, -⟩
  · exact .inl hlow
  · exact .inr hhigh

theorem escape_of_mem {e c : Char} (h : (e, c) ∈ letterEscapes) :
    e ≠ 'u' ∧ escape? e = some c := by
  simp only [letterEscapes, List.mem_cons, Prod.mk.injEq, List.not_mem_nil, or_false] at h
  rcases h with ⟨rfl, rfl⟩ | ⟨rfl, rfl⟩ | ⟨rfl, rfl⟩ | ⟨rfl, rfl⟩ | ⟨rfl, rfl⟩ | ⟨rfl, rfl⟩
    | ⟨rfl, rfl⟩ | ⟨rfl, rfl⟩ <;> decide

/-- **The content of a string is cut into pieces that join to it**, and the scanner stops
behind the closing quote. -/
theorem scanString_of_spells {cs s : List Char} (h : SpellsContent cs s) (rest : List Char) :
    ∃ pieces, scanString (cs ++ '"' :: rest) = some (pieces, rest)
      ∧ joinPieces pieces = some s := by
  induction h with
  | nil => exact ⟨[], rfl, rfl⟩
  | @plain c cs s hquote hslash hcontrol hcs ih =>
    obtain ⟨pieces, hscan, hjoin⟩ := ih
    have hnot : ¬ c.toNat < 0x20 := by omega
    refine ⟨.char c :: pieces, ?_, by rw [joinPieces, hjoin]; rfl⟩
    rw [List.cons_append, scanString]
    · simp [hnot, hscan]
    · exact hquote
    · intro a b c' d cs' hc
      exact absurd hc hslash
    · intro c' cs' hc
      exact absurd hc hslash
  | @letter e c cs s he hcs ih =>
    obtain ⟨pieces, hscan, hjoin⟩ := ih
    obtain ⟨hnotUnit, hescape⟩ := escape_of_mem he
    refine ⟨.char c :: pieces, ?_, by rw [joinPieces, hjoin]; rfl⟩
    rw [List.cons_append, List.cons_append, scanString]
    · simp [hescape, hscan]
    · intro a b c' d cs' hu
      exact absurd hu hnotUnit
  | @unit digits cs s c hdigits hcs ih =>
    obtain ⟨pieces, hscan, hjoin⟩ := ih
    obtain ⟨p, q, r, t, rfl, hunit⟩ := unit_of_spells hdigits
    refine ⟨.unit c.toNat :: pieces, ?_, ?_⟩
    · simp [scanString, hunit, hscan]
    · rw [joinPieces_unit (toNat_not_surrogate c), hjoin, Char.ofNat_toNat]
      rfl
  | @pair upper lower cs s high low c hupper hlower hhigh hhigh' hlow hlow' hc hcs ih =>
    obtain ⟨pieces, hscan, hjoin⟩ := ih
    obtain ⟨p, q, r, t, rfl, hunit⟩ := unit_of_spells hupper
    obtain ⟨p', q', r', t', rfl, hunit'⟩ := unit_of_spells hlower
    refine ⟨.unit high :: .unit low :: pieces, ?_, ?_⟩
    · simp [scanString, hunit, hunit', hscan]
    · rw [joinPieces, if_pos ⟨hhigh, hhigh', hlow, hlow'⟩, hjoin, ← hc, Char.ofNat_toNat]
      rfl

/-! ## Tokens -/

/-- Whether a token is a number. -/
def Token.isNumber : Token → Bool
  | .number _ => true
  | _ => false

/-- **A lexeme is read as its token**, whatever follows it, unless it is a number and could
go on. -/
theorem scanToken_append {lexeme rest : List Char} {token : Token}
    (h : SpellsToken lexeme token) (hrest : token.isNumber = true → CannotExtend rest) :
    scanToken (lexeme ++ rest) = some (token, rest) := by
  rcases h with _ | _ | _ | _ | _ | _ | _ | _ | _ | hnumber | hcontent
  case number => exact scanToken_number hnumber (hrest rfl)
  case string =>
    obtain ⟨pieces, hscan, hjoin⟩ := scanString_of_spells hcontent rest
    rw [List.cons_append, List.append_assoc, List.singleton_append, scanToken, hscan]
    simp [hjoin]
  -- the others are fixed texts
  all_goals rfl

/-- The first character of a lexeme is no blank. A lexeme that is no number begins with a
character that no number could take. -/
theorem SpellsToken.exists_cons {lexeme : List Char} {token : Token}
    (h : SpellsToken lexeme token) :
    ∃ c cs, lexeme = c :: cs ∧ isBlank c = false
      ∧ (token.isNumber = false → c.isDigit = false ∧ c ≠ '.' ∧ c ≠ 'e' ∧ c ≠ 'E') := by
  rcases h with _ | _ | _ | _ | _ | _ | _ | _ | _ | hnumber | hcontent
  case number =>
    obtain ⟨hsign, hwhole, -, -⟩ := hnumber
    rename_i negative sign whole f e fraction exponent
    obtain ⟨c, cs, rfl, hc⟩ := hwhole.exists_digit
    by_cases hnegative : negative = true
    · rw [hsign, if_pos hnegative]
      exact ⟨'-', _, rfl, by decide, by simp [Token.isNumber]⟩
    · have hblank : isBlank c = false := by
        rw [Bool.eq_false_iff]
        intro hblank
        simp only [isBlank, Bool.or_eq_true, decide_eq_true_eq] at hblank
        rcases hblank with ((rfl | rfl) | rfl) | rfl <;> exact absurd hc (by decide)
      rw [hsign, if_neg hnegative]
      exact ⟨c, _, rfl, hblank, by simp [Token.isNumber]⟩
  all_goals exact ⟨_, _, rfl, by decide, fun _ => by decide⟩

/-! ## Rows -/

/-- **A row in which no two numbers stand side by side.** -/
def Apart (tokens : List Token) : Prop :=
  tokens.IsChain fun a b => ¬ (a.isNumber = true ∧ b.isNumber = true)

theorem isBlank_of_areBlanks {blanks : List Char} (h : AreBlanks blanks) :
    ∀ c ∈ blanks, isBlank c = true := by
  intro c hc
  rcases h c hc with rfl | rfl | rfl | rfl <;> decide

/-- A row that does not begin with a number leaves a number in front of it alone. -/
theorem SpellsRow.cannotExtend {cs : List Char} {tokens : List Token} (h : SpellsRow cs tokens)
    (hfirst : ∀ t ∈ tokens.head?, t.isNumber = false) : CannotExtend cs := by
  have hblank : ∀ c, isBlank c = true → c.isDigit = false ∧ c ≠ '.' ∧ c ≠ 'e' ∧ c ≠ 'E' := by
    intro c hc
    simp only [isBlank, Bool.or_eq_true, decide_eq_true_eq] at hc
    rcases hc with ((rfl | rfl) | rfl) | rfl <;> decide
  intro c hc
  rcases h with hblanks | ⟨hblanks, htoken, -⟩
  · exact hblank c (isBlank_of_areBlanks hblanks c (List.mem_of_mem_head? hc))
  · rename_i blanks lexeme rest token tokens
    rcases blanks with _ | ⟨b, blanks⟩
    · obtain ⟨c', cs', rfl, -, hc'⟩ := htoken.exists_cons
      obtain rfl : c' = c := by simpa using hc
      exact hc' (hfirst token rfl)
    · obtain rfl : b = c := by simpa using hc
      exact hblank b (isBlank_of_areBlanks hblanks b List.mem_cons_self)

/-- Blanks are passed over, one step for each. -/
theorem tokensWithin_blanks {blanks : List Char} (h : AreBlanks blanks) (steps : Nat)
    (rest : List Char) (done : List Token) :
    tokensWithin (blanks.length + steps) (blanks ++ rest) done = tokensWithin steps rest done := by
  induction blanks with
  | nil => rw [List.length_nil, Nat.zero_add, List.nil_append]
  | cons b blanks ih =>
    have hb : isBlank b = true := isBlank_of_areBlanks h b List.mem_cons_self
    have hblanks : AreBlanks blanks := fun c hc => h c (List.mem_cons_of_mem b hc)
    rw [List.length_cons, Nat.add_right_comm, List.cons_append, tokensWithin, if_pos hb,
      ih hblanks]

/-- The scanner goes through a row with the tokens that it has already. -/
theorem tokensWithin_of_row {cs : List Char} {tokens : List Token} (h : SpellsRow cs tokens)
    (hapart : Apart tokens) {steps : Nat} (hsteps : cs.length ≤ steps) (done : List Token) :
    tokensWithin steps cs done = some (done.reverse ++ tokens) := by
  induction h generalizing steps done with
  | @nil blanks hblanks =>
    obtain ⟨spare, rfl⟩ := Nat.exists_eq_add_of_le hsteps
    have hpass := tokensWithin_blanks hblanks spare [] done
    rw [List.append_nil] at hpass
    rw [hpass, List.append_nil, tokensWithin]
  | @cons blanks lexeme rest token tokens hblanks htoken hrow ih =>
    obtain ⟨hnext, htail⟩ := List.isChain_cons.mp hapart
    have hend : token.isNumber = true → CannotExtend rest := by
      intro hnumber
      refine hrow.cannotExtend fun t ht => ?_
      have hnot := hnext t ht
      rw [hnumber] at hnot
      simpa using hnot
    have hscan := scanToken_append htoken hend
    obtain ⟨c, lexeme, rfl, hblank, -⟩ := htoken.exists_cons
    simp only [List.length_append, List.length_cons] at hsteps
    -- one step for each blank, and one for the lexeme, however long it is
    obtain ⟨spare, rfl⟩ : ∃ spare, steps = blanks.length + (spare + 1) :=
      ⟨steps - blanks.length - 1, by omega⟩
    have hspare : rest.length ≤ spare := by omega
    rw [List.cons_append] at hscan ⊢
    rw [tokensWithin_blanks hblanks, tokensWithin, hblank, hscan]
    simp only [Bool.false_eq_true, if_false]
    rw [ih htail hspare, List.reverse_cons, List.append_assoc, List.singleton_append]

/-- **A row of lexemes is read as its tokens.** -/
theorem tokens_of_row {cs : List Char} {tokens : List Token} (h : SpellsRow cs tokens)
    (hapart : Apart tokens) : tokens? cs = some tokens := by
  rw [tokens?, tokensWithin_of_row h hapart (Nat.le_refl _), List.reverse_nil, List.nil_append]

end WasmExec.Json
