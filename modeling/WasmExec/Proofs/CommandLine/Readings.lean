/-
What a text means to the two readers of values.

A script and the command line each read values from texts. For an integer they make the same two
attempts in opposite orders, with and without a sign, and the order does not matter. So there is
one meaning, and it can be stated without either: a sign and a numeral whose integer fits one of
the two readings of a word. Texts of floating-point values differ by more. A script reads a plain
row of digits as bits and whatever begins with `nan:` as a NaN, where the command line sees a
decimal numeral or nothing. For all other texts both are the same reader.

That reader rounds a decimal fraction once. What it returns is defined by the number alone, so
nothing can come between the text and the format that is asked for. The narrow reading of a
fraction just past the middle of two numbers shows what would be lost on the way through the wide
format: there the fraction is the middle, and demotion takes the even number below it.
-/
import WasmExec.Numeric
import WasmExec.Proofs.CommandLine.Argument
import WasmExec.Proofs.Floating.Decimal

set_option autoImplicit false

namespace WasmExec.CommandLine

open Text (IsInteger IsDecimal IsPlaces)
open Floating (IsRounded)

/-! ## Texts that both readers read alike -/

theorem literal_iff_operand {t : ValType} {s : String}
    (h : readValue? t s.toList = Literal.read? t s.toList) (v : Value) :
    (Literal.mk t.name s).value = .ok v ↔ parseOperand (s ++ ":" ++ t.name) = .ok v := by
  rw [Literal.value_of_name, parseOperand_of_name, h]
  cases Literal.read? t s.toList <;> simp

/-- **Which texts are integers of a width**, and of which value. -/
theorem literal_int_iff (w : Width) (s : String) (v : Value) :
    (Literal.mk (ValType.int w).name s).value = .ok v ↔
      ∃ z, IsInteger s.toList z ∧ -2 ^ (w.bits - 1) ≤ z ∧ z < 2 ^ w.bits
        ∧ v = .int w (BitVec.ofInt w.bits z) := by
  -- the two attempts as the one reader that they amount to in either order
  rw [Literal.value_of_name, Literal.read?, ← (Text.readInteger_eq_or w s.toList).2]
  constructor
  · intro h
    cases hread : Text.readInteger? w s.toList with
    | none => simp [hread] at h
    | some b =>
      obtain ⟨z, hz, hge, hlt, rfl⟩ := (Text.readInteger_eq_some_iff s.toList b).mp hread
      refine ⟨z, hz, hge, hlt, ?_⟩
      simpa [hread] using h.symm
  · rintro ⟨z, hz, hge, hlt, rfl⟩
    rw [(Text.readInteger_eq_some_iff s.toList _).mpr ⟨z, hz, hge, hlt, rfl⟩]
    rfl

/-- **A text means the same in a script and on the command line.** As an integer it is read by
both, to one value, or by neither, and it is read if and only if it is a sign and a numeral for an
integer that a signed or an unsigned word has; the word is that integer modulo the number of
words. As a decimal numeral it is read by both to the same bits or by neither. The number of its
bits, as a literal, gives any floating-point value back. -/
theorem texts_mean_the_same (w : Width) :
    (∀ (s : String) (v : Value),
        ((Literal.mk (ValType.int w).name s).value = .ok v ↔
          parseOperand (s ++ ":" ++ (ValType.int w).name) = .ok v)
        ∧ ((Literal.mk (ValType.int w).name s).value = .ok v ↔
          ∃ z, IsInteger s.toList z ∧ -2 ^ (w.bits - 1) ≤ z ∧ z < 2 ^ w.bits
            ∧ v = .int w (BitVec.ofInt w.bits z)))
      ∧ (∀ s : String, Literal.looksDecimal s.toList = true → Literal.isAnyNaN s.toList = false →
        ∀ v, (Literal.mk (ValType.float w).name s).value = .ok v ↔
          parseOperand (s ++ ":" ++ (ValType.float w).name) = .ok v)
      ∧ ∀ b : Word w,
        (Literal.mk (ValType.float w).name (toString b.toNat)).value = .ok (.float w b) := by
  refine ⟨fun s v => ⟨?_, literal_int_iff w s v⟩, fun s hdecimal hnan v => ?_, fun b => ?_⟩
  · exact literal_iff_operand (readValue_eq_read (.inl rfl)) v
  · exact literal_iff_operand (readValue_eq_read (.inr ⟨hdecimal, hnan⟩)) v
  · exact Literal.value_ofBits (.float w b)

/-- A zero may be written with a minus sign, and the greatest unsigned number with a plus sign and
zeros. A negative number too small for the format is a zero with its sign, for both readers. The
payload of a NaN is kept by its number, which is no decimal numeral. -/
theorem texts_mean_the_same_signs :
    parseOperand ("-0" ++ ":" ++ "i32") = .ok (.int .w32 0)
      ∧ parseOperand ("+004294967295" ++ ":" ++ "i32") = .ok (.int .w32 0xffffffff#32)
      ∧ parseOperand ("-1e-46" ++ ":" ++ "f32") = .ok (.float .w32 0x80000000#32)
      ∧ (Literal.mk "f32" "2141192193").value = .ok (.float .w32 0x7fa00001#32) := by
  obtain ⟨hint, hfloat, hbits⟩ := texts_mean_the_same .w32
  have hzero : IsInteger "-0".toList 0 :=
    ⟨['-'], ['0'], true, 0, rfl, .minus, ⟨by decide, List.all_eq_true.mp rfl, rfl⟩, rfl⟩
  have hgreatest : IsInteger "+004294967295".toList 4294967295 :=
    ⟨['+'], "004294967295".toList, false, 4294967295, rfl, .plus,
      ⟨by decide, List.all_eq_true.mp (by decide), by decide⟩, rfl⟩
  have hnumber : toString (0x7fa00001#32).toNat = "2141192193" := by decide
  refine ⟨?_, ?_, ?_, hnumber ▸ hbits 0x7fa00001#32⟩
  · exact (hint "-0" _).1.mp ((hint "-0" _).2.mpr ⟨0, hzero, by decide, by decide, rfl⟩)
  · exact (hint "+004294967295" _).1.mp
      ((hint "+004294967295" _).2.mpr ⟨_, hgreatest, by decide, by decide, rfl⟩)
  · exact (hfloat "-1e-46" (by decide) (by decide) _).mp (by decide +kernel)

/-! ## Decimal fractions -/

/-- A fraction begins with a sign, a digit or a point. -/
theorem isAnyNaN_of_isDecimal {cs : List Char} {negative : Bool} {q : Rat}
    (h : IsDecimal cs negative q) : Literal.isAnyNaN cs = false := by
  obtain ⟨sign, places, exponent, m, e, rfl, hsign, hplaces, -, -⟩ := h
  obtain ⟨c, rest, rfl, hc⟩ := hplaces.exists_cons
  have hletter : 'n' ≠ c := by
    rintro rfl
    exact absurd hc (by decide)
  cases hsign <;> simp [Literal.isAnyNaN, List.isPrefixOf, hletter]

/-- **A decimal fraction is rounded once**, from its number to the format of the type. Every
fraction is read on the command line, and in a script those that look like one. -/
theorem decimals_rounded_once (w : Width) {s : String} {negative : Bool} {q : Rat}
    (h : IsDecimal s.toList negative q) :
    ∃ x : Word w, (∀ y, IsRounded negative q y ↔ y = x)
      ∧ parseOperand (s ++ ":" ++ (ValType.float w).name) = .ok (.float w x)
      ∧ (Literal.looksDecimal s.toList = true →
        (Literal.mk (ValType.float w).name s).value = .ok (.float w x)) := by
  have hread := Floating.read_of_isDecimal (w := w) h
  have hrounded := Floating.isRounded_iff (w := w) (Floating.agreesInSign_of_isDecimal h)
  refine ⟨Floating.ofRat w negative q, hrounded, ?_, fun hdecimal => ?_⟩
  · rw [parseOperand_of_name, readValue?, hread]
    rfl
  · -- without the marks of a fraction the digits would have been taken for bits
    rw [Literal.value_of_name, Literal.read?, Literal.readFloat?, isAnyNaN_of_isDecimal h,
      hdecimal, hread]
    rfl

/-- Just past the middle between one and the number after it. The wide format has that middle
and is not fine enough for the rest, so demoting the wide reading gives one. -/
theorem decimals_rounded_once_past_middle :
    let s := "1.00000005960464478"
    IsRounded (w := .w32) false (1 + 5960464478 / 10 ^ 17) 0x3f800001#32
      ∧ IsRounded (w := .w64) false (1 + 5960464478 / 10 ^ 17) 0x3ff0000010000000#64
      ∧ (Literal.mk "f32" s).value = .ok (.float .w32 0x3f800001#32)
      ∧ (NumOp.convert .demote).apply [.float .w64 0x3ff0000010000000#64]
        = .ok (.float .w32 0x3f800000#32) := by
  intro s
  have hdecimal : IsDecimal s.toList false (1 + 5960464478 / 10 ^ 17) := by
    have hplaces : IsPlaces (['1'] ++ '.' :: "00000005960464478".toList) _ :=
      .point (by decide) (List.all_eq_true.mp (by decide))
    have hwhole : Nat.ofDigitChars 10 ['1'] 0 = 1 := by decide
    have hfraction : Nat.ofDigitChars 10 "00000005960464478".toList 0 = 5960464478 := by decide
    have hlength : "00000005960464478".toList.length = 17 := by decide
    rw [hwhole, hfraction, hlength] at hplaces
    exact ⟨[], _, [], _, 0, by decide, .absent, hplaces, .absent, by norm_num⟩
  obtain ⟨x, hx, hoperand, hliteral⟩ := decimals_rounded_once .w32 hdecimal
  obtain ⟨y, hy, hoperand', -⟩ := decimals_rounded_once .w64 hdecimal
  -- which words these are is found by reading, and that they are the nearest is the theorem
  have hnarrow : parseOperand (s ++ ":" ++ "f32") = .ok (.float .w32 0x3f800001#32) := by
    decide +kernel
  have hwide : parseOperand (s ++ ":" ++ "f64") = .ok (.float .w64 0x3ff0000010000000#64) := by
    decide +kernel
  obtain rfl : x = 0x3f800001#32 := by simpa using hoperand.symm.trans hnarrow
  obtain rfl : y = 0x3ff0000010000000#64 := by simpa using hoperand'.symm.trans hwide
  exact ⟨(hx _).mpr rfl, (hy _).mpr rfl, hliteral (by decide), by decide +kernel⟩

end WasmExec.CommandLine
