/-
Values that are shown and read again.

The number of a value, with its type behind it, is an operand, and the operand is the value.
For an integer this is a fact about numerals, for a floating-point number it is the round trip
of its shortest numeral. A NaN is shown without sign and payload, so only that it is a NaN
comes back.

What the number leaves out the bits behind it say. That no two values share the longer text
needs nothing about numbers: the text is taken apart from its end, where the last `x` begins the
row of hexadecimal digits and the last parenthesis the name of the type. Neither is a character
of what follows it, so there is one way only to take the text apart (`append_inj_last`).
-/
import WasmExec.Display
import WasmExec.Proofs.CommandLine.Argument
import WasmExec.Proofs.Floating.Decimal
import WasmExec.Proofs.Text.Hexadecimal

set_option autoImplicit false

namespace WasmExec

namespace Text

/-! ## Integers -/

/-- An integer is read from the text that it is printed as. -/
theorem readInt_toString (z : Int) : readInt? (toString z).toList = some z := by
  cases z with
  | ofNat n =>
    have hprinted : toString (Int.ofNat n) = toString n := rfl
    rw [hprinted]
    exact readInt_of_isNumeral (isNumeral_toString n)
  | negSucc n =>
    have hprinted : toString (Int.negSucc n) = "-" ++ toString (n + 1) := rfl
    have hchars : (toString (Int.negSucc n)).toList = '-' :: (toString (n + 1)).toList := by
      rw [hprinted, String.toList_append]
      rfl
    rw [hchars, readInt?, splitSign, readDigits_of_isNumeral (isNumeral_toString (n + 1))]
    rfl

/-- A word is read from its signed number. -/
theorem readInteger_toString {w : Width} (b : Word w) :
    readInteger? w (toString b.toInt).toList = some b := by
  have hrange : Signedness.signed.least w ≤ b.toInt
      ∧ b.toInt ≤ Signedness.unsigned.greatest w := by
    have hlow := BitVec.le_toInt b
    have hhigh := BitVec.toInt_lt (x := b)
    cases w with
    | w32 =>
      simp only [Signedness.least, Signedness.greatest]
      norm_num at hlow hhigh
      omega
    | w64 =>
      simp only [Signedness.least, Signedness.greatest]
      norm_num at hlow hhigh
      omega
  rw [readInteger?, readInt_toString]
  simp only
  rw [if_pos hrange, BitVec.ofInt_toInt]

end Text

/-! ## Type and bits -/

theorem ValType.name_injective {t u : ValType} (h : t.name = u.name) : t = u := by
  have ht := t.parse_name
  rw [h, u.parse_name] at ht
  exact (Except.ok.inj ht).symm

theorem Width.bits_eq (w : Width) : 16 ^ (2 * w.bytes) = 2 ^ w.bits := by
  cases w <;> decide

namespace Value

theorem bits_lt (v : Value) : v.bits < 2 ^ v.type.width.bits := by
  cases v with
  | int w b => exact b.isLt
  | float w b => exact b.isLt

/-- A value is its type and its bits. -/
theorem eq_of_bits {v u : Value} (htype : v.type = u.type) (hbits : v.bits = u.bits) : v = u := by
  cases v with
  | int w b =>
    cases u with
    | int w' b' =>
      obtain rfl : w = w' := ValType.int.inj htype
      rw [BitVec.eq_of_toNat_eq hbits]
    | float w' b' => cases htype
  | float w b =>
    cases u with
    | int w' b' => cases htype
    | float w' b' =>
      obtain rfl : w = w' := ValType.float.inj htype
      rw [BitVec.eq_of_toNat_eq hbits]

end Value

namespace CommandLine

/-- Where the last separator is, a text falls apart in one way only. -/
theorem append_inj_last {separator : Char} {before before' after after' : List Char}
    (h : separator ∉ after) (h' : separator ∉ after')
    (heq : before ++ separator :: after = before' ++ separator :: after') :
    before = before' ∧ after = after' := by
  have hsplit := splitLast_append h before
  rw [heq, splitLast_append h' before'] at hsplit
  have hparts := Prod.mk.inj (Option.some.inj hsplit)
  exact ⟨hparts.1.symm, hparts.2.symm⟩

/-! ## Round trip -/

/-- The number of a value is read as the value, at its type. -/
theorem readValue_number (v : Value) :
    ∃ u, readValue? v.type v.number.toList = some u
      ∧ if v.isNaN then u.type = v.type ∧ u.isNaN = true else u = v := by
  cases v with
  | int w b =>
    have hread := Text.readInteger_toString b
    rw [(Text.readInteger_eq_or w _).1] at hread
    exact ⟨.int w b, congrArg (Option.map (Value.int w)) hread, rfl⟩
  | float w b =>
    have hread : Floating.read? w (Value.float w b).number.toList
        = some (if Floating.isNaN b then Floating.canonicalNaN w false else b) := by
      rw [Value.number, String.toList_ofList, Floating.read_render]
    refine ⟨_, congrArg (Option.map (Value.float w)) hread, ?_⟩
    by_cases hnan : Floating.isNaN b = true
    · have hcanonical : Floating.isNaN (Floating.canonicalNaN w false) = true := by
        cases w <;> decide
      simp only [Value.isNaN, hnan, if_true]
      exact ⟨rfl, hcanonical⟩
    · simp only [Value.isNaN, hnan, if_false, Bool.false_eq_true]

theorem parseOperand_number (v : Value) :
    ∃ u, parseOperand (v.number ++ ":" ++ v.type.name) = .ok u
      ∧ if v.isNaN then u.type = v.type ∧ u.isNaN = true else u = v := by
  obtain ⟨u, hread, hu⟩ := readValue_number v
  exact ⟨u, by rw [parseOperand_of_name, hread], hu⟩

/-- The hexadecimal field of a value. -/
def hexField (v : Value) : List Char := Text.hexDigits (2 * v.type.width.bytes) v.bits

theorem readHex_hexField (v : Value) : Text.readHex? (hexField v) = some v.bits :=
  Text.readHex_hexDigits _ _

theorem length_hexField (v : Value) : (hexField v).length = 2 * v.type.width.bytes := by
  have hpos : 0 < 2 * v.type.width.bytes := by
    cases v.type.width <;> decide
  refine Text.length_hexDigits hpos ?_
  rw [v.type.width.bits_eq]
  exact v.bits_lt

theorem format_eq (v : Value) :
    v.format = v.display ++ " [0x" ++ String.ofList (hexField v) ++ "]" := by
  rw [Value.format, Width.hex, hexField]
  simp only [String.append_assoc]
  rfl

/-- **The texts of two values tell them apart.** -/
theorem format_injective {v u : Value} (h : v.format = u.format) : v = u := by
  have htext : ∀ x : Value, x.format.toList
      = (x.number.toList ++ [' '] ++ '(' :: (x.type.name.toList ++ [')', ' ', '[', '0']))
        ++ 'x' :: (hexField x ++ [']']) := by
    intro x
    rw [format_eq, Value.display]
    simp [String.toList_append]
  have hx : ∀ x : Value, 'x' ∉ hexField x ++ [']'] := by
    intro x hmem
    obtain hmem | hmem := List.mem_append.mp hmem
    · exact Text.not_mem_of_readHex (readHex_hexField x) (by decide) hmem
    · exact absurd hmem (by decide)
  have hparen : ∀ t : ValType, '(' ∉ t.name.toList ++ [')', ' ', '[', '0'] := by
    intro t
    rcases t with w | w <;> cases w <;> decide
  have hchars := congrArg String.toList h
  rw [htext, htext] at hchars
  obtain ⟨hfront, hfield⟩ := append_inj_last (hx v) (hx u) hchars
  obtain ⟨-, hname⟩ := append_inj_last (hparen v.type) (hparen u.type) hfront
  have htype : v.type = u.type := ValType.name_injective
    (String.toList_injective (List.append_cancel_right hname))
  have hbits : some v.bits = some u.bits := by
    rw [← readHex_hexField, ← readHex_hexField, List.append_cancel_right hfield]
  exact Value.eq_of_bits htype (Option.some.inj hbits)

/-- **What is printed reads back, and nothing is printed alike.** A displayed value has a number
part, and that with a colon and the type behind it is an operand for that very value, and
for a NaN it is an operand for some NaN of its type. The text with the bits belongs to one
value only: its last field has two digits for each byte and is the number of the bits. -/
theorem printed_reads_back (v : Value) :
    (∃ d : String, v.display = d ++ " (" ++ v.type.name ++ ")")
      ∧ (∀ d : String, v.display = d ++ " (" ++ v.type.name ++ ")" →
        ∃ u, parseOperand (d ++ ":" ++ v.type.name) = .ok u
          ∧ if v.isNaN then u.type = v.type ∧ u.isNaN = true else u = v)
      ∧ (∃ field : List Char, v.format = v.display ++ " [0x" ++ String.ofList field ++ "]"
        ∧ field.length = 2 * v.type.width.bytes ∧ Text.readHex? field = some v.bits)
      ∧ ∀ u : Value, v.format = u.format → v = u := by
  refine ⟨⟨v.number, rfl⟩, fun d hd => ?_,
    ⟨hexField v, format_eq v, length_hexField v, readHex_hexField v⟩, fun u h => format_injective h⟩
  have hnumber : v.number = d := by
    have hchars := congrArg String.toList hd
    simp only [Value.display, String.toList_append, List.append_cancel_right_eq] at hchars
    exact String.toList_injective hchars
  rw [← hnumber]
  exact parseOperand_number v

/-- The least positive number of the narrow format is read from all its places, a NaN as a NaN,
and two NaNs with different payloads are told apart. -/
theorem printed_reads_back_least :
    (Value.f32 1).display = "0.000000000000000000000000000000000000000000001 (f32)"
      ∧ parseOperand "0.000000000000000000000000000000000000000000001:f32" = .ok (Value.f32 1)
      ∧ (∃ u, parseOperand "NaN:f32" = .ok u ∧ u.type = .f32 ∧ u.isNaN = true)
      ∧ (Value.f32 0x7fc00001).format ≠ (Value.f32 0x7fc00002).format := by
  have hleast : (Value.f32 1).display
      = "0.000000000000000000000000000000000000000000001 (f32)" := by decide +kernel
  obtain ⟨u, hread, rfl⟩ := (printed_reads_back (.f32 1)).2.1
    "0.000000000000000000000000000000000000000000001" hleast
  refine ⟨hleast, hread, (printed_reads_back (.f32 0x7fc00001)).2.1 "NaN" (by decide), fun h => ?_⟩
  exact absurd ((printed_reads_back (.f32 0x7fc00001)).2.2.2 _ h) (by decide)

end CommandLine

end WasmExec
