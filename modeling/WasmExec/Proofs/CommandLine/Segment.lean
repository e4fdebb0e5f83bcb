/-
Segments as they are written.

A host hands a memory the bytes of a segment and the place where they go. On the command line
both are text, the place in decimal and each byte in two digits. The text spells the segment
(`spellsSegment_written`), by induction on the bytes, and whether a digit is written large or small
is nothing that a reader of digits sees.
-/
import WasmExec.Proofs.CommandLine.Argument

set_option autoImplicit false

namespace WasmExec.CommandLine

/-! ## Writing -/

/-- **The digits of a byte**, the high one first. -/
def writeByte (byte : UInt8) : List Char :=
  [Nat.digitChar (byte.toNat / 16), Nat.digitChar (byte.toNat % 16)]

/-- **The digits of a row of bytes**, each in either case. -/
def WritesBytes (digits : String) (bytes : List UInt8) : Prop :=
  digits.toList.map Char.toLower = bytes.flatMap writeByte

instance (digits : String) (bytes : List UInt8) : Decidable (WritesBytes digits bytes) :=
  inferInstanceAs (Decidable (_ = _))

/-- Two digits of a byte are read as the byte. -/
theorem spellsBytes_of_map {cs : List Char} {bytes : List UInt8}
    (h : cs.map Char.toLower = bytes.flatMap writeByte) : SpellsBytes cs bytes := by
  induction bytes generalizing cs with
  | nil =>
    obtain rfl : cs = [] := by simpa using h
    exact .nil
  | cons byte bytes ih =>
    rw [List.flatMap_cons, writeByte, List.cons_append, List.cons_append, List.nil_append] at h
    obtain ⟨a, cs, rfl, ha, h⟩ := List.map_eq_cons_iff.mp h
    obtain ⟨b, cs, rfl, hb, h⟩ := List.map_eq_cons_iff.mp h
    have hbyte := byte.toNat_lt
    have hhigh := Text.hexValue_of_toLower (by omega) ha
    have hlow := Text.hexValue_of_toLower (by omega) hb
    have hdigits := SpellsBytes.cons hhigh hlow (ih h)
    rwa [Nat.div_add_mod, UInt8.ofNat_toNat] at hdigits

/-- **What is written for a segment spells it.** -/
theorem spellsSegment_written {digits : String} {bytes : List UInt8}
    (h : WritesBytes digits bytes) (offset : UInt32) :
    SpellsSegment (toString offset.toNat ++ ":" ++ digits) (offset, bytes) :=
  ⟨_, digits, rfl, Text.isNumeral_toString offset.toNat, spellsBytes_of_map h⟩

end WasmExec.CommandLine
