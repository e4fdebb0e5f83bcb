/-
Words in memory are read as they were written.

A word is written as digits and read by summing digits, so everything here is about the
positional system to the base 256. Summing the digits of a number gives the number back,
up to the places that were cut off. Two rows of digits, one behind the other, are the sum
of the two with the second one moved up, which is why a wide word can be read in halves.

The second part takes this into memory. A range that was just written reads as what was
written there, and a range may be read in parts. A load is then a decoded range
(`load_eq`), and a load right after a store gives the stored word (`load_overwrite`).
-/
import WasmExec.Proofs.Memory.Content

set_option autoImplicit false

namespace WasmExec

theorem AccessWidth.bits_eq (width : AccessWidth) : width.bits = 8 * width.bytes := by
  cases width <;> rfl

/-! ## Digits -/

namespace LittleEndian

/-- Summing digits undoes taking them, up to the places that were cut off. -/
theorem ofDigits_digits (n v : Nat) : ofDigits (digits n v) = v % 256 ^ n := by
  induction n generalizing v with
  | zero => rw [digits, ofDigits, pow_zero, Nat.mod_one]
  | succ n ih =>
    have hsplit : v % (256 * 256 ^ n) = v % 256 + 256 * (v / 256 % 256 ^ n) := Nat.mod_mul
    have hpow : 256 ^ (n + 1) = 256 * 256 ^ n := pow_succ' 256 n
    rw [digits, ofDigits, ih, UInt8.toNat_ofNat', hpow, hsplit]

theorem ofDigits_lt (bytes : List UInt8) : ofDigits bytes < 256 ^ bytes.length := by
  induction bytes with
  | nil => exact Nat.one_pos
  | cons b bytes ih =>
    have hb : b.toNat < 256 := b.toNat_lt
    rw [ofDigits, List.length_cons, pow_succ]
    omega

/-- The digits behind a row count from where the row ends. -/
theorem ofDigits_append (low high : List UInt8) :
    ofDigits (low ++ high) = ofDigits low + 256 ^ low.length * ofDigits high := by
  induction low with
  | nil => rw [List.nil_append, ofDigits, List.length_nil, pow_zero, Nat.one_mul, Nat.zero_add]
  | cons b low ih =>
    rw [List.cons_append, ofDigits, ofDigits, ih, List.length_cons, pow_succ]
    ring

theorem pow_bytes (width : AccessWidth) : 256 ^ width.bytes = 2 ^ width.bits := by
  rw [width.bits_eq, pow_mul]
  rfl

/-- **Reading the bytes of a word gives the word.** -/
theorem decode_encode (width : AccessWidth) (v : BitVec width.bits) :
    decode width (encode width v) = v := by
  rw [decode, encode, ofDigits_digits, pow_bytes, Nat.mod_eq_of_lt v.isLt, BitVec.ofNat_toNat,
    BitVec.setWidth_eq]

/-- The word of as many bytes as it has is their sum. -/
theorem toNat_decode {width : AccessWidth} {bytes : List UInt8}
    (h : bytes.length = width.bytes) : (decode width bytes).toNat = ofDigits bytes := by
  have hlt := ofDigits_lt bytes
  rw [h, pow_bytes] at hlt
  rw [decode, BitVec.toNat_ofNat, Nat.mod_eq_of_lt hlt]

/-- Taking digits undoes summing them. -/
theorem digits_ofDigits (bytes : List UInt8) : digits bytes.length (ofDigits bytes) = bytes := by
  induction bytes with
  | nil => rfl
  | cons b bytes ih =>
    have hb : b.toNat < 256 := b.toNat_lt
    have hlow : UInt8.ofNat (b.toNat + 256 * ofDigits bytes) = b := by
      apply UInt8.toNat_inj.mp
      rw [UInt8.toNat_ofNat', Nat.add_mul_mod_self_left, Nat.mod_eq_of_lt hb]
    have hhigh : (b.toNat + 256 * ofDigits bytes) / 256 = ofDigits bytes := by omega
    rw [List.length_cons, ofDigits, digits, hlow, hhigh, ih]

/-- **Writing the word that bytes stand for gives the bytes.** -/
theorem encode_decode {width : AccessWidth} {bytes : List UInt8}
    (h : bytes.length = width.bytes) : encode width (decode width bytes) = bytes := by
  rw [encode, toNat_decode h, ← h, digits_ofDigits]

/-- **A wide word is its low half and its high half moved up.** -/
theorem decode_append {low high : List UInt8} (hlow : low.length = AccessWidth.b32.bytes)
    (hhigh : high.length = AccessWidth.b32.bytes) :
    decode .b64 (low ++ high)
      = (decode .b32 low).setWidth 64 ||| (decode .b32 high).setWidth 64 <<< 32 := by
  have hl : (decode .b32 low).toNat < 2 ^ 32 := (decode .b32 low).isLt
  have hh : (decode .b32 high).toNat < 2 ^ 32 := (decode .b32 high).isLt
  have hboth : (low ++ high).length = AccessWidth.b64.bytes := by
    rw [List.length_append, hlow, hhigh]
    rfl
  apply BitVec.eq_of_toNat_eq
  rw [BitVec.toNat_or, BitVec.toNat_shiftLeft, BitVec.toNat_setWidth, BitVec.toNat_setWidth,
    toNat_decode hboth, ofDigits_append, hlow,
    ← toNat_decode hlow, ← toNat_decode hhigh]
  generalize (decode .b32 low).toNat = l at hl
  generalize (decode .b32 high).toNat = h at hh
  have hmoved : h <<< 32 = h * 2 ^ 32 := Nat.shiftLeft_eq h 32
  -- the halves do not overlap, so their disjunction is their sum
  have hor : h <<< 32 ||| l = h <<< 32 + l := (Nat.shiftLeft_add_eq_or_of_lt hl h).symm
  have hl64 : l % 2 ^ 64 = l := Nat.mod_eq_of_lt (by omega)
  have hh64 : h % 2 ^ 64 = h := Nat.mod_eq_of_lt (by omega)
  have hmoved64 : (h <<< 32) % 2 ^ 64 = h <<< 32 := Nat.mod_eq_of_lt (by omega)
  rw [hl64, hh64, hmoved64, Nat.or_comm, hor, hmoved]
  ring

end LittleEndian

namespace Memory

/-! ## Ranges -/

/-- A range that was just written reads as what was written. -/
theorem slice_overwrite {m : Memory} {start : Nat} {bytes : List UInt8}
    (h : start + bytes.length ≤ m.content.length) :
    (m.overwrite start bytes).slice start bytes.length = bytes := by
  apply List.ext_getElem?
  intro k
  by_cases hk : k < bytes.length
  · rw [getElem?_slice _ _ _ _ hk, getElem?_overwrite h, if_pos ⟨by omega, by omega⟩,
      Nat.add_sub_cancel_left]
  · have hlen : ((m.overwrite start bytes).slice start bytes.length).length = bytes.length :=
      length_slice (by rwa [length_overwrite h])
    rw [List.getElem?_eq_none (by omega), List.getElem?_eq_none (by omega)]

/-- A range is read in parts, one behind the other. -/
theorem slice_add (m : Memory) (start first second : Nat) :
    m.slice start (first + second) = m.slice start first ++ m.slice (start + first) second := by
  rw [slice_eq, slice_eq, slice_eq, List.take_add, List.drop_drop]

/-! ## Words -/

/-- A load inside the memory decodes its range, and no other load succeeds. -/
theorem load_eq (m : Memory) (ptr offset : UInt32) (width : AccessWidth) :
    m.load ptr offset width
      = if ptr.toNat + offset.toNat + width.bytes ≤ m.content.length
        then .ok (LittleEndian.decode width (m.slice (ptr.toNat + offset.toNat) width.bytes))
        else .error (.trap .outOfBounds) := by
  rw [load]
  simp only [contains_iff]

theorem store_eq (m : Memory) (ptr offset : UInt32) (width : AccessWidth)
    (v : BitVec width.bits) :
    m.store ptr offset width v
      = if ptr.toNat + offset.toNat + width.bytes ≤ m.content.length
        then .ok (m.overwrite (ptr.toNat + offset.toNat) (LittleEndian.encode width v))
        else .error (.trap .outOfBounds) := by
  rw [store]
  simp only [contains_iff]

/-- **A word is loaded as it was stored**, by whatever pointer and offset it is reached. -/
theorem load_overwrite {m : Memory} {start : Nat} {width : AccessWidth} (v : BitVec width.bits)
    (hin : start + width.bytes ≤ m.content.length) {ptr offset : UInt32}
    (haddress : ptr.toNat + offset.toNat = start) :
    (m.overwrite start (LittleEndian.encode width v)).load ptr offset width = .ok v := by
  have hlen := LittleEndian.length_encode width v
  have hin' : start + (LittleEndian.encode width v).length ≤ m.content.length := by rwa [hlen]
  have hslice := slice_overwrite hin'
  rw [hlen] at hslice
  rw [load_eq, haddress, length_overwrite hin', if_pos hin, hslice, LittleEndian.decode_encode]

end Memory

end WasmExec
