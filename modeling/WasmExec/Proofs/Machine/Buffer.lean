/-
Words at the front of a buffer, and the ten types that a word can have.

A machine reads a word in three steps. It cuts the front off the buffer, copies it over a scratch
row of its own, and takes the row for a word; writing cuts the front and copies the row of the
word over it. The first two steps can fail, and only the first one ever does: once the front is
cut to length there is nothing left for a copy to object to. So a short buffer is the one hazard.

What a type adds to the word is the number that the word stands for, in two's complement or
without a sign. A floating-point number is known by its bits, so that no NaN is mistaken for
another. Whatever the type, the byte at place `i` is the floor of the number by `256 ^ i`,
cut to eight bits, because wrapping a number into a word adds a multiple that the byte does not see
(`ofNat_toNat_ofInt`).
-/
import WasmExec.Proofs.Integer.Reading
import WasmExec.Proofs.Machine.Action
import WasmExec.Proofs.Memory.Codec

set_option autoImplicit false

namespace WasmExec

/-! ## The numbers of a type -/

namespace Scalar

/-- How the word of a scalar is read. A floating-point number is taken for its bits. -/
def sign : Scalar → Signedness
  | .unsigned _ => .unsigned
  | .signed _ => .signed
  | .float _ => .unsigned

/-- **The numbers of a scalar type.** -/
def Holds (s : Scalar) (z : Int) : Prop :=
  match s with
  | .unsigned width => 0 ≤ z ∧ z < 2 ^ width.bits
  | .signed width => -2 ^ (width.bits - 1) ≤ z ∧ z < 2 ^ (width.bits - 1)
  | .float w => 0 ≤ z ∧ z < 2 ^ w.access.bits

instance (s : Scalar) (z : Int) : Decidable (s.Holds z) :=
  match s with
  | .unsigned _ => inferInstanceAs (Decidable (_ ∧ _))
  | .signed _ => inferInstanceAs (Decidable (_ ∧ _))
  | .float _ => inferInstanceAs (Decidable (_ ∧ _))

theorem toNat_ofInt_of_lt {n : Nat} {z : Int} (h : 0 ≤ z ∧ z < 2 ^ n) :
    ((BitVec.ofInt n z).toNat : Int) = z := by
  have hmod : z % ((2 ^ n : Nat) : Int) = z := Int.emod_eq_of_lt h.1 (by exact_mod_cast h.2)
  rw [BitVec.toNat_ofInt, hmod, Int.toNat_of_nonneg h.1]

/-- A number of a type is what its word stands for. -/
theorem read_ofInt {s : Scalar} {z : Int} (h : s.Holds z) :
    s.sign.read (BitVec.ofInt s.access.bits z) = z := by
  cases s with
  | unsigned width => exact toNat_ofInt_of_lt h
  | signed width => exact BitVec.toInt_ofInt_eq_self (by cases width <;> decide) h.1 h.2
  | float w => exact toNat_ofInt_of_lt h

theorem holds_read (s : Scalar) (word : BitVec s.access.bits) : s.Holds (s.sign.read word) := by
  have hlt : (word.toNat : Int) < 2 ^ s.access.bits := by exact_mod_cast word.isLt
  cases s with
  | unsigned width => exact ⟨Int.natCast_nonneg _, hlt⟩
  | signed width => exact ⟨BitVec.le_toInt word, BitVec.toInt_lt⟩
  | float w => exact ⟨Int.natCast_nonneg _, hlt⟩

end Scalar

/-! ## Bytes of a number -/

namespace LittleEndian

/-- **Each byte of a word is read off its number.** What wrapping added is a multiple of
`256 ^ (i + 1)`, which neither the floor nor the byte sees. -/
theorem ofNat_toNat_ofInt (width : AccessWidth) (z : Int) {i : Nat} (hi : i < width.bytes) :
    UInt8.ofNat ((BitVec.ofInt width.bits z).toNat / 256 ^ i) = UInt8.ofInt (z / 256 ^ i) := by
  obtain ⟨k, hk⟩ : ∃ k, 256 ^ width.bytes = 256 ^ i * 256 * 256 ^ k := by
    refine ⟨width.bytes - (i + 1), ?_⟩
    rw [← pow_succ, ← pow_add, Nat.add_sub_cancel' hi]
  have hpow : ((2 ^ width.bits : Nat) : Int) = 256 ^ i * (256 * 256 ^ k) := by
    rw [← pow_bytes, hk, mul_assoc]
    norm_cast
  have hpos : (0 : Int) < 256 ^ i := by positivity
  -- the word is the number less a multiple of the number of words
  obtain ⟨q, hq⟩ : ∃ q : Int, z / 256 ^ i
      = ((BitVec.ofInt width.bits z).toNat / 256 ^ i : Nat) + 256 * 256 ^ k * q := by
    refine ⟨z / (2 ^ width.bits : Nat), ?_⟩
    have hword : ((BitVec.ofInt width.bits z).toNat : Int) = z % (2 ^ width.bits : Nat) := by
      rw [BitVec.toNat_ofInt]
      exact Int.toNat_of_nonneg (Int.emod_nonneg _ (by positivity))
    have hsplit : z = (BitVec.ofInt width.bits z).toNat
        + 256 ^ i * (256 * 256 ^ k * (z / (2 ^ width.bits : Nat))) := by
      rw [hword, ← mul_assoc, ← hpow]
      exact (Int.emod_add_mul_ediv z _).symm
    conv_lhs => rw [hsplit, Int.add_mul_ediv_left _ _ hpos.ne']
    push_cast
    ring
  apply UInt8.toNat_inj.mp
  rw [UInt8.ofInt, UInt8.toNat_ofNat', UInt8.toNat_ofNat', hq, mul_assoc 256,
    show (2 : Int) ^ 8 = 256 from rfl, Int.add_mul_emod_self_left]
  omega

end LittleEndian

/-! ## In steps -/

namespace Machine

/-- The first bytes of a buffer. -/
def front (count : Nat) (buffer : List UInt8) : Except Hazard (List UInt8) :=
  if count ≤ buffer.length then .ok (buffer.take count) else .error .slice

/-- Copies a row of bytes over another one of the same length. -/
def copyOver (target source : List UInt8) : Except Hazard (List UInt8) :=
  if target.length = source.length then .ok source else .error .length

/-- **The number at the front of a buffer**, by way of a scratch row. -/
def readScalar (s : Scalar) (buffer : List UInt8) : Except Hazard Int := do
  let bytes ← front s.access.bytes buffer
  let row ← copyOver (List.replicate s.access.bytes 0) bytes
  return s.sign.read (LittleEndian.decode s.access row)

/-- **Puts a number at the front of a buffer.** -/
def writeScalar (s : Scalar) (z : Int) (buffer : List UInt8) : Except Hazard (List UInt8) := do
  let target ← front s.access.bytes buffer
  let row ← copyOver target (LittleEndian.encode s.access (BitVec.ofInt s.access.bits z))
  return row ++ buffer.drop s.access.bytes

/-- The scratch row is as long as the front, so reading fails with the cut or not at all. -/
theorem readScalar_eq (s : Scalar) (buffer : List UInt8) :
    readScalar s buffer = match LittleEndian.read? s.access buffer with
      | some word => .ok (s.sign.read word)
      | none => .error .slice := by
  unfold readScalar front LittleEndian.read?
  by_cases h : s.access.bytes ≤ buffer.length
  · have hlen : (List.replicate s.access.bytes (0 : UInt8)).length
        = (buffer.take s.access.bytes).length := by
      rw [List.length_replicate, List.length_take, min_eq_left h]
    rw [if_pos h, if_pos h]
    show copyOver _ _ >>= _ = _
    rw [copyOver, if_pos hlen]
    rfl
  · rw [if_neg h, if_neg h]
    rfl

/-- The row of a word is as long as the front that it replaces. -/
theorem writeScalar_eq (s : Scalar) (z : Int) (buffer : List UInt8) :
    writeScalar s z buffer
      = match LittleEndian.write? s.access (BitVec.ofInt s.access.bits z) buffer with
      | some after => .ok after
      | none => .error .slice := by
  unfold writeScalar front LittleEndian.write?
  by_cases h : s.access.bytes ≤ buffer.length
  · have hlen : (buffer.take s.access.bytes).length
        = (LittleEndian.encode s.access (BitVec.ofInt s.access.bits z)).length := by
      rw [LittleEndian.length_encode, List.length_take, min_eq_left h]
    rw [if_pos h, if_pos h]
    show copyOver _ _ >>= _ = _
    rw [copyOver, if_pos hlen]
    rfl
  · rw [if_neg h, if_neg h]
    rfl

section

variable {s : Scalar} {buffer : List UInt8}

theorem readScalar_of_le (h : s.access.bytes ≤ buffer.length) :
    readScalar s buffer
      = .ok (s.sign.read (LittleEndian.decode s.access (buffer.take s.access.bytes))) := by
  rw [readScalar_eq, LittleEndian.read?, if_pos h]

theorem writeScalar_of_le (z : Int) (h : s.access.bytes ≤ buffer.length) :
    writeScalar s z buffer = .ok (LittleEndian.encode s.access (BitVec.ofInt s.access.bits z)
      ++ buffer.drop s.access.bytes) := by
  rw [writeScalar_eq, LittleEndian.write?, if_pos h]

theorem readScalar_of_lt (h : buffer.length < s.access.bytes) :
    readScalar s buffer = .error .slice := by
  rw [readScalar_eq, LittleEndian.read?, if_neg h.not_ge]

theorem writeScalar_of_lt (z : Int) (h : buffer.length < s.access.bytes) :
    writeScalar s z buffer = .error .slice := by
  rw [writeScalar_eq, LittleEndian.write?, if_neg h.not_ge]

/-- **A short buffer is the one hazard of reading.** -/
theorem readScalar_hazard_iff :
    (∃ hazard, readScalar s buffer = .error hazard) ↔ buffer.length < s.access.bytes := by
  constructor
  · rintro ⟨hazard, h⟩
    refine Nat.lt_of_not_le fun hle => ?_
    rw [readScalar_of_le hle] at h
    cases h
  · exact fun hlt => ⟨_, readScalar_of_lt hlt⟩

/-- **A short buffer is the one hazard of writing**, whatever the number is. -/
theorem writeScalar_hazard_iff (z : Int) :
    (∃ hazard, writeScalar s z buffer = .error hazard) ↔ buffer.length < s.access.bytes := by
  constructor
  · rintro ⟨hazard, h⟩
    refine Nat.lt_of_not_le fun hle => ?_
    rw [writeScalar_of_le z hle] at h
    cases h
  · exact fun hlt => ⟨_, writeScalar_of_lt z hlt⟩

/-- Only a buffer that is long enough is read. -/
theorem le_of_readScalar {z : Int} (h : readScalar s buffer = .ok z) :
    s.access.bytes ≤ buffer.length := by
  refine Nat.le_of_not_lt fun hlt => ?_
  rw [readScalar_of_lt hlt] at h
  cases h

/-- **The word behind a number that was read** depends on the width of the type only. -/
theorem ofInt_of_readScalar {z : Int} (h : readScalar s buffer = .ok z) {width : AccessWidth}
    (hwidth : s.access = width) :
    BitVec.ofInt width.bits z = LittleEndian.decode width (buffer.take width.bytes) := by
  subst hwidth
  rw [readScalar_of_le (le_of_readScalar h)] at h
  obtain rfl := Except.ok.inj h
  exact s.sign.ofInt_read _

end

end Machine

/-! ## The codec -/

namespace LittleEndian

/-- **The codec of each scalar type is a bijection on its slot.** In place it is the codec of the
words. In a buffer that is long enough every number of the type can be written. That keeps the length
of the buffer and all bytes behind the slot, puts into the slot the bytes of the number, the lowest
first, and the number is read back. Whatever is read is a number of the type, and writing it
changes nothing. Types of one width read numbers with the same bits. And reading or writing meets
a hazard exactly if the buffer is shorter than the slot. -/
theorem codec_bijective (s : Scalar) (buffer : List UInt8) :
    ((Machine.readScalar s buffer).toOption = (read? s.access buffer).map s.sign.read
        ∧ ∀ z, (Machine.writeScalar s z buffer).toOption
          = write? s.access (BitVec.ofInt s.access.bits z) buffer)
      ∧ (∀ z, s.Holds z → s.access.bytes ≤ buffer.length →
        ∃ after, Machine.writeScalar s z buffer = .ok after ∧ after.length = buffer.length
          ∧ (∀ i, after[i]? = if i < s.access.bytes then some (UInt8.ofInt (z / 256 ^ i))
            else buffer[i]?)
          ∧ Machine.readScalar s after = .ok z)
      ∧ (∀ z, Machine.readScalar s buffer = .ok z →
        s.Holds z ∧ Machine.writeScalar s z buffer = .ok buffer)
      ∧ (∀ (t : Scalar) (z u : Int), t.access = s.access → Machine.readScalar s buffer = .ok z →
        Machine.readScalar t buffer = .ok u →
        BitVec.ofInt s.access.bits z = BitVec.ofInt s.access.bits u)
      ∧ ((∃ hazard, Machine.readScalar s buffer = .error hazard)
        ↔ buffer.length < s.access.bytes)
      ∧ ∀ z, (∃ hazard, Machine.writeScalar s z buffer = .error hazard)
        ↔ buffer.length < s.access.bytes := by
  refine ⟨⟨?_, fun z => ?_⟩, fun z hz hle => ?_, fun z hz => ?_, fun t z u ht hz hu => ?_,
    Machine.readScalar_hazard_iff, Machine.writeScalar_hazard_iff⟩
  · rw [Machine.readScalar_eq]
    cases read? s.access buffer <;> rfl
  · rw [Machine.writeScalar_eq]
    cases write? s.access (BitVec.ofInt s.access.bits z) buffer <;> rfl
  · have hlen := length_encode s.access (BitVec.ofInt s.access.bits z)
    refine ⟨_, Machine.writeScalar_of_le z hle, ?_, fun i => ?_, ?_⟩
    · rw [List.length_append, hlen, List.length_drop, Nat.add_sub_cancel' hle]
    · by_cases hi : i < s.access.bytes
      · rw [if_pos hi, List.getElem?_append_left (by rwa [hlen]), encode,
          getElem?_digits _ _ _ hi, ofNat_toNat_ofInt s.access z hi]
      · rw [if_neg hi, List.getElem?_append_right (by omega), List.getElem?_drop, hlen,
          Nat.add_sub_cancel' (by omega)]
    · rw [Machine.readScalar_of_le (by rw [List.length_append, hlen]; omega),
        List.take_left' hlen, decode_encode, Scalar.read_ofInt hz]
  · have hword := Machine.ofInt_of_readScalar hz rfl
    have hle := Machine.le_of_readScalar hz
    have hslot : (buffer.take s.access.bytes).length = s.access.bytes :=
      List.length_take_of_le hle
    constructor
    · rw [Machine.readScalar_of_le hle] at hz
      exact Except.ok.inj hz ▸ s.holds_read _
    · rw [Machine.writeScalar_of_le z hle, hword, encode_decode hslot, List.take_append_drop]
  · rw [Machine.ofInt_of_readScalar hz rfl, Machine.ofInt_of_readScalar hu ht]

/-- The payload of a signalling NaN comes back, and the bytes behind it were left alone. -/
theorem codec_bijective_payload :
    ∃ after, Machine.writeScalar (.float .w32) 0x7f800001 [1, 2, 3, 4, 5, 6] = .ok after
      ∧ after[0]? = some 0x01 ∧ after[4]? = some 5
      ∧ Machine.readScalar (.float .w32) after = .ok 0x7f800001 := by
  obtain ⟨after, hwrite, -, hbytes, hread⟩ :=
    (codec_bijective (.float .w32) [1, 2, 3, 4, 5, 6]).2.1 0x7f800001 (by decide) (by decide)
  exact ⟨after, hwrite, hbytes 0, hbytes 4, hread⟩

end LittleEndian

end WasmExec
