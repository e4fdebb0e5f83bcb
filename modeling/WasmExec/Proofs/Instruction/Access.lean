/-
One layout for all types.

There are fourteen loads and nine stores, and one way in which a word lies in memory. A
store keeps the low digits of its value and puts them in order; a load reads a word of the
same length and widens it to its type. Nothing else is different between the types, so
whatever is known of one load of a range is known of every other load of the same length:
the two read the same word, and only what they make of it differs (`Load.apply_bind`).

That relates the loads to the conversions. A load that extends a sign is the load without
signs and the instruction that extends the sign afterwards; a load of half a wide integer
is the narrow load and an extension; a floating-point load is the integer load and a
reinterpretation; and a wide integer is put together from its halves. All of these hold of
every memory, at every address and with every operand, and where one side is refused the
other is refused with the same fault.
-/
import WasmExec.Instruction
import WasmExec.Proofs.Instruction.Operand
import WasmExec.Proofs.Memory.Codec
import WasmExec.Proofs.Memory.LastWrite

set_option autoImplicit false

namespace WasmExec

/-! ## Words of a type -/

theorem Signedness.extend_self {n : Nat} (sign : Signedness) (a : BitVec n) :
    sign.extend n a = a := by
  cases sign with
  | signed => exact BitVec.signExtend_eq a
  | unsigned => exact BitVec.setWidth_eq a

/-- Narrowing undoes widening. -/
theorem setWidth_setWidth_self {n k : Nat} (h : n ≤ k) (a : BitVec n) :
    (a.setWidth k).setWidth n = a := by
  rw [BitVec.setWidth_setWidth_of_le a h, BitVec.setWidth_eq]

/-- **A value is its bits at its type.** Extending a word that is as long as its type
changes nothing. -/
theorem Value.ofWord_extend_bits (v : Value) (sign : Signedness) :
    Value.ofWord v.type (sign.extend v.type.width.bits
      (BitVec.ofNat v.type.width.access.bits v.bits)) = v := by
  have hword : ∀ {n : Nat} (b : BitVec n), sign.extend n (BitVec.ofNat n b.toNat) = b := by
    intro n b
    rw [sign.extend_self, BitVec.ofNat_toNat, BitVec.setWidth_eq]
  cases v with
  | int w b => cases w <;> exact congrArg (Value.int _) (hword b)
  | float w b => cases w <;> exact congrArg (Value.float _) (hword b)

/-! ## The word that a load reads -/

/-- A load reads one word and widens it. -/
theorem Load.apply_eq {l : Load} (hl : l.type.admits l.width = true) (m : Memory)
    (address : Value) :
    l.apply m address = do
      let ptr ← address.asIndex
      let word ← m.load ptr l.offset l.width
      return Value.ofWord l.type (l.sign.extend l.type.width.bits word) := by
  rw [Load.apply]
  simp only [if_pos hl]

/-- A load in range gives the word of the range, widened. -/
theorem Load.apply_ok {m : Memory} {t : ValType} {width : AccessWidth}
    (ht : t.admits width = true) (sign : Signedness) {offset : UInt32} {a : Word .w32}
    (hin : a.toNat + offset.toNat + width.bytes ≤ m.content.length) :
    Load.apply ⟨t, width, sign, offset⟩ m (.int .w32 a)
      = .ok (Value.ofWord t (sign.extend t.width.bits
        (LittleEndian.decode width (m.slice (a.toNat + offset.toNat) width.bytes)))) := by
  have hload : m.load (UInt32.ofBitVec a) offset width
      = .ok (LittleEndian.decode width (m.slice (a.toNat + offset.toNat) width.bytes)) := by
    rw [Memory.load_eq]
    exact if_pos hin
  rw [Load.apply_eq ht]
  show (m.load (UInt32.ofBitVec a) offset width >>= _) = _
  rw [hload]
  rfl

theorem Load.apply_outOfBounds {m : Memory} {t : ValType} {width : AccessWidth}
    (ht : t.admits width = true) (sign : Signedness) {offset : UInt32} {a : Word .w32}
    (hout : ¬ a.toNat + offset.toNat + width.bytes ≤ m.content.length) :
    Load.apply ⟨t, width, sign, offset⟩ m (.int .w32 a) = .error (.trap .outOfBounds) := by
  have hload : m.load (UInt32.ofBitVec a) offset width = .error (.trap .outOfBounds) := by
    rw [Memory.load_eq]
    exact if_neg hout
  rw [Load.apply_eq ht]
  show (m.load (UInt32.ofBitVec a) offset width >>= _) = _
  rw [hload]
  rfl

/-- **Two loads of one length read the same word**, so the second is the first and
whatever turns the one value into the other. -/
theorem Load.apply_bind {l : Load} {t : ValType} {sign : Signedness} {f : Value → Except Fault Value}
    (hl : l.type.admits l.width = true) (ht : t.admits l.width = true)
    (hf : ∀ word : BitVec l.width.bits, f (Value.ofWord l.type (l.sign.extend l.type.width.bits word))
      = .ok (Value.ofWord t (sign.extend t.width.bits word))) (m : Memory) (address : Value) :
    Load.apply { l with type := t, sign := sign } m address = l.apply m address >>= f := by
  rw [Load.apply_eq hl, Load.apply_eq (l := { l with type := t, sign := sign }) ht]
  cases address.asIndex with
  | error fault => rfl
  | ok ptr =>
    show (m.load ptr l.offset l.width >>= _) = (m.load ptr l.offset l.width >>= _) >>= f
    cases m.load ptr l.offset l.width with
    | error fault => rfl
    | ok word => exact (hf word).symm

/-- A store of a value of its type puts the low digits of the value into memory. -/
theorem Store.apply_eq {s : Store} {v : Value} (htype : v.type = s.type)
    (hs : s.type.admits s.width = true) (m : Memory) (a : Word .w32) :
    s.apply m (.int .w32 a) v
      = m.store (UInt32.ofBitVec a) s.offset s.width (BitVec.ofNat s.width.bits v.bits) := by
  rw [Store.apply]
  show (if _ then _ else _) = _
  rw [if_neg (not_not.mpr htype), if_pos hs]

/-! ## Loads and conversions -/

section

variable (m : Memory) (address : Value) (offset : UInt32)

/-- A load that extends a sign extends it in place. -/
theorem Load.apply_signed {w : Width} {width : AccessWidth} (h : width.bytes < w.bytes) :
    Load.apply ⟨.int w, width, .signed, offset⟩ m address
      = Load.apply ⟨.int w, width, .unsigned, offset⟩ m address >>= fun low =>
        (NumOp.convert (.extendInPlace w width.bits)).apply [low] := by
  have hadmits : ValType.admits (.int w) width = true := decide_eq_true h.le
  have hextension : Conversion.isExtension w width.bits = true := by
    cases w <;> cases width <;> first | rfl | exact absurd h (by decide)
  have hbits : width.bits ≤ w.bits := by
    cases w <;> cases width <;> first | decide | exact absurd h (by decide)
  refine Load.apply_bind (l := ⟨.int w, width, .unsigned, offset⟩) hadmits hadmits ?_ m address
  intro word
  show Conversion.apply (.extendInPlace w width.bits) (.int w (word.setWidth w.bits)) = _
  rw [Conversion.apply, if_pos hextension, Value.asInt_self]
  show Except.ok (Value.int w (((word.setWidth w.bits).setWidth width.bits).signExtend w.bits)) = _
  rw [setWidth_setWidth_self hbits]
  rfl

/-- Half a wide integer is the narrow load, extended. -/
theorem Load.apply_half (sign sign' : Signedness) :
    Load.apply ⟨.int .w64, .b32, sign, offset⟩ m address
      = Load.apply ⟨.int .w32, .b32, sign', offset⟩ m address >>= fun half =>
        (NumOp.convert (.extend sign)).apply [half] := by
  refine Load.apply_bind (l := ⟨.int .w32, .b32, sign', offset⟩) rfl rfl ?_ m address
  intro word
  show Except.ok (Value.int .w64 (sign.extend 64 (sign'.extend 32 word))) = _
  rw [sign'.extend_self]
  rfl

/-- A floating-point load is the integer load, reinterpreted. -/
theorem Load.apply_float (w : Width) (sign sign' : Signedness) :
    Load.apply ⟨.float w, w.access, sign, offset⟩ m address
      = Load.apply ⟨.int w, w.access, sign', offset⟩ m address >>= fun bits =>
        (NumOp.convert (.reinterpretInt w)).apply [bits] := by
  have hint : ValType.admits (.int w) w.access = true := by cases w <;> rfl
  have hfloat : ValType.admits (.float w) w.access = true := by cases w <;> rfl
  refine Load.apply_bind (l := ⟨.int w, w.access, sign', offset⟩) hint hfloat ?_ m address
  intro word
  have hwhole : sign.extend w.bits word = sign'.extend w.bits word := by
    cases w <;> exact (sign.extend_self word).trans (sign'.extend_self word).symm
  show Conversion.apply (.reinterpretInt w) (.int w (sign'.extend w.bits word)) = _
  rw [Conversion.apply, Value.asInt_self, ← hwhole]
  rfl

end

/-- A wide integer is its halves. -/
theorem Load.apply_halves (m : Memory) {a a' : Word .w32} {offset offset' : UInt32}
    (sign : Signedness) (h : a'.toNat + offset'.toNat = a.toNat + offset.toNat + 4) :
    Load.apply ⟨.int .w64, .b64, sign, offset⟩ m (.int .w32 a) = (do
      let low ← Load.apply ⟨.int .w64, .b32, .unsigned, offset⟩ m (.int .w32 a)
      let high ← Load.apply ⟨.int .w64, .b32, .unsigned, offset'⟩ m (.int .w32 a')
      let raised ← (NumOp.intBinary .w64 .shl).apply [high, .i64 32]
      (NumOp.intBinary .w64 .or).apply [low, raised]) := by
  have hlow : AccessWidth.b32.bytes = 4 := rfl
  have hwide : AccessWidth.b64.bytes = AccessWidth.b32.bytes + AccessWidth.b32.bytes := rfl
  by_cases hin : a.toNat + offset.toNat + AccessWidth.b64.bytes ≤ m.content.length
  · have hsplit := m.slice_add (a.toNat + offset.toNat) AccessWidth.b32.bytes AccessWidth.b32.bytes
    rw [← hwide, hlow, ← h] at hsplit
    rw [Load.apply_ok rfl _ hin, Load.apply_ok rfl _ (by omega), Load.apply_ok rfl _ (by omega)]
    show Except.ok (Value.int .w64 (sign.extend 64 (LittleEndian.decode .b64 (m.slice _ _)))) = _
    rw [sign.extend_self, hsplit, LittleEndian.decode_append (Memory.length_slice (by omega))
      (Memory.length_slice (by omega))]
    rfl
  · have hhigh : ¬ a'.toNat + offset'.toNat + AccessWidth.b32.bytes ≤ m.content.length := by omega
    rw [Load.apply_outOfBounds rfl _ hin, Load.apply_outOfBounds rfl _ hhigh]
    by_cases hfirst : a.toNat + offset.toNat + AccessWidth.b32.bytes ≤ m.content.length
    · rw [Load.apply_ok rfl _ hfirst]
      rfl
    · rw [Load.apply_outOfBounds rfl _ hfirst]
      rfl

/-! ## The codec -/

namespace Memory

/-- **Every typed access is one little-endian codec.** A store of a value in range puts the
low digits of its bits into the range, lowest first, and changes nothing else. A load of
that range, however its address is made up, gives the value back if the store was of the
whole type, and else the low bits that were kept, extended by its sign.

On every memory and at every address, a load that extends a sign is the load without
signs and an extension in place, half a wide integer is the narrow load and an extension,
a floating-point load is the integer load and a reinterpretation, and a wide integer is
the disjunction of its low half and of its high half shifted up. -/
theorem typed_access :
    (∀ (m : Memory) (s : Store) (a : Word .w32) (v : Value),
      v.type = s.type → s.type.admits s.width = true →
      a.toNat + s.offset.toNat + s.width.bytes ≤ m.content.length →
      ∃ after, s.apply m (.int .w32 a) v = .ok after
        ∧ (after.minimum = m.minimum ∧ after.current = m.current ∧ after.maximum = m.maximum)
        ∧ (∀ i, after.content[i]? =
          if a.toNat + s.offset.toNat ≤ i ∧ i < a.toNat + s.offset.toNat + s.width.bytes
          then some (UInt8.ofNat
            (v.bits % 2 ^ s.width.bits / 256 ^ (i - (a.toNat + s.offset.toNat))))
          else m.content[i]?)
        ∧ ∀ (a' : Word .w32) (offset : UInt32) (sign : Signedness),
          a'.toNat + offset.toNat = a.toNat + s.offset.toNat →
          Load.apply ⟨s.type, s.width, sign, offset⟩ after (.int .w32 a')
            = .ok (if s.width = s.type.width.access then v
              else Value.ofWord s.type
                (sign.extend s.type.width.bits (BitVec.ofNat s.width.bits v.bits))))
      ∧ (∀ (m : Memory) (address : Value) (offset : UInt32),
        let load (t : ValType) (width : AccessWidth) (sign : Signedness) : Except Fault Value :=
          Load.apply ⟨t, width, sign, offset⟩ m address
        (∀ (w : Width) (width : AccessWidth), width.bytes < w.bytes →
          load (.int w) width .signed = load (.int w) width .unsigned >>= fun low =>
            (NumOp.convert (.extendInPlace w width.bits)).apply [low])
          ∧ (∀ sign sign', load (.int .w64) .b32 sign = load (.int .w32) .b32 sign' >>= fun half =>
            (NumOp.convert (.extend sign)).apply [half])
          ∧ (∀ w sign sign', load (.float w) w.access sign
            = load (.int w) w.access sign' >>= fun bits =>
              (NumOp.convert (.reinterpretInt w)).apply [bits]))
      ∧ ∀ (m : Memory) (a a' : Word .w32) (offset offset' : UInt32) (sign : Signedness),
        a'.toNat + offset'.toNat = a.toNat + offset.toNat + 4 →
        Load.apply ⟨.int .w64, .b64, sign, offset⟩ m (.int .w32 a) = (do
          let low ← Load.apply ⟨.int .w64, .b32, .unsigned, offset⟩ m (.int .w32 a)
          let high ← Load.apply ⟨.int .w64, .b32, .unsigned, offset'⟩ m (.int .w32 a')
          let raised ← (NumOp.intBinary .w64 .shl).apply [high, .i64 32]
          (NumOp.intBinary .w64 .or).apply [low, raised]) := by
  refine ⟨?_, ?_, ?_⟩
  · rintro m ⟨t, width, offset⟩ a v rfl hadmits hin
    have hlen := LittleEndian.length_encode width (BitVec.ofNat width.bits v.bits)
    have hin' : a.toNat + offset.toNat
        + (LittleEndian.encode width (BitVec.ofNat width.bits v.bits)).length
          ≤ m.content.length := by rwa [hlen]
    refine ⟨m.overwrite (a.toNat + offset.toNat)
      (LittleEndian.encode width (BitVec.ofNat width.bits v.bits)), ?_, ⟨rfl, rfl, rfl⟩, ?_, ?_⟩
    · rw [Store.apply_eq rfl hadmits, store_eq]
      exact if_pos hin
    · intro i
      rw [getElem?_overwrite hin', hlen]
      by_cases hi : a.toNat + offset.toNat ≤ i ∧ i < a.toNat + offset.toNat + width.bytes
      · rw [if_pos hi, if_pos hi, LittleEndian.encode, LittleEndian.getElem?_digits _ _ _ (by omega),
          BitVec.toNat_ofNat]
      · rw [if_neg hi, if_neg hi]
    · intro a' offset' sign haddress
      have hload : Memory.load _ (UInt32.ofBitVec a') offset' width
          = .ok (BitVec.ofNat width.bits v.bits) :=
        load_overwrite (BitVec.ofNat width.bits v.bits) hin haddress
      rw [Load.apply_eq hadmits]
      show (Memory.load _ (UInt32.ofBitVec a') offset' width >>= _) = _
      rw [hload]
      by_cases hwhole : width = v.type.width.access
      · subst hwhole
        rw [if_pos rfl]
        exact congrArg Except.ok (v.ofWord_extend_bits sign)
      · rw [if_neg hwhole]
        rfl
  · intro m address offset
    exact ⟨fun w width h => Load.apply_signed m address offset h,
      Load.apply_half m address offset, Load.apply_float m address offset⟩
  · intro m a a' offset offset' sign h
    exact Load.apply_halves m sign h

/-- Half of a word is stored, and read back at another pointer and offset with its sign. -/
theorem typed_access_half_word :
    ∃ m after, create 1 1 = .ok m
      ∧ Store.apply ⟨.int .w32, .b16, 2⟩ m (.int .w32 3) (.int .w32 0x12348001) = .ok after
      ∧ Load.apply ⟨.int .w32, .b16, .signed, 0⟩ after (.int .w32 5)
        = .ok (.int .w32 0xffff8001) := by
  obtain ⟨m, hm⟩ : ∃ m, create 1 1 = .ok m := ⟨_, rfl⟩
  have hpage : m.content.length = 65536 := by
    rw [content_create hm, List.length_replicate]
    rfl
  obtain ⟨after, hstore, -, -, hload⟩ := typed_access.1 m ⟨.int .w32, .b16, 2⟩ 3
    (.int .w32 0x12348001) rfl rfl (by rw [hpage]; decide)
  refine ⟨m, after, hm, hstore, ?_⟩
  rw [hload 5 0 .signed rfl]
  rfl

end Memory

end WasmExec
