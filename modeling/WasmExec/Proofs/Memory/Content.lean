/-
The bytes of a memory as a list, and what each primitive does to them.

A memory keeps its bytes packed, and every operation on it comes down to three
primitives: cutting a slice out, overwriting a range, and appending pages. This
file says what the three do to `content`, the plain list of the bytes, and
nothing after it looks inside the packed form again.

Two facts carry the rest. `getElem?_overwrite` reads one index after a write:
the new byte inside the range and the old one outside it. `toList_addPages`
says that a new page is a row of zeros behind everything that was there.
-/
import WasmExec.Memory
import Mathlib.Tactic.Ring

set_option autoImplicit false

namespace WasmExec

/-! ## The digits of a word -/

namespace LittleEndian

theorem length_digits (n v : Nat) : (digits n v).length = n := by
  induction n generalizing v with
  | zero => rfl
  | succ n ih => rw [digits, List.length_cons, ih]

/-- Digit `k` counts the multiples of `256 ^ k`. -/
theorem getElem?_digits (n v k : Nat) (hk : k < n) :
    (digits n v)[k]? = some (UInt8.ofNat (v / 256 ^ k)) := by
  induction n generalizing v k with
  | zero => omega
  | succ n ih =>
    rw [digits]
    cases k with
    | zero => simp only [List.getElem?_cons_zero, pow_zero, Nat.div_one]
    | succ k =>
      rw [List.getElem?_cons_succ, ih (v / 256) k (by omega), Nat.div_div_eq_div_mul]
      congr 3
      ring

theorem length_encode (width : AccessWidth) (v : BitVec width.bits) :
    (encode width v).length = width.bytes := length_digits _ _

end LittleEndian

namespace Memory

/-! ## The bytes of a memory -/

/-- **The bytes of a memory**, from index zero on. -/
def content (m : Memory) : List UInt8 := m.bytes.data.toList

theorem length_content (m : Memory) : m.content.length = m.bytes.size := by
  rw [content, Array.length_toList, ByteArray.size_data]

theorem contains_iff (m : Memory) (start count : Nat) :
    m.contains start count = true ↔ start + count ≤ m.content.length := by
  rw [contains, decide_eq_true_eq, length_content]

/-! ## Slices -/

theorem slice_eq (m : Memory) (start count : Nat) :
    m.slice start count = (m.content.drop start).take count := by
  rw [slice, ByteArray.data_extract, Array.toList_extract, List.extract_eq_take_drop,
    Nat.add_sub_cancel_left, content]

theorem length_slice {m : Memory} {start count : Nat}
    (h : start + count ≤ m.content.length) : (m.slice start count).length = count := by
  rw [slice_eq, List.length_take, List.length_drop]
  omega

theorem getElem?_slice (m : Memory) (start count k : Nat) (hk : k < count) :
    (m.slice start count)[k]? = m.content[start + k]? := by
  rw [slice_eq, List.getElem?_take_of_lt hk, List.getElem?_drop]

/-! ## Overwriting -/

theorem content_overwrite (m : Memory) (start : Nat) (bytes : List UInt8) :
    (m.overwrite start bytes).content
      = m.content.take start ++ bytes ++ m.content.drop (start + bytes.length) := by
  have hrow : bytes.toByteArray.data.toList = bytes := by
    rw [List.data_toByteArray]
  have hlen : bytes.toByteArray.data.size = bytes.length := by
    rw [List.data_toByteArray, List.size_toArray]
  have htake : bytes.toByteArray.data.toList.extract 0 (0 + bytes.length) = bytes := by
    rw [hrow, List.extract_eq_take_drop, List.drop_zero, Nat.zero_add, Nat.sub_zero,
      List.take_length]
  -- the packed copy is three extracts side by side: in front, the new row, behind
  rw [content, overwrite, ByteArray.copySlice, hlen]
  simp only [Array.toList_append, Array.toList_extract, htake, Nat.sub_zero, Nat.min_self]
  have hrest : (m.bytes.data.toList.drop (start + bytes.length)).take
      (m.bytes.data.size - (start + bytes.length))
        = m.bytes.data.toList.drop (start + bytes.length) :=
    List.take_of_length_le (by rw [List.length_drop, Array.length_toList])
  rw [List.extract_eq_take_drop, List.extract_eq_take_drop, List.drop_zero, Nat.sub_zero, hrest,
    content]

theorem length_overwrite {m : Memory} {start : Nat} {bytes : List UInt8}
    (h : start + bytes.length ≤ m.content.length) :
    (m.overwrite start bytes).content.length = m.content.length := by
  rw [content_overwrite]
  simp only [List.length_append, List.length_take, List.length_drop]
  omega

/-- **One index after a write.** Inside the range it holds the new byte, and
outside it the old one. -/
theorem getElem?_overwrite {m : Memory} {start : Nat} {bytes : List UInt8}
    (h : start + bytes.length ≤ m.content.length) (i : Nat) :
    (m.overwrite start bytes).content[i]?
      = if start ≤ i ∧ i < start + bytes.length then bytes[i - start]? else m.content[i]? := by
  have hfront : (m.content.take start).length = start := by
    rw [List.length_take]
    omega
  rw [content_overwrite, List.append_assoc]
  -- before the range, in it, behind it
  by_cases hlow : i < start
  · rw [if_neg (by omega), List.getElem?_append_left (by omega), List.getElem?_take_of_lt hlow]
  · rw [List.getElem?_append_right (by omega), hfront]
    by_cases hhigh : i < start + bytes.length
    · rw [if_pos ⟨by omega, hhigh⟩, List.getElem?_append_left (by omega)]
    · rw [if_neg (by omega), List.getElem?_append_right (by omega), List.getElem?_drop]
      congr 1
      omega

/-! ## New pages -/

theorem toList_zeroPage : zeroPage.data.toList = List.replicate pageSize 0 :=
  Array.toList_replicate

theorem toList_addPages (bytes : ByteArray) (n : Nat) :
    (addPages bytes n).data.toList = bytes.data.toList ++ List.replicate (n * pageSize) 0 := by
  induction n generalizing bytes with
  | zero => rw [addPages, Nat.zero_mul, List.replicate_zero, List.append_nil]
  | succ n ih =>
    rw [addPages, ih, ByteArray.data_append, Array.toList_append, toList_zeroPage,
      List.append_assoc, List.replicate_append_replicate]
    congr 2
    ring

theorem size_addPages (bytes : ByteArray) (n : Nat) :
    (addPages bytes n).size = bytes.size + n * pageSize := by
  rw [← ByteArray.size_data, ← Array.length_toList, toList_addPages, List.length_append,
    List.length_replicate, Array.length_toList, ByteArray.size_data]

end Memory

end WasmExec
