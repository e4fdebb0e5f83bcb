/-
The operations on a memory, in place and in machine arithmetic.

Each operation is written with every step it takes, in order, and is followed
by the lemma that it *agrees* with the one on `Memory`: the same answer, the
same memory, the same fault, and no hazard. That a fault leaves the memory as it
was is here a fact about the order of the steps, since an action keeps what it
wrote before it stopped: the ranges are tested before the first byte is
written.

What agreement needs of the memory differs. A range of two addresses and a
length never comes near the end of a 64-bit word, so words, fills and copies
agree on any memory. Copying a segment in needs that the memory has less than
`2 ^ 64` bytes, and growing needs all of `WellFormed`.

New pages are for the host to give. It is asked when all else has been checked and
nothing has been written, so a host that refuses leaves the memory as it was
(`createOn_eq`, `growOn_eq`). The definitions on `Memory` take it that the host has
the bytes, and it is on such a host that both forms agree.
-/
import WasmExec.Proofs.Machine.Action
import WasmExec.Proofs.Memory.Limits

set_option autoImplicit false

namespace WasmExec.Machine

/-! ## Ranges and words -/

/-- Where `count` bytes at `ptr + offset` start, if they all lie inside. -/
def checkedRange (ptr offset : UInt32) (count : Nat) : Action Nat := do
  let address ← add 64 ptr.toNat offset.toNat
  let stop ← add 64 address count
  -- both sums are taken before the range is known to lie inside
  let m ← get
  if m.bytes.size < stop then throw (.fault (.trap .outOfBounds)) else pure address

/-- The word at `ptr + offset`. -/
def load (ptr offset : UInt32) (width : AccessWidth) : Action (BitVec width.bits) := do
  let start ← checkedRange ptr offset width.bytes
  let stop ← add 64 start width.bytes
  match LittleEndian.read? width (← slice start stop) with
  | some word => pure word
  | none => throw (.hazard .slice)

/-- Puts a word at `ptr + offset`. -/
def store (ptr offset : UInt32) (width : AccessWidth) (word : BitVec width.bits) :
    Action Unit := do
  let start ← checkedRange ptr offset width.bytes
  let stop ← add 64 start width.bytes
  match LittleEndian.write? width word (← slice start stop) with
  | some bytes => replace start stop bytes
  | none => throw (.hazard .slice)

/-- No sum of two addresses and a length comes near the end of a 64-bit word. -/
theorem checkedRange_eq (m : Memory) (ptr offset : UInt32) (count : Nat)
    (hcount : count ≤ 4294967296) :
    checkedRange ptr offset count m
      = if m.contains (ptr.toNat + offset.toNat) count then .ok (ptr.toNat + offset.toNat) m
        else .error (.fault (.trap .outOfBounds)) m := by
  have hptr := ptr.toNat_lt
  have hoffset := offset.toNat_lt
  rw [checkedRange, bind_ok (add_eq (by omega) m), bind_ok (add_eq (by omega) m),
    bind_ok (get_eq m)]
  by_cases hin : m.contains (ptr.toNat + offset.toNat) count = true
  · have hle := (m.contains_iff _ _).mp hin
    rw [Memory.length_content] at hle
    rw [if_pos hin, if_neg (by omega)]
    rfl
  · have hnot : ¬ ptr.toNat + offset.toNat + count ≤ m.bytes.size := by
      rw [← Memory.length_content]
      exact fun hle => hin ((m.contains_iff _ _).mpr hle)
    rw [if_neg hin, if_pos (by omega)]
    rfl

theorem bytes_le (width : AccessWidth) : width.bytes ≤ 8 := by
  cases width <;> decide

theorem load_agrees (m : Memory) (ptr offset : UInt32) (width : AccessWidth) :
    load ptr offset width m = settle m ((m.load ptr offset width).map fun word => (word, m)) := by
  have hwidth := bytes_le width
  have hptr := ptr.toNat_lt
  have hoffset := offset.toNat_lt
  have hrange := checkedRange_eq m ptr offset width.bytes (by omega)
  unfold load Memory.load
  by_cases hin : m.contains (ptr.toNat + offset.toNat) width.bytes = true
  · have hle := (m.contains_iff _ _).mp hin
    -- the slice has exactly the length that the codec reads
    have hread : LittleEndian.read? width (m.slice (ptr.toNat + offset.toNat) width.bytes)
        = some (LittleEndian.decode width (m.slice (ptr.toNat + offset.toNat) width.bytes)) := by
      rw [LittleEndian.read?, if_pos (by rw [Memory.length_slice hle]),
        List.take_of_length_le (by rw [Memory.length_slice hle])]
    rw [if_pos hin] at hrange
    rw [bind_ok hrange, bind_ok (add_eq (by omega) m), bind_ok (slice_eq hle), hread]
    simp only [if_pos hin]
    rfl
  · rw [if_neg hin] at hrange
    rw [bind_error hrange]
    simp only [if_neg hin]
    rfl

theorem store_agrees (m : Memory) (ptr offset : UInt32) (width : AccessWidth)
    (word : BitVec width.bits) :
    store ptr offset width word m
      = settle m ((m.store ptr offset width word).map fun after => ((), after)) := by
  have hwidth := bytes_le width
  have hptr := ptr.toNat_lt
  have hoffset := offset.toNat_lt
  have hrange := checkedRange_eq m ptr offset width.bytes (by omega)
  unfold store Memory.store
  by_cases hin : m.contains (ptr.toNat + offset.toNat) width.bytes = true
  · have hle := (m.contains_iff _ _).mp hin
    -- the codec replaces the whole slice, so nothing of the old bytes is left
    have hwrite : LittleEndian.write? width word (m.slice (ptr.toNat + offset.toNat) width.bytes)
        = some (LittleEndian.encode width word) := by
      rw [LittleEndian.write?, if_pos (by rw [Memory.length_slice hle]),
        List.drop_of_length_le (by rw [Memory.length_slice hle]), List.append_nil]
    rw [if_pos hin] at hrange
    rw [bind_ok hrange, bind_ok (add_eq (by omega) m), bind_ok (slice_eq hle), hwrite]
    simp only [if_pos hin]
    rw [replace_eq hle (LittleEndian.length_encode _ _)]
    rfl
  · rw [if_neg hin] at hrange
    rw [bind_error hrange]
    simp only [if_neg hin]
    rfl

/-! ## Ranges of bytes -/

/-- Copies a data segment in. A sum that does not fit its word is a segment that
does not fit the memory. -/
def init (offset : UInt32) (bytes : List UInt8) : Action Unit := do
  let m ← get
  if offset.toNat + bytes.length < 2 ^ 64 ∧ offset.toNat + bytes.length ≤ m.bytes.size then
    replace offset.toNat (offset.toNat + bytes.length) bytes
  else throw (.fault (.link .segmentDoesNotFit))

/-- Sets every byte of a range to one value. -/
def fill (dst : UInt32) (value : UInt8) (count : UInt32) : Action Unit := do
  let start ← checkedRange dst 0 count.toNat
  let stop ← add 64 start count.toNat
  replace start stop (List.replicate (stop - start) value)

/-- Copies a range to another place. -/
def copy (dst src count : UInt32) : Action Unit := do
  let src ← checkedRange src 0 count.toNat
  let dst ← checkedRange dst 0 count.toNat
  let stop ← add 64 src count.toNat
  moveWithin src stop dst

theorem init_agrees {m : Memory} (hm : m.WellFormed) (offset : UInt32) (bytes : List UInt8) :
    init offset bytes m = settle m ((m.init offset bytes).map fun after => ((), after)) := by
  have hsize := hm.size_le
  unfold init Memory.init
  rw [bind_ok (get_eq m)]
  by_cases hin : m.contains offset.toNat bytes.length = true
  · have hle := (m.contains_iff _ _).mp hin
    -- the end is inside the memory, and the memory is far smaller than a word counts
    have hle' := hle
    rw [Memory.length_content] at hle'
    rw [if_pos hin, if_pos ⟨by omega, hle'⟩, replace_eq hle rfl]
    rfl
  · have hnot : ¬ offset.toNat + bytes.length ≤ m.bytes.size := by
      rw [← Memory.length_content]
      exact fun hle => hin ((m.contains_iff _ _).mpr hle)
    rw [if_neg hin, if_neg (fun h => hnot h.2)]
    rfl

theorem fill_agrees (m : Memory) (dst : UInt32) (value : UInt8) (count : UInt32) :
    fill dst value count m
      = settle m ((m.fill dst value count).map fun after => ((), after)) := by
  have hdst := dst.toNat_lt
  have hcount := count.toNat_lt
  have hrange := checkedRange_eq m dst 0 count.toNat (by omega)
  rw [UInt32.toNat_zero, Nat.add_zero] at hrange
  unfold fill Memory.fill
  by_cases hin : m.contains dst.toNat count.toNat = true
  · have hle := (m.contains_iff _ _).mp hin
    rw [if_pos hin] at hrange
    rw [bind_ok hrange, bind_ok (add_eq (by omega) m), if_pos hin, Nat.add_sub_cancel_left,
      replace_eq hle List.length_replicate]
    rfl
  · rw [if_neg hin] at hrange
    rw [bind_error hrange, if_neg hin]
    rfl

theorem copy_agrees (m : Memory) (dst src count : UInt32) :
    copy dst src count m = settle m ((m.copy dst src count).map fun after => ((), after)) := by
  have hdst := dst.toNat_lt
  have hsrc := src.toNat_lt
  have hcount := count.toNat_lt
  have hread := checkedRange_eq m src 0 count.toNat (by omega)
  have hwrite := checkedRange_eq m dst 0 count.toNat (by omega)
  rw [UInt32.toNat_zero, Nat.add_zero] at hread hwrite
  unfold copy Memory.copy
  by_cases hin : m.contains src.toNat count.toNat = true
  · have hle := (m.contains_iff _ _).mp hin
    rw [if_pos hin] at hread
    rw [bind_ok hread, hin, Bool.true_and]
    by_cases hin' : m.contains dst.toNat count.toNat = true
    · have hle' := (m.contains_iff _ _).mp hin'
      rw [if_pos hin'] at hwrite
      rw [bind_ok hwrite, bind_ok (add_eq (by omega) m), if_pos hin', moveWithin_eq hle hle']
      rfl
    · rw [if_neg hin'] at hwrite
      rw [bind_error hwrite, if_neg hin']
      rfl
  · rw [if_neg hin] at hread
    rw [bind_error hread, if_neg (by rw [Bool.and_eq_true]; exact fun h => hin h.1)]
    rfl

/-! ## Pages -/

/-- A new memory of zeros, on a host that may not have the bytes. -/
def createOn (host : Host) (minimum maximum : UInt32) : Except Fault Memory := do
  if Memory.pageLimit < minimum.toNat then .error (.validation .memoryTooLarge)
  else if min maximum.toNat Memory.pageLimit < minimum.toNat then
    .error (.validation .minimumAboveMaximum)
  else
    let size ← pagesToBytes minimum.toNat
    reserve host size
    return {
      bytes := resized ByteArray.empty size
      minimum := minimum.toNat
      current := minimum.toNat
      maximum := min maximum.toNat Memory.pageLimit }

/-- On a host that always has the bytes. -/
def create : UInt32 → UInt32 → Except Fault Memory := createOn .ample

/-- Grows the memory, and gives the number of pages before. The host may not have the bytes. -/
def growOn (host : Host) (delta : UInt32) : Action (Word .w32) := do
  let old ← get
  if delta = 0 then toSigned old.current
  else
    let room ← sub old.maximum old.current
    if room < delta.toNat then pure Memory.growFailed
    else
      let size ← pagesToBytes (← add 32 old.current delta.toNat)
      -- the host is asked for the bytes that are missing
      reserve host (← sub size old.bytes.size)
      modify fun m => { m with bytes := resized m.bytes size }
      let pages ← add 32 old.current delta.toNat
      modify fun m => { m with current := pages }
      toSigned old.current

/-- On a host that always has them. -/
def grow : UInt32 → Action (Word .w32) := growOn .ample

/-- **A memory is made** where the limits allow it and the host has its bytes. The host is asked
last. -/
theorem createOn_eq (host : Host) (minimum maximum : UInt32) :
    createOn host minimum maximum = Memory.create minimum maximum >>= fun m =>
      if host m.bytes.size then .ok m else .error noMemory := by
  rcases Memory.create_cases minimum maximum with ⟨hlarge, he⟩ | ⟨hfits, habove, he⟩ | ⟨hle, he⟩
  · rw [createOn, if_pos hlarge, he]
    rfl
  · rw [createOn, if_neg (by omega), if_pos habove, he]
    rfl
  · have hfits : minimum.toNat ≤ Memory.pageLimit := le_trans hle (min_le_right _ _)
    have hrow : resized ByteArray.empty (minimum.toNat * Memory.pageSize)
        = Memory.addPages ByteArray.empty minimum.toNat := by
      have hempty : ByteArray.empty.size = 0 * Memory.pageSize := rfl
      rw [← resized_eq_addPages hempty, Nat.zero_add]
    have hsize : (Memory.addPages ByteArray.empty minimum.toNat).size
        = minimum.toNat * Memory.pageSize := by
      rw [Memory.size_addPages, ByteArray.size_empty, Nat.zero_add]
    rw [createOn, if_neg (by omega), if_neg (by omega), pagesToBytes_eq hfits, he]
    change (reserve host (minimum.toNat * Memory.pageSize) >>= fun _ => Except.ok _)
      = if host (Memory.addPages ByteArray.empty minimum.toNat).size then .ok _ else .error noMemory
    -- only the host's answer is left
    rw [hrow, hsize]
    by_cases hhost : host (minimum.toNat * Memory.pageSize) = true
    · rw [reserve_eq hhost, if_pos hhost]
      rfl
    · rw [reserve_eq_noMemory hhost, if_neg hhost]
      rfl

theorem create_eq (minimum maximum : UInt32) :
    create minimum maximum = Memory.create minimum maximum := by
  rw [create, createOn_eq]
  cases Memory.create minimum maximum <;> rfl

/-- **A memory grows** where the maximum allows it and the host has the bytes, and where the host
has not, the memory is as it was. -/
theorem growOn_eq {m : Memory} (hm : m.WellFormed) (host : Host) (delta : UInt32) :
    growOn host delta m
      = if delta = 0 ∨ m.maximum < m.current + delta.toNat
          ∨ host (delta.toNat * Memory.pageSize) = true
        then .ok (m.grow delta).1 (m.grow delta).2 else .error (.fault noMemory) m := by
  have hcur := hm.current_le
  have hmax := hm.maximum_le
  rw [Memory.pageLimit] at hmax
  rw [growOn, bind_ok (get_eq m)]
  by_cases hzero : delta = 0
  · -- adding no page is answered early, and it is what adding pages would do
    rw [if_pos hzero, if_pos (.inl hzero), toSigned_eq (by omega), hzero]
    rcases m.grow_cases 0 with ⟨-, h⟩ | ⟨hfull, -⟩
    · rw [h]
      rfl
    · exact absurd hfull (Nat.not_lt_zero _)
  · rw [if_neg hzero, bind_ok (sub_eq hcur m)]
    rcases m.grow_cases delta with ⟨hroom, h⟩ | ⟨hfull, h⟩
    · -- every later step is safe because the new size is at most the page limit
      have hpages : m.current + delta.toNat ≤ Memory.pageLimit := by
        rw [Memory.pageLimit]
        omega
      have hmissing : (m.current + delta.toNat) * Memory.pageSize - m.bytes.size
          = delta.toNat * Memory.pageSize := by
        rw [hm.size_eq, Nat.add_mul, Nat.add_sub_cancel_left]
      have hmore : m.bytes.size ≤ (m.current + delta.toNat) * Memory.pageSize := by
        rw [hm.size_eq, Nat.add_mul]
        exact Nat.le_add_right _ _
      have hsum : ∀ m', add 32 m.current delta.toNat m' = .ok (m.current + delta.toNat) m' :=
        add_eq (by omega)
      have hnew : resized m.bytes ((m.current + delta.toNat) * Memory.pageSize)
          = Memory.addPages m.bytes delta.toNat := resized_eq_addPages hm.size_eq
      rw [if_neg (by omega), bind_ok (hsum m), pagesToBytes_eq hpages, bind_ok (lift_ok _ m),
        bind_ok (sub_eq hmore m), hmissing]
      by_cases hhost : host (delta.toNat * Memory.pageSize) = true
      · rw [reserve_eq hhost, bind_ok (lift_ok _ m), bind_ok (modify_eq _ m), bind_ok (hsum _),
          bind_ok (modify_eq _ _), toSigned_eq (by omega), if_pos (.inr (.inr hhost)), h, hnew]
      · have hrefused : ¬ (delta = 0 ∨ m.maximum < m.current + delta.toNat
            ∨ host (delta.toNat * Memory.pageSize) = true) := by
          rintro (h | h | h)
          · exact hzero h
          · omega
          · exact hhost h
        rw [reserve_eq_noMemory hhost, if_neg hrefused]
        rfl
    · have hover : m.maximum < m.current + delta.toNat := by omega
      rw [if_pos hfull, if_pos (.inr (.inl hover)), h]
      rfl

theorem grow_agrees {m : Memory} (hm : m.WellFormed) (delta : UInt32) :
    grow delta m = .ok (m.grow delta).1 (m.grow delta).2 := by
  rw [grow, growOn_eq hm, if_pos (.inr (.inr rfl))]

theorem growOn_cases {m : Memory} (hm : m.WellFormed) (host : Host) (delta : UInt32) :
    growOn host delta m = grow delta m ∨ growOn host delta m = .error (.fault noMemory) m := by
  rw [grow_agrees hm, growOn_eq hm]
  split
  · exact .inl rfl
  · exact .inr rfl

/-! ## Operations -/

/-- **Performs an operation in place.** -/
def perform : Operation → Action Answer
  | .init offset bytes => do
    init offset bytes
    return .done
  | .fill dst value count => do
    fill dst value count
    return .done
  | .copy dst src count => do
    copy dst src count
    return .done
  | .grow delta => return .pages (← grow delta)
  | .store scalar ptr offset word => do
    store ptr offset scalar.access word
    return .done
  | .load scalar ptr offset => return .word scalar.access (← load ptr offset scalar.access)

/-- **No operation meets a hazard on a memory that a host can have**, and in
place it does what the definition on `Memory` says. -/
theorem perform_agrees {m : Memory} (hm : m.WellFormed) (op : Operation) :
    perform op m = settle m (m.perform op) := by
  cases op with
  | init offset bytes => exact map_agrees (fun _ => Answer.done) (init_agrees hm offset bytes)
  | fill dst value count => exact map_agrees (fun _ => Answer.done) (fill_agrees m dst value count)
  | copy dst src count => exact map_agrees (fun _ => Answer.done) (copy_agrees m dst src count)
  | grow delta => exact bind_ok (grow_agrees hm delta)
  | store scalar ptr offset word =>
    exact map_agrees (fun _ => Answer.done) (store_agrees m ptr offset scalar.access word)
  | load scalar ptr offset =>
    exact map_agrees (Answer.word scalar.access) (load_agrees m ptr offset scalar.access)

end WasmExec.Machine
