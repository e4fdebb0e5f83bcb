/-
A bulk instruction and the loop of single bytes that it stands for.

A copy reads its source in full before it writes, so overlapping ranges need no care. The loop
that loads and stores one byte after the other does need it: it must never read a place that it
has written. Going upwards it is safe where the target is not behind the source, going
downwards where the target is not in front of it, and in both cases for the same reason: the
bytes still to be read and the places already written are disjoint
(`Memory.slice_overwrite_of_disjoint`), and the place written next lies right beside them
(`Memory.overwrite_append`).

A fill reads nothing, so its loop may take the places in any order; what it leaves is told by
which places are among those taken.

The single steps are the two instructions themselves, run in place as the bulk instruction is.
A pointer plus a place in a range is a word there, and does not wrap while it is inside the
memory.
-/
import WasmExec.Mnemonic
import WasmExec.Proofs.Instruction.Bounds

set_option autoImplicit false

namespace WasmExec

/-! ## Writes side by side -/

namespace Memory

/-- A memory is its bytes and its limits. -/
theorem eq_of_content {m m' : Memory} (hcontent : m.content = m'.content)
    (hmin : m.minimum = m'.minimum) (hcur : m.current = m'.current)
    (hmax : m.maximum = m'.maximum) : m = m' := by
  have hbytes : m.bytes = m'.bytes := ByteArray.ext (Array.toList_inj.mp hcontent)
  obtain ⟨bytes, minimum, current, maximum⟩ := m
  subst hbytes hmin hcur hmax
  rfl

@[simp] theorem overwrite_nil (m : Memory) (start : Nat) : m.overwrite start [] = m := by
  refine eq_of_content ?_ rfl rfl rfl
  rw [content_overwrite]
  simp

/-- A write right behind another one makes it longer, and so does one right in front. -/
theorem overwrite_append (m : Memory) (start : Nat) (front back : List UInt8)
    (h : start + (front.length + back.length) ≤ m.content.length) :
    (m.overwrite start front).overwrite (start + front.length) back
        = m.overwrite start (front ++ back)
      ∧ (m.overwrite (start + front.length) back).overwrite start front
        = m.overwrite start (front ++ back) := by
  have hfront : start + front.length ≤ m.content.length := by omega
  have hback : start + front.length + back.length ≤ m.content.length := by omega
  have hboth : start + (front ++ back).length ≤ m.content.length := by rwa [List.length_append]
  constructor
  · refine eq_of_content (List.ext_getElem? fun i => ?_) rfl rfl rfl
    rw [getElem?_overwrite (by rwa [length_overwrite hfront]), getElem?_overwrite hfront,
      getElem?_overwrite hboth, List.getElem?_append, List.length_append]
    grind
  · refine eq_of_content (List.ext_getElem? fun i => ?_) rfl rfl rfl
    rw [getElem?_overwrite (by rwa [length_overwrite hback]), getElem?_overwrite hback,
      getElem?_overwrite hboth, List.getElem?_append, List.length_append]
    grind

/-- A write beside a range does not show in it. -/
theorem slice_overwrite_of_disjoint {m : Memory} {start count place : Nat} {bytes : List UInt8}
    (h : place + bytes.length ≤ m.content.length)
    (hdisjoint : start + count ≤ place ∨ place + bytes.length ≤ start) :
    (m.overwrite place bytes).slice start count = m.slice start count := by
  rw [slice_eq, slice_eq]
  apply List.ext_getElem?
  intro k
  by_cases hk : k < count
  · rw [List.getElem?_take_of_lt hk, List.getElem?_take_of_lt hk, List.getElem?_drop,
      List.getElem?_drop, getElem?_overwrite h, if_neg (by omega)]
  · rw [List.getElem?_take_eq_none (by omega), List.getElem?_take_eq_none (by omega)]

theorem WellFormed.overwrite {m : Memory} (hm : m.WellFormed) {start : Nat} {bytes : List UInt8}
    (h : start + bytes.length ≤ m.content.length) : (m.overwrite start bytes).WellFormed := by
  refine ⟨hm.minimum_le, hm.current_le, hm.maximum_le, ?_⟩
  rw [← length_content, length_overwrite h, length_content]
  exact hm.size_eq

end Memory

/-! ## Single bytes -/

namespace Machine

open Instruction (execute_load execute_store execute_in_place)

/-- An instruction on a memory that is there, as a computation. -/
def act (i : Instruction) (args : List Value) : Action (Option Value) := fun m =>
  match execute i (some m) args with
  | (.ok pushed, after) => .ok pushed (after.getD m)
  | (.error stop, after) => .error stop (after.getD m)

/-- The load of one byte without a sign. -/
def byteLoad : Instruction := .load ⟨.i32, .b8, .unsigned, 0⟩

/-- The store of one byte. -/
def byteStore : Instruction := .store ⟨.i32, .b8, 0⟩

example : Instruction.parse "i32.load8_u" = .ok byteLoad
    ∧ Instruction.parse "i32.store8" = .ok byteStore := by decide

/-- **One byte of a copy**: what the load pushes is what is stored. -/
def copyByte (dst src : UInt32) (k : Nat) : Action Unit := do
  let loaded ← act byteLoad [.i32 (src + .ofNat k).toBitVec]
  let _ ← act byteStore (.i32 (dst + .ofNat k).toBitVec :: loaded.toList)

/-- **One byte of a fill.** -/
def fillByte (dst : UInt32) (value : Word .w32) (k : Nat) : Action Unit := do
  let _ ← act byteStore [.i32 (dst + .ofNat k).toBitVec, .i32 value]

section

variable {m : Memory}

/-- No address inside a memory that a host can have wraps. -/
theorem toNat_address (hm : m.WellFormed) {p : UInt32} {k : Nat}
    (h : p.toNat + k < m.content.length) : (p + .ofNat k).toBitVec.toNat = p.toNat + k := by
  have hsize := hm.size_le
  rw [m.length_content] at h
  have hk : (UInt32.ofNat k).toNat = k := UInt32.toNat_ofNat_of_lt' (by rw [UInt32.size]; omega)
  show (p + .ofNat k).toNat = _
  rw [UInt32.toNat_add, hk, Nat.mod_eq_of_lt (by omega)]

/-- An instruction that succeeds, as a computation. -/
theorem act_ok (hm : m.WellFormed) {i : Instruction} {args : List Value} {pushed : Option Value}
    {after : Memory} (h : i.execute (some m) args = (.ok pushed, some after)) :
    act i args m = .ok pushed after := by
  have hsome : ∀ m' ∈ some m, m'.WellFormed := by
    rintro m' ⟨⟩
    exact hm
  have hplace : execute i (some m) args = (.ok pushed, some after) := by
    rw [execute_agrees hsome, h]
    rfl
  rw [act, hplace]
  rfl

/-- A word of eight bits lies in memory as one byte. -/
theorem encode_byte (n : Nat) :
    LittleEndian.encode .b8 (BitVec.ofNat 8 n) = [UInt8.ofNat n] := by
  show [UInt8.ofNat (BitVec.ofNat 8 n).toNat] = _
  rw [BitVec.toNat_ofNat, List.singleton_inj, ← UInt8.toNat_inj, UInt8.toNat_ofNat',
    UInt8.toNat_ofNat', Nat.mod_mod]

/-- A byte is stored as the lowest byte of a value. -/
theorem execute_byteStore (m : Memory) (a v : Word .w32) :
    byteStore.execute (some m) [.i32 a, .i32 v]
      = if a.toNat + 1 ≤ m.bytes.size
        then (.ok none, some (m.overwrite a.toNat [UInt8.ofNat v.toNat]))
        else (.error (.trap .outOfBounds), some m) := by
  have h := execute_store m a 0 (s := ⟨.i32, .b8, 0⟩) (v := .i32 v) rfl rfl
  rw [UInt32.toNat_zero, Nat.add_zero] at h
  have hencode : LittleEndian.encode .b8 (BitVec.ofNat AccessWidth.b8.bits (Value.i32 v).bits)
      = [UInt8.ofNat v.toNat] := encode_byte v.toNat
  rw [hencode] at h
  exact h

theorem execute_byteLoad (m : Memory) (a : Word .w32) :
    byteLoad.execute (some m) [.i32 a]
      = if a.toNat + 1 ≤ m.bytes.size
        then (.ok (some (.i32 ((LittleEndian.decode .b8 (m.slice a.toNat 1)).setWidth 32))),
          some m)
        else (.error (.trap .outOfBounds), some m) := by
  have h := execute_load m a 0 (l := ⟨.i32, .b8, .unsigned, 0⟩) rfl
  rw [UInt32.toNat_zero, Nat.add_zero] at h
  exact h

theorem act_byteStore (hm : m.WellFormed) {p : UInt32} {k : Nat} (v : Word .w32)
    (h : p.toNat + k < m.content.length) :
    act byteStore [.i32 (p + .ofNat k).toBitVec, .i32 v] m
      = .ok none (m.overwrite (p.toNat + k) [UInt8.ofNat v.toNat]) := by
  have hstore := execute_byteStore m (p + .ofNat k).toBitVec v
  rw [toNat_address hm h, if_pos (by rwa [← m.length_content])] at hstore
  exact act_ok hm hstore

theorem act_byteLoad (hm : m.WellFormed) {p : UInt32} {k : Nat}
    (h : p.toNat + k < m.content.length) :
    act byteLoad [.i32 (p + .ofNat k).toBitVec] m
      = .ok (some (.i32 ((LittleEndian.decode .b8 (m.slice (p.toNat + k) 1)).setWidth 32))) m := by
  have hload := execute_byteLoad m (p + .ofNat k).toBitVec
  rw [toNat_address hm h, if_pos (by rwa [← m.length_content])] at hload
  exact act_ok hm hload

theorem ofNat_decode_byte (b : UInt8) :
    UInt8.ofNat (BitVec.setWidth 32 (LittleEndian.decode .b8 [b])).toNat = b := by
  have hdecode : (LittleEndian.decode .b8 [b]).toNat = b.toNat := LittleEndian.toNat_decode rfl
  have hlt : b.toNat < 2 ^ 32 := b.toNat_lt.trans (by decide)
  rw [BitVec.toNat_setWidth, hdecode, Nat.mod_eq_of_lt hlt, UInt8.ofNat_toNat]

/-- A byte that is loaded and stored again is copied. -/
theorem copyByte_eq (hm : m.WellFormed) (dst src : UInt32) (k : Nat)
    (hsrc : src.toNat + k < m.content.length) (hdst : dst.toNat + k < m.content.length) :
    copyByte dst src k m = .ok () (m.overwrite (dst.toNat + k) (m.slice (src.toNat + k) 1)) := by
  have hlength : (m.slice (src.toNat + k) 1).length = 1 := m.length_slice hsrc
  obtain ⟨b, hb⟩ := List.length_eq_one_iff.mp hlength
  rw [copyByte, bind_ok (act_byteLoad hm hsrc), hb, Option.toList_some,
    bind_ok (act_byteStore hm _ hdst), ofNat_decode_byte]
  rfl

theorem fillByte_eq (hm : m.WellFormed) {dst : UInt32} (value : Word .w32) {k : Nat}
    (h : dst.toNat + k < m.content.length) :
    fillByte dst value k m
      = .ok () (m.overwrite (dst.toNat + k) [UInt8.ofNat value.toNat]) := by
  rw [fillByte, bind_ok (act_byteStore hm value h)]
  rfl

/-! ## Loops -/

/-- A loop goes on where its first part stopped. -/
theorem forM_append_ok {α : Type} {f : α → Action PUnit} {front back : List α} {m' : Memory}
    (h : forM front f m = .ok ⟨⟩ m') : forM (front ++ back) f m = forM back f m' := by
  rw [List.forM_append, bind_ok h]

theorem forM_singleton {α : Type} (f : α → Action PUnit) (a : α) : forM [a] f = f a := by
  rw [List.forM_cons, List.forM_nil, bind_pure_unit]

/-- **Upwards.** Where the target is not behind the source, what has been written is never in
front of the bytes that are still to be read. -/
theorem copyByte_ascending (hm : m.WellFormed) {dst src : UInt32} (hle : dst.toNat ≤ src.toNat)
    {n : Nat} (hin : src.toNat + n ≤ m.content.length) :
    forM (List.range n) (copyByte dst src) m
      = .ok ⟨⟩ (m.overwrite dst.toNat (m.slice src.toNat n)) := by
  induction n with
  | zero =>
    have hempty : m.slice src.toNat 0 = [] := by rw [m.slice_eq, List.take_zero]
    rw [hempty, m.overwrite_nil]
    rfl
  | succ n ih =>
    have hslice : (m.slice src.toNat n).length = n := m.length_slice (by omega)
    have hbyte : (m.slice (src.toNat + n) 1).length = 1 := m.length_slice (by omega)
    have hwrite : dst.toNat + (m.slice src.toNat n).length ≤ m.content.length := by omega
    -- the byte that comes next is behind all that has been written
    have hunread : (m.overwrite dst.toNat (m.slice src.toNat n)).slice (src.toNat + n) 1
        = m.slice (src.toNat + n) 1 := m.slice_overwrite_of_disjoint hwrite (.inr (by omega))
    have hstep := copyByte_eq (hm.overwrite hwrite) dst src n
      (by rw [m.length_overwrite hwrite]; omega) (by rw [m.length_overwrite hwrite]; omega)
    have hjoin := (m.overwrite_append dst.toNat (m.slice src.toNat n)
      (m.slice (src.toNat + n) 1) (by omega)).1
    rw [hslice] at hjoin
    rw [List.range_succ, forM_append_ok (ih (by omega)), forM_singleton, hstep, hunread, hjoin,
      ← m.slice_add]

/-- **Downwards.** -/
theorem copyByte_descending (hm : m.WellFormed) {dst src : UInt32} (hle : src.toNat ≤ dst.toNat)
    {n : Nat} (hin : dst.toNat + n ≤ m.content.length) :
    forM (List.range n).reverse (copyByte dst src) m
      = .ok ⟨⟩ (m.overwrite dst.toNat (m.slice src.toNat n)) := by
  induction n generalizing m with
  | zero =>
    have hempty : m.slice src.toNat 0 = [] := by rw [m.slice_eq, List.take_zero]
    rw [hempty, m.overwrite_nil]
    rfl
  | succ n ih =>
    have hslice : (m.slice src.toNat n).length = n := m.length_slice (by omega)
    have hbyte : (m.slice (src.toNat + n) 1).length = 1 := m.length_slice (by omega)
    have hwrite : dst.toNat + n + (m.slice (src.toNat + n) 1).length ≤ m.content.length := by
      omega
    have hunread : (m.overwrite (dst.toNat + n) (m.slice (src.toNat + n) 1)).slice src.toNat n
        = m.slice src.toNat n := m.slice_overwrite_of_disjoint hwrite (.inl (by omega))
    have hstep : forM [n] (copyByte dst src) m
        = .ok ⟨⟩ (m.overwrite (dst.toNat + n) (m.slice (src.toNat + n) 1)) := by
      rw [forM_singleton]
      exact copyByte_eq hm dst src n (by omega) (by omega)
    have hrest := ih (hm.overwrite hwrite) (by rw [m.length_overwrite hwrite]; omega)
    have hjoin := (m.overwrite_append dst.toNat (m.slice src.toNat n)
      (m.slice (src.toNat + n) 1) (by omega)).2
    rw [hslice] at hjoin
    rw [List.range_succ, List.reverse_append, List.reverse_singleton, forM_append_ok hstep,
      hrest, hunread, hjoin, ← m.slice_add]

/-- **In any order.** -/
theorem fillByte_forM (hm : m.WellFormed) {dst : UInt32} (value : Word .w32) {ks : List Nat}
    (hin : ∀ k ∈ ks, dst.toNat + k < m.content.length) :
    ∃ after, forM ks (fillByte dst value) m = .ok ⟨⟩ after
      ∧ (after.minimum = m.minimum ∧ after.current = m.current ∧ after.maximum = m.maximum)
      ∧ ∀ i, after.content[i]?
        = if dst.toNat ≤ i ∧ i - dst.toNat ∈ ks then some (UInt8.ofNat value.toNat)
          else m.content[i]? := by
  induction ks generalizing m with
  | nil => exact ⟨m, rfl, ⟨rfl, rfl, rfl⟩, fun i => by rw [if_neg (by simp)]⟩
  | cons k ks ih =>
    have hk : dst.toNat + k < m.content.length := hin k List.mem_cons_self
    have hwrite : dst.toNat + k + [UInt8.ofNat value.toNat].length ≤ m.content.length := hk
    obtain ⟨after, hrun, hlimits, hcontent⟩ := ih (hm.overwrite hwrite) fun k' hk' => by
      rw [m.length_overwrite hwrite]
      exact hin k' (List.mem_cons_of_mem k hk')
    refine ⟨after, ?_, hlimits, fun i => ?_⟩
    · rw [List.forM_cons, bind_ok (fillByte_eq hm value hk), hrun]
    · rw [hcontent, m.getElem?_overwrite hwrite]
      by_cases hi : i = dst.toNat + k
      · subst hi
        simp
      · have hoff : ¬ (dst.toNat + k ≤ i
            ∧ i < dst.toNat + k + [UInt8.ofNat value.toNat].length) := by
          rw [List.length_singleton]
          omega
        rw [if_neg hoff]
        refine if_congr ?_ rfl rfl
        rw [List.mem_cons]
        constructor
        · rintro ⟨hle, hmem⟩
          exact ⟨hle, .inr hmem⟩
        · rintro ⟨hle, heq | hmem⟩
          · omega
          · exact ⟨hle, hmem⟩

/-- A range that is filled once for each of its places is filled. -/
theorem fillByte_perm (hm : m.WellFormed) {dst : UInt32} (value : Word .w32) {n : Nat}
    (hin : dst.toNat + n ≤ m.content.length) {ks : List Nat} (hks : ks.Perm (List.range n)) :
    forM ks (fillByte dst value) m
      = .ok ⟨⟩ (m.overwrite dst.toNat (List.replicate n (UInt8.ofNat value.toNat))) := by
  have hmem : ∀ k, k ∈ ks ↔ k < n := fun k => hks.mem_iff.trans List.mem_range
  have hplaces : ∀ k ∈ ks, dst.toNat + k < m.content.length := by
    intro k hk
    have hlt := (hmem k).mp hk
    omega
  obtain ⟨after, hrun, ⟨hmin, hcur, hmax⟩, hcontent⟩ := fillByte_forM hm value hplaces
  have hwrite : dst.toNat + (List.replicate n (UInt8.ofNat value.toNat)).length
      ≤ m.content.length := by rwa [List.length_replicate]
  rw [hrun]
  congr 1
  refine Memory.eq_of_content (List.ext_getElem? fun i => ?_) hmin hcur hmax
  rw [hcontent, m.getElem?_overwrite hwrite, List.length_replicate]
  by_cases hi : dst.toNat ≤ i ∧ i < dst.toNat + n
  · rw [if_pos hi, if_pos ⟨hi.1, (hmem _).mpr (by omega)⟩, List.getElem?_replicate,
      if_pos (by omega)]
  · rw [if_neg hi, if_neg (by rw [hmem]; omega)]

end

/-! ## Refinement -/

/-- The order in which the bytes of a copy are taken one by one. -/
def copyOrder (dst src : UInt32) (n : Nat) : List Nat :=
  if dst ≤ src then List.range n else (List.range n).reverse

/-- **A bulk instruction refines the loop of single bytes.** Where the ranges are inside the
memory, a copy leaves what loading and storing byte after byte leaves, upwards if the target is
not behind the source and else downwards, and a fill what storing its byte leaves, whatever
order the places are taken in. Where a range ends behind the memory the instruction traps and
has written nothing, although the loop, until it is there, writes every byte. -/
theorem bulk_refines_bytes {m : Memory} (hm : m.WellFormed) :
    (∀ dst src count : UInt32,
      let bulk := execute .memoryCopy (some m)
        [.i32 dst.toBitVec, .i32 src.toBitVec, .i32 count.toBitVec]
      if dst.toNat + count.toNat ≤ m.bytes.size ∧ src.toNat + count.toNat ≤ m.bytes.size
      then ∃ after, bulk = (.ok none, some after)
        ∧ forM (copyOrder dst src count.toNat) (copyByte dst src) m = .ok ⟨⟩ after
      else bulk = (.error (.fault (.trap .outOfBounds)), some m)
        ∧ ∀ steps, dst ≤ src → src.toNat + steps ≤ m.bytes.size →
          forM (List.range steps) (copyByte dst src) m
            = .ok ⟨⟩ (m.overwrite dst.toNat (m.slice src.toNat steps)))
      ∧ ∀ (dst count : UInt32) (value : Word .w32),
        let bulk := execute .memoryFill (some m)
          [.i32 dst.toBitVec, .i32 value, .i32 count.toBitVec]
        if dst.toNat + count.toNat ≤ m.bytes.size
        then ∃ after, bulk = (.ok none, some after)
          ∧ ∀ ks : List Nat, ks.Perm (List.range count.toNat) →
            forM ks (fillByte dst value) m = .ok ⟨⟩ after
        else bulk = (.error (.fault (.trap .outOfBounds)), some m)
          ∧ ∀ steps, dst.toNat + steps ≤ m.bytes.size →
            forM (List.range steps) (fillByte dst value) m
              = .ok ⟨⟩ (m.overwrite dst.toNat
                  (List.replicate steps (UInt8.ofNat value.toNat))) := by
  have hsize := m.length_content
  refine ⟨fun dst src count => ?_, fun dst count value => ?_⟩
  · have hbulk := execute_in_place hm (Instruction.execute_memoryCopy m dst src count)
    by_cases hin : dst.toNat + count.toNat ≤ m.bytes.size ∧ src.toNat + count.toNat ≤ m.bytes.size
    · refine (if_pos hin).mpr ⟨_, hbulk.trans (if_pos hin.symm), ?_⟩
      rw [copyOrder]
      by_cases hle : dst ≤ src
      · rw [if_pos hle]
        exact copyByte_ascending hm hle (by omega)
      · rw [if_neg hle]
        exact copyByte_descending hm (Nat.le_of_not_le hle) (by omega)
    · refine (if_neg hin).mpr ⟨hbulk.trans (if_neg fun h => hin h.symm), fun steps hle h => ?_⟩
      exact copyByte_ascending hm hle (by omega)
  · have hbulk := execute_in_place hm (Instruction.execute_memoryFill m dst count value)
    by_cases hin : dst.toNat + count.toNat ≤ m.bytes.size
    · exact (if_pos hin).mpr ⟨_, hbulk.trans (if_pos hin), fun ks hks =>
        fillByte_perm hm value (by omega) hks⟩
    · exact (if_neg hin).mpr ⟨hbulk.trans (if_neg hin), fun steps h =>
        fillByte_perm hm value (by omega) (List.Perm.refl _)⟩

/-- On a memory of one page, the first eight bytes are moved four places up, downwards byte by
byte because the two ranges overlap, and a fill of two bytes at the very end traps although
its first byte is inside. -/
theorem bulk_refines_bytes_one_page :
    ∃ m, Memory.create 1 1 = .ok m ∧ m.WellFormed
      ∧ (∃ after, execute .memoryCopy (some m) [.i32 4, .i32 0, .i32 8] = (.ok none, some after)
        ∧ forM [7, 6, 5, 4, 3, 2, 1, 0] (copyByte 4 0) m = .ok ⟨⟩ after)
      ∧ execute .memoryFill (some m) [.i32 65535, .i32 1, .i32 2]
          = (.error (.fault (.trap .outOfBounds)), some m)
      ∧ forM [0] (fillByte 65535 1) m = .ok ⟨⟩ (m.overwrite 65535 [1]) := by
  obtain ⟨m, h⟩ : ∃ m, Memory.create 1 1 = .ok m := ⟨_, rfl⟩
  have hm : m.WellFormed := (Memory.create_limits h).1
  have hsize : m.bytes.size = 65536 := by
    rw [hm.size_eq, (Memory.create_limits h).2.2.1]
    rfl
  obtain ⟨hcopy, hfill⟩ := bulk_refines_bytes hm
  have hmove := (if_pos (by rw [hsize]; decide)).mp (hcopy 4 0 8)
  obtain ⟨htrap, hprefix⟩ := (if_neg (by rw [hsize]; decide)).mp (hfill 65535 2 1)
  exact ⟨m, h, hm, hmove, htrap, hprefix 1 (by rw [hsize]; decide)⟩

end Machine

end WasmExec
