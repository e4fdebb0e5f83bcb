/-
Where an access ends.

An access is refused exactly if it ends behind the memory. Its end is the address operand,
read without a sign, plus the constant offset plus the number of bytes, and this sum is a sum
of natural numbers: the machine takes it in words so wide that it never wraps, which is part of
what `Machine.execute_agrees` says. So a pointer that is negative as an integer is a large
address, and a pointer near the end of the address space does not come back to its beginning.

Where an access is not refused, what it pushes and what it leaves behind are functions of the
effective address alone (`execute_access`). Pointer and offset are nowhere used apart from
their sum, so two pairs of the same sum can stand for each other.

A fill, a copy and a segment have no offset, and their ranges are tested as a whole. The test
asks where a range ends and not whether there is a byte in it, and so an empty range behind
the end is refused too.
-/
import WasmExec.Proofs.Instruction.Access
import WasmExec.Proofs.Machine.Instruction

set_option autoImplicit false

namespace WasmExec

/-! ## The test of a range -/

namespace Memory

variable (m : Memory)

theorem fill_eq (dst : UInt32) (value : UInt8) (count : UInt32) :
    m.fill dst value count
      = if dst.toNat + count.toNat ≤ m.bytes.size
        then .ok (m.overwrite dst.toNat (List.replicate count.toNat value))
        else .error (.trap .outOfBounds) := by
  rw [fill]
  simp only [contains, decide_eq_true_eq]

/-- Of a copy both ranges are tested. -/
theorem copy_eq (dst src count : UInt32) :
    m.copy dst src count
      = if src.toNat + count.toNat ≤ m.bytes.size ∧ dst.toNat + count.toNat ≤ m.bytes.size
        then .ok (m.overwrite dst.toNat (m.slice src.toNat count.toNat))
        else .error (.trap .outOfBounds) := by
  rw [copy]
  simp only [contains, Bool.and_eq_true, decide_eq_true_eq]

theorem init_eq (offset : UInt32) (bytes : List UInt8) :
    m.init offset bytes
      = if offset.toNat + bytes.length ≤ m.bytes.size
        then .ok (m.overwrite offset.toNat bytes)
        else .error (.link .segmentDoesNotFit) := by
  rw [init]
  simp only [contains, decide_eq_true_eq]

end Memory

/-! ## Loads and stores -/

namespace Instruction

/-- **An instruction that one test decides**: it uses the memory for one operation, which
succeeds if the test holds and is a fault otherwise, and it goes by the outcome. -/
theorem execute_eq_ite {i : Instruction} {m : Memory} {args : List Value} {α : Type}
    {operation : Except Fault α} {result : α → Option Value × Memory} {x : α} {fits : Prop}
    [Decidable fits] {fault : Fault} (hmemory : i.usesMemory = true)
    (harity : args.length = i.arity)
    (hrun : i.runOn m args = operation >>= fun x => return result x)
    (hoperation : operation = if fits then .ok x else .error fault) :
    i.execute (some m) args
      = if fits then (.ok (result x).1, some (result x).2) else (.error fault, some m) := by
  have hran : i.runOn m args = if fits then .ok (result x) else .error fault := by
    rw [hrun, hoperation]
    split <;> rfl
  have harity' : ¬ args.length ≠ i.arity := not_not.mpr harity
  cases i with
  | numeric op => cases hmemory
  | _ =>
    simp only [execute, if_neg harity', hran]
    by_cases hfits : fits
    · simp only [if_pos hfits]
    · simp only [if_neg hfits]

section

variable (m : Memory) (a : Word .w32) (offset : UInt32)

/-- A load in range pushes the word of its range, widened. -/
theorem execute_load {l : Load} (hl : l.type.admits l.width = true) :
    (load { l with offset := offset }).execute (some m) [.int .w32 a]
      = if a.toNat + offset.toNat + l.width.bytes ≤ m.bytes.size
        then (.ok (some (Value.ofWord l.type (l.sign.extend l.type.width.bits
          (LittleEndian.decode l.width
            (m.slice (a.toNat + offset.toNat) l.width.bytes))))), some m)
        else (.error (.trap .outOfBounds), some m) := by
  rw [← m.length_content]
  have hrun : runOn (load { l with offset := offset }) m [.int .w32 a]
      = (Load.apply { l with offset := offset } m (.int .w32 a) >>= fun v =>
          return (some v, m)) := rfl
  refine execute_eq_ite rfl rfl hrun ?_
  by_cases hin : a.toNat + offset.toNat + l.width.bytes ≤ m.content.length
  · rw [if_pos hin]
    exact Load.apply_ok hl l.sign hin
  · rw [if_neg hin]
    exact Load.apply_outOfBounds hl l.sign hin

/-- A store in range puts the low bytes of its value there. -/
theorem execute_store {s : Store} {v : Value} (htype : v.type = s.type)
    (hs : s.type.admits s.width = true) :
    (store { s with offset := offset }).execute (some m) [.int .w32 a, v]
      = if a.toNat + offset.toNat + s.width.bytes ≤ m.bytes.size
        then (.ok none, some (m.overwrite (a.toNat + offset.toNat)
          (LittleEndian.encode s.width (BitVec.ofNat s.width.bits v.bits))))
        else (.error (.trap .outOfBounds), some m) := by
  have hrun : runOn (store { s with offset := offset }) m [.int .w32 a, v]
      = (Store.apply { s with offset := offset } m (.int .w32 a) v >>= fun after =>
          return (none, after)) := rfl
  have hstore : Store.apply { s with offset := offset } m (.int .w32 a) v
      = m.store (.ofBitVec a) offset s.width (BitVec.ofNat s.width.bits v.bits) :=
    Store.apply_eq (s := { s with offset := offset }) htype hs m a
  rw [← m.length_content]
  exact execute_eq_ite rfl rfl hrun (hstore.trans (m.store_eq _ _ _ _))

end

/-- **A well-typed load or store**: an access width that its type admits and, for a store, a
value of its type. The operands are those for each address. -/
inductive IsAccess : Instruction → AccessWidth → (Word .w32 → List Value) → Prop where
  | load (l : Load) : l.type.admits l.width = true →
    IsAccess (.load l) l.width fun a => [.int .w32 a]
  | store (s : Store) (v : Value) : v.type = s.type → s.type.admits s.width = true →
    IsAccess (.store s) s.width fun a => [.int .w32 a, v]

/-- **What an access does is a function of its effective address**, unless it ends behind the
memory. -/
theorem execute_access {i : Instruction} {width : AccessWidth} {operands : Word .w32 → List Value}
    (h : IsAccess i width operands) (m : Memory) :
    ∃ effect : Nat → Option Value × Memory, ∀ (a : Word .w32) (offset : UInt32),
      (i.withOffset offset).execute (some m) (operands a)
        = if a.toNat + offset.toNat + width.bytes ≤ m.bytes.size
          then (.ok (effect (a.toNat + offset.toNat)).1, some (effect (a.toNat + offset.toNat)).2)
          else (.error (.trap .outOfBounds), some m) := by
  cases h with
  | load l hl =>
    exact ⟨fun ea => (some (Value.ofWord l.type (l.sign.extend l.type.width.bits
      (LittleEndian.decode l.width (m.slice ea l.width.bytes)))), m),
      fun a offset => execute_load m a offset hl⟩
  | store s v htype hs =>
    exact ⟨fun ea => (none, m.overwrite ea
      (LittleEndian.encode s.width (BitVec.ofNat s.width.bits v.bits))),
      fun a offset => execute_store m a offset htype hs⟩

/-! ## Ranges -/

section

variable (m : Memory) (dst src count : UInt32) (value : Word .w32)

/-- The operands of a fill: where, what, how many. Of the value the lowest byte is taken. -/
theorem execute_memoryFill :
    execute .memoryFill (some m) [.i32 dst.toBitVec, .i32 value, .i32 count.toBitVec]
      = if dst.toNat + count.toNat ≤ m.bytes.size
        then (.ok none,
          some (m.overwrite dst.toNat (List.replicate count.toNat (UInt8.ofNat value.toNat))))
        else (.error (.trap .outOfBounds), some m) := by
  have hrun : runOn .memoryFill m [.i32 dst.toBitVec, .i32 value, .i32 count.toBitVec]
      = (m.fill dst (UInt8.ofNat value.toNat) count >>= fun after => return (none, after)) := rfl
  exact execute_eq_ite rfl rfl hrun (m.fill_eq dst (UInt8.ofNat value.toNat) count)

/-- The operands of a copy: where to, where from, how many. -/
theorem execute_memoryCopy :
    execute .memoryCopy (some m) [.i32 dst.toBitVec, .i32 src.toBitVec, .i32 count.toBitVec]
      = if src.toNat + count.toNat ≤ m.bytes.size ∧ dst.toNat + count.toNat ≤ m.bytes.size
        then (.ok none, some (m.overwrite dst.toNat (m.slice src.toNat count.toNat)))
        else (.error (.trap .outOfBounds), some m) := by
  have hrun : runOn .memoryCopy m [.i32 dst.toBitVec, .i32 src.toBitVec, .i32 count.toBitVec]
      = (m.copy dst src count >>= fun after => return (none, after)) := rfl
  exact execute_eq_ite rfl rfl hrun (m.copy_eq dst src count)

end

/-! ## In place -/

section

variable {m : Memory} {i : Instruction} {args : List Value} {fits : Prop} [Decidable fits]
  {pushed : Option Value} {after : Memory} {fault : Fault}

/-- In place an instruction that is refused by a test does the same. -/
theorem execute_in_place (hm : m.WellFormed)
    (h : i.execute (some m) args
      = if fits then (.ok pushed, some after) else (.error fault, some m)) :
    Machine.execute i (some m) args
      = if fits then (.ok pushed, some after) else (.error (.fault fault), some m) := by
  have hsome : ∀ m' ∈ some m, m'.WellFormed := by
    rintro m' ⟨⟩
    exact hm
  rw [Machine.execute_agrees hsome, h]
  by_cases hfits : fits
  · rw [if_pos hfits, if_pos hfits]
    rfl
  · rw [if_neg hfits, if_neg hfits]
    rfl

/-- What is decided by a test is refused exactly where the test fails. -/
theorem execute_eq_refusal_iff {stop : Machine.Stop}
    (h : Machine.execute i (some m) args
      = if fits then (.ok pushed, some after) else (.error stop, some m)) :
    Machine.execute i (some m) args = (.error stop, some m) ↔ ¬ fits := by
  rw [h]
  by_cases hfits : fits
  · rw [if_pos hfits]
    exact ⟨nofun, fun hnot => absurd hfits hnot⟩
  · rw [if_neg hfits]
    exact ⟨fun _ => hfits, fun _ => rfl⟩

end

/-! ## Bounds -/

/-- **Bounds are exact, and addresses never wrap.** Run in place and in machine arithmetic, a
well-typed load or store traps exactly if its last byte is behind the memory, where the address
operand is read without a sign and the offset is added to it in unbounded numbers. What else
it does depends on this sum alone. A fill traps exactly if its range ends behind the memory, a
copy if one of its two ranges does, and a segment that ends behind it is refused; an empty
range is no exception. -/
theorem bounds_exact {m : Memory} (hm : m.WellFormed) :
    (∀ i width operands, IsAccess i width operands →
      let run (a : UInt32) (offset : UInt32) :=
        Machine.execute (i.withOffset offset) (some m) (operands a.toBitVec)
      (∀ a offset,
        (run a offset = (.error (.fault (.trap .outOfBounds)), some m)
            ↔ m.bytes.size < a.toNat + offset.toNat + width.bytes)
          ∧ (a.toNat + offset.toNat + width.bytes ≤ m.bytes.size →
            ∃ pushed after, run a offset = (.ok pushed, some after)))
        ∧ (∀ a offset a' offset', a.toNat + offset.toNat = a'.toNat + offset'.toNat →
          run a offset = run a' offset')
        ∧ ∀ a offset : UInt32, a.toNat + offset.toNat < 2 ^ 32 → run a offset = run (a + offset) 0)
      ∧ (∀ (dst count : UInt32) (value : Word .w32),
        let outcome := Machine.execute .memoryFill (some m)
          [.i32 dst.toBitVec, .i32 value, .i32 count.toBitVec]
        (outcome = (.error (.fault (.trap .outOfBounds)), some m)
            ↔ m.bytes.size < dst.toNat + count.toNat)
          ∧ (dst.toNat + count.toNat ≤ m.bytes.size → ∃ after, outcome = (.ok none, some after)))
      ∧ (∀ dst src count : UInt32,
        let outcome := Machine.execute .memoryCopy (some m)
          [.i32 dst.toBitVec, .i32 src.toBitVec, .i32 count.toBitVec]
        (outcome = (.error (.fault (.trap .outOfBounds)), some m)
            ↔ m.bytes.size < dst.toNat + count.toNat ∨ m.bytes.size < src.toNat + count.toNat)
          ∧ (dst.toNat + count.toNat ≤ m.bytes.size → src.toNat + count.toNat ≤ m.bytes.size →
            ∃ after, outcome = (.ok none, some after)))
      ∧ ∀ (offset : UInt32) (bytes : List UInt8),
        let outcome := Machine.init offset bytes m
        (outcome = .error (.fault (.link .segmentDoesNotFit)) m
            ↔ m.bytes.size < offset.toNat + bytes.length)
          ∧ (offset.toNat + bytes.length ≤ m.bytes.size → ∃ after, outcome = .ok () after) := by
  refine ⟨?_, ?_, ?_, ?_⟩
  · intro i width operands haccess
    obtain ⟨effect, heffect⟩ := execute_access haccess m
    have hrun := fun a offset => execute_in_place hm (heffect a offset)
    -- pointer and offset are in the right-hand side of `hrun` only as their sum
    have hsum : ∀ a offset a' offset' : UInt32, a.toNat + offset.toNat = a'.toNat + offset'.toNat →
        Machine.execute (i.withOffset offset) (some m) (operands a.toBitVec)
          = Machine.execute (i.withOffset offset') (some m) (operands a'.toBitVec) := by
      intro a offset a' offset' h
      have ha : a.toBitVec.toNat + offset.toNat = a'.toBitVec.toNat + offset'.toNat := h
      rw [hrun, hrun, ha]
    refine ⟨fun a offset => ⟨?_, fun hin => ?_⟩, hsum, fun a offset hlt => ?_⟩
    · exact (execute_eq_refusal_iff (hrun a.toBitVec offset)).trans not_le
    · exact ⟨_, _, (hrun a.toBitVec offset).trans (if_pos hin)⟩
    · refine hsum a offset (a + offset) 0 ?_
      rw [UInt32.toNat_add, Nat.mod_eq_of_lt hlt, UInt32.toNat_zero, Nat.add_zero]
  · intro dst count value
    have hrun := execute_in_place hm (execute_memoryFill m dst count value)
    exact ⟨(execute_eq_refusal_iff hrun).trans not_le, fun hin => ⟨_, hrun.trans (if_pos hin)⟩⟩
  · intro dst src count
    have hrun := execute_in_place hm (execute_memoryCopy m dst src count)
    refine ⟨(execute_eq_refusal_iff hrun).trans ?_, fun hdst hsrc =>
      ⟨_, hrun.trans (if_pos ⟨hsrc, hdst⟩)⟩⟩
    omega
  · intro offset bytes
    have hinit := Machine.init_agrees hm offset bytes
    rw [Memory.init_eq] at hinit
    by_cases hin : offset.toNat + bytes.length ≤ m.bytes.size
    · rw [if_pos hin] at hinit
      refine ⟨⟨fun herror => ?_, fun hout => absurd hin (not_le.mpr hout)⟩, fun _ => ⟨_, hinit⟩⟩
      rw [hinit] at herror
      cases herror
    · rw [if_neg hin] at hinit
      exact ⟨⟨fun _ => not_le.mp hin, fun _ => hinit⟩, fun hin' => absurd hin' hin⟩

/-- On a memory of one page, a pointer of minus four and an offset of eight do not come back
to address four, the same sum is refused with all of it in the offset, and an empty range
that begins behind the end is refused. -/
theorem bounds_exact_one_page :
    ∃ m, Memory.create 1 1 = .ok m ∧ m.WellFormed ∧ m.bytes.size = 65536
      ∧ Machine.execute ((load ⟨.int .w32, .b32, .signed, 0⟩).withOffset 8) (some m)
          [.i32 0xfffffffc] = (.error (.fault (.trap .outOfBounds)), some m)
      ∧ Machine.execute ((load ⟨.int .w32, .b32, .signed, 0⟩).withOffset 0xfffffffc) (some m)
          [.i32 8] = (.error (.fault (.trap .outOfBounds)), some m)
      ∧ Machine.execute .memoryFill (some m) [.i32 65537, .i32 0, .i32 0]
          = (.error (.fault (.trap .outOfBounds)), some m) := by
  obtain ⟨m, h⟩ : ∃ m, Memory.create 1 1 = .ok m := ⟨_, rfl⟩
  have hm : m.WellFormed := (Memory.create_limits h).1
  have hsize : m.bytes.size = 65536 := by
    rw [hm.size_eq, (Memory.create_limits h).2.2.1]
    rfl
  obtain ⟨haccess, hfill, -, -⟩ := bounds_exact hm
  obtain ⟨hbounds, hsum, -⟩ :=
    haccess _ _ _ (.load ⟨.int .w32, .b32, .signed, 0⟩ rfl)
  have hload := (hbounds 0xfffffffc 8).1.mpr (by rw [hsize]; decide)
  exact ⟨m, h, hm, hsize, hload, (hsum 8 0xfffffffc 0xfffffffc 8 rfl).trans hload,
    (hfill 65537 0 0).1.mpr (by rw [hsize]; decide)⟩

end Instruction

end WasmExec
