/-
What an instruction does to the memory.

A store, a fill, a copy and a grow each change the memory by one operation, and
the operands say which: `operation?`. Every other instruction leaves it alone,
and so do these four where an operand has the wrong type. This file reduces the
instructions to the operations, so a fact about the memory after an operation is
one about the memory after an instruction.
-/
import WasmExec.Proofs.Instruction.Operand
import WasmExec.Proofs.Memory.Operation
import WasmExec.Instruction
import Mathlib.Data.List.Basic

set_option autoImplicit false

namespace WasmExec.Instruction

/-! ## From instructions to operations -/

/-- **The operation by which an instruction changes the memory.** There is none
if the instruction only reads, and none if an operand has the wrong type. -/
def operation? : Instruction → List Value → Option Operation
  | .store s, [address, value] => do
    let ptr ← address.asIndex.toOption
    -- the tests are those of `Store.apply`; the range is left to the operation
    if value.type = s.type ∧ s.type.admits s.width then
      some (.store (.unsigned s.width) ptr s.offset (BitVec.ofNat s.width.bits value.bits))
    else none
  | .memoryGrow, [delta] => do
    let delta ← delta.asIndex.toOption
    some (.grow delta)
  | .memoryFill, [dst, value, count] => do
    let dst ← dst.asIndex.toOption
    let value ← (value.asInt .w32).toOption
    let count ← count.asIndex.toOption
    some (.fill dst (UInt8.ofNat value.toNat) count)
  | .memoryCopy, [dst, src, count] => do
    let dst ← dst.asIndex.toOption
    let src ← src.asIndex.toOption
    let count ← count.asIndex.toOption
    some (.copy dst src count)
  | _, _ => none

/-- What an instruction pushes when its operation succeeded. -/
def pushed : Answer → Option Value
  | .done => none
  | .pages count => some (.int .w32 count)
  | .word _ _ => none

/-- The range of bytes that a store, a fill or a copy writes, given its operands:
where the range begins, and its length. -/
def target? : Instruction → List Value → Option (Nat × Nat)
  | .store s, [address, _] => some (address.bits + s.offset.toNat, s.width.bytes)
  | .memoryFill, [dst, _, count] => some (dst.bits, count.bits)
  | .memoryCopy, [dst, _, count] => some (dst.bits, count.bits)
  | _, _ => none

/-- An operand that an operation was made from has the type it was taken as. -/
theorem eq_ok_of_toOption_bind {α β : Type} {e : Except Fault α} {f : α → Option β} {b : β}
    (h : (e.toOption >>= f) = some b) : ∃ a, e = .ok a ∧ f a = some b := by
  cases e with
  | error fault => cases h
  | ok a => exact ⟨a, rfl, h⟩

/-- A computation that succeeds does so step by step. -/
theorem eq_ok_of_bind {α β : Type} {e : Except Fault α} {f : α → Except Fault β} {b : β}
    (h : (e >>= f) = .ok b) : ∃ a, e = .ok a ∧ f a = .ok b := by
  cases e with
  | error fault => cases h
  | ok a => exact ⟨a, rfl, h⟩

/-- Only a list of the right length makes an operation. -/
theorem length_of_operation {i : Instruction} {args : List Value} {op : Operation}
    (h : i.operation? args = some op) : args.length = i.arity := by
  cases i with
  | numeric op => cases h
  | load l => cases h
  | memorySize => cases h
  | memoryGrow =>
    rcases args with _ | ⟨delta, _ | ⟨_, _⟩⟩
    · cases h
    · rfl
    · cases h
  | store s =>
    rcases args with _ | ⟨address, _ | ⟨value, _ | ⟨_, _⟩⟩⟩
    · cases h
    · cases h
    · rfl
    · cases h
  | memoryFill =>
    rcases args with _ | ⟨dst, _ | ⟨value, _ | ⟨count, _ | ⟨_, _⟩⟩⟩⟩
    · cases h
    · cases h
    · cases h
    · rfl
    · cases h
  | memoryCopy =>
    rcases args with _ | ⟨dst, _ | ⟨src, _ | ⟨count, _ | ⟨_, _⟩⟩⟩⟩
    · cases h
    · cases h
    · cases h
    · rfl
    · cases h

/-- A write pushes nothing, in the words of an operation and in those of an
instruction. -/
theorem bind_pushNone (e : Except Fault Memory) :
    (e >>= fun after => return (none, after))
      = (e.map fun after => (Answer.done, after)).map
          fun result => (pushed result.1, result.2) := by
  cases e with
  | error fault => rfl
  | ok after => rfl

/-- **An instruction with an operation performs it**, and pushes the answer. -/
theorem runOn_of_operation {i : Instruction} {args : List Value} {op : Operation}
    (h : i.operation? args = some op) (m : Memory) :
    i.runOn m args = (m.perform op).map fun result => (pushed result.1, result.2) := by
  have hlen : args.length = i.arity := length_of_operation h
  cases i with
  | numeric op => cases h
  | load l => cases h
  | memorySize => cases h
  | store s =>
    obtain ⟨address, value, rfl⟩ := List.length_eq_two.mp hlen
    obtain ⟨ptr, hptr, h⟩ := eq_ok_of_toOption_bind h
    split at h
    · next hs =>
      cases h
      have happly : s.apply m address value
          = m.store ptr s.offset s.width (BitVec.ofNat s.width.bits value.bits) := by
        rw [Store.apply, hptr]
        -- the address is taken, and what is left are the two tests
        change (if _ then _ else _) = _
        rw [if_neg (not_not.mpr hs.1), if_pos hs.2]
      rw [runOn, happly]
      exact bind_pushNone _
    · cases h
  | memoryGrow =>
    obtain ⟨delta, rfl⟩ := List.length_eq_one_iff.mp hlen
    obtain ⟨delta', hdelta, h⟩ := eq_ok_of_toOption_bind h
    cases h
    rw [runOn, hdelta]
    rfl
  | memoryFill =>
    obtain ⟨dst, value, count, rfl⟩ := List.length_eq_three.mp hlen
    obtain ⟨dst', hdst, h⟩ := eq_ok_of_toOption_bind h
    obtain ⟨value', hvalue, h⟩ := eq_ok_of_toOption_bind h
    obtain ⟨count', hcount, h⟩ := eq_ok_of_toOption_bind h
    cases h
    rw [runOn, hdst, hvalue, hcount]
    exact bind_pushNone (m.fill dst' (UInt8.ofNat value'.toNat) count')
  | memoryCopy =>
    obtain ⟨dst, src, count, rfl⟩ := List.length_eq_three.mp hlen
    obtain ⟨dst', hdst, h⟩ := eq_ok_of_toOption_bind h
    obtain ⟨src', hsrc, h⟩ := eq_ok_of_toOption_bind h
    obtain ⟨count', hcount, h⟩ := eq_ok_of_toOption_bind h
    cases h
    rw [runOn, hdst, hsrc, hcount]
    exact bind_pushNone (m.copy dst' src' count')

/-- **An instruction without an operation leaves the memory alone.** -/
theorem eq_of_runOn_of_no_operation {i : Instruction} {args : List Value} {m after : Memory}
    {p : Option Value} (hlen : args.length = i.arity) (h : i.operation? args = none)
    (hrun : i.runOn m args = .ok (p, after)) : after = m := by
  cases i with
  | numeric op => cases hrun
  | load l =>
    obtain ⟨address, rfl⟩ := List.length_eq_one_iff.mp hlen
    obtain ⟨value, -, hrun⟩ := eq_ok_of_bind hrun
    cases hrun
    rfl
  | memorySize =>
    rw [List.length_eq_zero_iff.mp hlen] at hrun
    cases hrun
    rfl
  -- the other four cannot succeed here: operands that get so far make an operation
  | store s =>
    obtain ⟨address, value, rfl⟩ := List.length_eq_two.mp hlen
    obtain ⟨after', happly, -⟩ := eq_ok_of_bind hrun
    obtain ⟨ptr, hptr, happly⟩ := eq_ok_of_bind happly
    rw [operation?, hptr] at h
    split at happly
    · cases happly
    · next htype =>
      split at happly
      · next hadmits =>
        change (if _ then _ else _) = _ at h
        rw [if_pos ⟨not_not.mp htype, hadmits⟩] at h
        cases h
      · cases happly
  | memoryGrow =>
    obtain ⟨delta, rfl⟩ := List.length_eq_one_iff.mp hlen
    obtain ⟨delta', hdelta, -⟩ := eq_ok_of_bind hrun
    rw [operation?, hdelta] at h
    cases h
  | memoryFill =>
    obtain ⟨dst, value, count, rfl⟩ := List.length_eq_three.mp hlen
    obtain ⟨dst', hdst, hrun⟩ := eq_ok_of_bind hrun
    obtain ⟨value', hvalue, hrun⟩ := eq_ok_of_bind hrun
    obtain ⟨count', hcount, -⟩ := eq_ok_of_bind hrun
    rw [operation?, hdst, hvalue, hcount] at h
    cases h
  | memoryCopy =>
    obtain ⟨dst, src, count, rfl⟩ := List.length_eq_three.mp hlen
    obtain ⟨dst', hdst, hrun⟩ := eq_ok_of_bind hrun
    obtain ⟨src', hsrc, hrun⟩ := eq_ok_of_bind hrun
    obtain ⟨count', hcount, -⟩ := eq_ok_of_bind hrun
    rw [operation?, hdst, hsrc, hcount] at h
    cases h

/-! ## The range that is written -/

/-- The range that the operands name is the range that the operation writes. -/
theorem target_of_operation {i : Instruction} {args : List Value} {op : Operation}
    {start count : Nat} (h : i.operation? args = some op)
    (htarget : i.target? args = some (start, count)) :
    op.isWrite = true ∧ op.start = start ∧ op.count = count := by
  have hlen : args.length = i.arity := length_of_operation h
  cases i with
  | numeric op => cases h
  | load l => cases h
  | memorySize => cases h
  | memoryGrow => cases htarget
  | store s =>
    obtain ⟨address, value, rfl⟩ := List.length_eq_two.mp hlen
    obtain ⟨ptr, hptr, h⟩ := eq_ok_of_toOption_bind h
    split at h
    · cases h
      cases htarget
      refine ⟨rfl, ?_, rfl⟩
      rw [Operation.start, Value.bits_of_asIndex hptr]
    · cases h
  | memoryFill =>
    obtain ⟨dst, value, count, rfl⟩ := List.length_eq_three.mp hlen
    obtain ⟨dst', hdst, h⟩ := eq_ok_of_toOption_bind h
    obtain ⟨value', -, h⟩ := eq_ok_of_toOption_bind h
    obtain ⟨count', hcount, h⟩ := eq_ok_of_toOption_bind h
    cases h
    cases htarget
    exact ⟨rfl, (Value.bits_of_asIndex hdst).symm, (Value.bits_of_asIndex hcount).symm⟩
  | memoryCopy =>
    obtain ⟨dst, src, count, rfl⟩ := List.length_eq_three.mp hlen
    obtain ⟨dst', hdst, h⟩ := eq_ok_of_toOption_bind h
    obtain ⟨src', -, h⟩ := eq_ok_of_toOption_bind h
    obtain ⟨count', hcount, h⟩ := eq_ok_of_toOption_bind h
    cases h
    cases htarget
    exact ⟨rfl, (Value.bits_of_asIndex hdst).symm, (Value.bits_of_asIndex hcount).symm⟩

/-! ## The memory after an instruction -/

/-- **The memory after an instruction** is the one after its operation, if it has
one, and else the one before. -/
theorem execute_memory (i : Instruction) (m : Memory) (args : List Value) :
    (i.execute (some m) args).2 = some (m.run (i.operation? args).toList) := by
  cases hop : i.operation? args with
  | none =>
    rw [Option.toList_none, Memory.run_nil]
    cases i with
    | numeric op => rfl
    | _ =>
      simp only [execute]
      split
      · rfl
      · next hlen =>
        split
        · next hrun => rw [eq_of_runOn_of_no_operation (not_not.mp hlen) hop hrun]
        · rfl
  | some op =>
    rw [Option.toList_some, Memory.run_cons, Memory.run_nil]
    have hlen : args.length = i.arity := length_of_operation hop
    have hrun := runOn_of_operation hop m
    cases i with
    | numeric op => cases hop
    | _ =>
      simp only [execute, hrun]
      rw [if_neg (not_not.mpr hlen), Memory.after]
      cases m.perform op with
      | error fault => rfl
      | ok result => rfl

end WasmExec.Instruction
