/-
The steps a machine takes, each with the check that it can be taken.

`Memory` computes ranges in unbounded numbers and hands back a new memory. A
machine does neither: each sum, difference and product has a word it must fit
into, each slice has to lie inside the buffer, and what was written before a
computation stopped stays written. An `Action` is a computation of that kind.
A check that fails is a `Hazard`, which is no fault that a host could handle
but the end of the program.

This file has the single steps. Each is followed by the lemma that says what it
does where its check holds, so that an operation made of them is read off step
by step with `bind_ok`.
-/
import WasmExec.Proofs.Memory.Content
import Mathlib.Tactic.Ring

set_option autoImplicit false

namespace WasmExec.Machine

/-! ## Computations that change a memory -/

/-- **A step that the machine cannot carry out as it is written.** -/
inductive Hazard where
  /-- A sum or a product does not fit its word. -/
  | overflow
  /-- A difference would be below zero. -/
  | underflow
  /-- A slice does not lie inside its buffer. -/
  | slice
  /-- A slice is replaced by bytes of another length. -/
  | length
deriving DecidableEq

/-- Why a computation stops before its end. -/
inductive Stop where
  | fault (fault : Fault)
  | hazard (hazard : Hazard)
deriving DecidableEq

/-- **A computation that changes a memory in place.** The memory is part of the
outcome even when the computation stops. -/
abbrev Action (α : Type) : Type := EStateM Stop Memory α

section Steps

variable {α β : Type} {x : Action α} {f : α → Action β} {m m' : Memory}

theorem bind_ok {a : α} (h : x m = .ok a m') : (x >>= f) m = f a m' := by
  change EStateM.bind x f m = _
  rw [EStateM.bind, h]

theorem get_eq (m : Memory) : (get : Action Memory) m = .ok m m := rfl

theorem modify_eq (f : Memory → Memory) (m : Memory) :
    (modify f : Action PUnit) m = .ok ⟨⟩ (f m) := rfl

theorem bind_error {stop : Stop} (h : x m = .error stop m') : (x >>= f) m = .error stop m' := by
  change EStateM.bind x f m = _
  rw [EStateM.bind, h]

end Steps

instance : MonadLift (Except Fault) Action where
  monadLift
    | .ok a => pure a
    | .error fault => throw (.fault fault)

theorem lift_ok {α : Type} (a : α) (m : Memory) :
    (liftM (Except.ok a : Except Fault α) : Action α) m = .ok a m := rfl

/-- The outcome in place of a computation on values: a fault comes with the
memory that the computation started from. -/
def settle {α : Type} (m : Memory) : Except Fault (α × Memory) → EStateM.Result Stop Memory α
  | .ok (a, after) => .ok a after
  | .error fault => .error (.fault fault) m

/-- A fault found before anything was written ends both forms alike, and else
both go on with the same value. -/
theorem lift_bind_agrees {α β : Type} {m : Memory} {e : Except Fault α}
    {f : α → Action β} {g : α → Except Fault (β × Memory)}
    (h : ∀ a, f a m = settle m (g a)) :
    ((liftM e : Action α) >>= f) m = settle m (e >>= g) := by
  cases e with
  | error fault => rfl
  | ok a => exact h a

/-- What is made of an answer does not matter for agreement. -/
theorem map_agrees {α β γ : Type} {m : Memory} {x : Action α} {e : Except Fault γ}
    {u : γ → α × Memory} (f : α → β) (h : x m = settle m (e.map u)) :
    (x >>= fun a => pure (f a)) m = settle m (e.map fun c => (f (u c).1, (u c).2)) := by
  cases e with
  | error fault => exact bind_error h
  | ok c => exact bind_ok h

/-! ## Arithmetic -/

/-- A sum in words of `bits` bits. -/
def add (bits a b : Nat) : Action Nat :=
  if a + b < 2 ^ bits then pure (a + b) else throw (.hazard .overflow)

/-- A difference of numbers without a sign. -/
def sub (a b : Nat) : Action Nat := if b ≤ a then pure (a - b) else throw (.hazard .underflow)

/-- A number of pages as a signed word of 32 bits. -/
def toSigned (pages : Nat) : Action (Word .w32) :=
  if pages < 2 ^ 31 then pure (BitVec.ofNat 32 pages) else throw (.hazard .overflow)

/-- The fault of a request for more bytes than there are. -/
def noMemory : Fault := ⟨.allocation, .allocationFailed⟩

/-- The bytes in a number of pages, in words of 64 bits. Here a product that
does not fit is a fault: no host has so much memory. -/
def pagesToBytes (pages : Nat) : Except Fault Nat :=
  if pages * Memory.pageSize < 2 ^ 64 then .ok (pages * Memory.pageSize)
  else .error noMemory

theorem add_eq {bits a b : Nat} (h : a + b < 2 ^ bits) (m : Memory) :
    add bits a b m = .ok (a + b) m := by
  rw [add, if_pos h]
  rfl

theorem sub_eq {a b : Nat} (h : b ≤ a) (m : Memory) : sub a b m = .ok (a - b) m := by
  rw [sub, if_pos h]
  rfl

theorem toSigned_eq {pages : Nat} (h : pages < 2 ^ 31) (m : Memory) :
    toSigned pages m = .ok (BitVec.ofNat 32 pages) m := by
  rw [toSigned, if_pos h]
  rfl

theorem pagesToBytes_eq {pages : Nat} (h : pages ≤ Memory.pageLimit) :
    pagesToBytes pages = .ok (pages * Memory.pageSize) := by
  rw [Memory.pageLimit] at h
  rw [pagesToBytes, if_pos (by rw [Memory.pageSize]; omega)]

/-! ## The host -/

/-- **A host**, by whether it has as many bytes to give as it is asked for. -/
abbrev Host : Type := Nat → Bool

/-- A host that always has them. -/
def Host.ample : Host := fun _ => true

/-- Asks a host for bytes. -/
def reserve (host : Host) (count : Nat) : Except Fault Unit :=
  if host count then .ok () else .error noMemory

theorem reserve_eq {host : Host} {count : Nat} (h : host count = true) :
    reserve host count = .ok () := if_pos h

theorem reserve_eq_noMemory {host : Host} {count : Nat} (h : ¬ host count = true) :
    reserve host count = .error noMemory := if_neg h

/-! ## The buffer -/

/-- The bytes from `start` up to before `stop`. -/
def slice (start stop : Nat) : Action (List UInt8) := do
  let m ← get
  if start ≤ stop ∧ stop ≤ m.bytes.size then pure (m.slice start (stop - start))
  else throw (.hazard .slice)

/-- Replaces the bytes from `start` up to before `stop`. -/
def replace (start stop : Nat) (bytes : List UInt8) : Action Unit := do
  let old ← slice start stop
  if old.length = bytes.length then modify fun m => m.overwrite start bytes
  else throw (.hazard .length)

/-- Moves the bytes from `start` up to before `stop` to `dst`, as if by way of a
second buffer. -/
def moveWithin (start stop dst : Nat) : Action Unit := do
  let bytes ← slice start stop
  let m ← get
  if dst ≤ m.bytes.size - bytes.length then modify fun m => m.overwrite dst bytes
  else throw (.hazard .slice)

/-- A buffer of another size: zeros are appended, or the end is cut off. -/
def resized (bytes : ByteArray) (size : Nat) : ByteArray :=
  if bytes.size ≤ size then bytes ++ ⟨Array.replicate (size - bytes.size) 0⟩
  else bytes.extract 0 size

theorem slice_eq {m : Memory} {start count : Nat} (h : start + count ≤ m.content.length) :
    slice start (start + count) m = .ok (m.slice start count) m := by
  rw [Memory.length_content] at h
  have hin : start ≤ start + count ∧ start + count ≤ m.bytes.size := ⟨Nat.le_add_right _ _, h⟩
  rw [slice, bind_ok (get_eq m), if_pos hin,
    Nat.add_sub_cancel_left]
  rfl

theorem replace_eq {m : Memory} {start count : Nat} {bytes : List UInt8}
    (h : start + count ≤ m.content.length) (hlen : bytes.length = count) :
    replace start (start + count) bytes m = .ok () (m.overwrite start bytes) := by
  have hold : (m.slice start count).length = bytes.length := by
    rw [Memory.length_slice h, hlen]
  rw [replace, bind_ok (slice_eq h), if_pos hold]
  rfl

theorem moveWithin_eq {m : Memory} {start dst count : Nat}
    (hsrc : start + count ≤ m.content.length) (hdst : dst + count ≤ m.content.length) :
    moveWithin start (start + count) dst m
      = .ok () (m.overwrite dst (m.slice start count)) := by
  have hlen : (m.slice start count).length = count := Memory.length_slice hsrc
  have hroom : dst ≤ m.bytes.size - (m.slice start count).length := by
    rw [hlen, ← Memory.length_content]
    omega
  rw [moveWithin, bind_ok (slice_eq hsrc), bind_ok (get_eq m), if_pos hroom]
  rfl

theorem resized_eq_addPages {bytes : ByteArray} {pages n : Nat}
    (h : bytes.size = pages * Memory.pageSize) :
    resized bytes ((pages + n) * Memory.pageSize) = Memory.addPages bytes n := by
  have hsize : (pages + n) * Memory.pageSize = bytes.size + n * Memory.pageSize := by
    rw [h]
    ring
  apply ByteArray.ext
  apply Array.toList_inj.mp
  rw [Memory.toList_addPages, hsize, resized, if_pos (Nat.le_add_right _ _), ByteArray.data_append,
    Array.toList_append, Nat.add_sub_cancel_left, Array.toList_replicate]

end WasmExec.Machine
