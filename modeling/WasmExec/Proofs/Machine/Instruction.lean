/-
Instructions, in place and in machine arithmetic.

An instruction takes its operands one after another, and each of them, the
shape of the access and the range can stop it. On a machine the memory is there
all the time, so a step that came too late would leave a half-done change
behind. Here every instruction is written in the order of its steps over the
operations of `Machine`, and it *agrees* with the definition on `Memory`: the
checks all come before the first byte is written.

`execute_agrees` is what the rest of the theory uses. A hazard is not a fault,
so the equation says at once that an instruction meets none. It is about a host that
has the bytes it is asked for, and `executeOn_cases` about all others.
-/
import WasmExec.Proofs.Machine.Memory
import WasmExec.Instruction
import Mathlib.Data.List.Basic

set_option autoImplicit false

namespace WasmExec.Machine

/-! ## Loads and stores -/

/-- The value in memory, extended to the type of the load. -/
def applyLoad (l : Load) (address : Value) : Action Value := do
  let ptr ← address.asIndex
  if l.type.admits l.width then
    let word ← load ptr l.offset l.width
    return Value.ofWord l.type (l.sign.extend l.type.width.bits word)
  else throw (.fault (.validation .unknownOperator))

/-- Puts the low bytes of a value into memory. -/
def applyStore (s : Store) (address value : Value) : Action Unit := do
  let ptr ← address.asIndex
  if value.type ≠ s.type then throw (.fault (.validation .typeMismatch))
  else if s.type.admits s.width then
    store ptr s.offset s.width (BitVec.ofNat s.width.bits value.bits)
  else throw (.fault (.validation .unknownOperator))

theorem applyLoad_agrees (l : Load) (m : Memory) (address : Value) :
    applyLoad l address m = settle m ((l.apply m address).map fun value => (value, m)) := by
  rw [applyLoad, Load.apply]
  cases address.asIndex with
  | error fault => rfl
  | ok ptr =>
    have hload := load_agrees m ptr l.offset l.width
    rw [bind_ok (lift_ok ptr m)]
    change _ = settle m
      (Except.map _ (if l.type.admits l.width then m.load ptr l.offset l.width >>= _ else _))
    by_cases hadmits : l.type.admits l.width = true
    · rw [if_pos hadmits, if_pos hadmits]
      rw [map_agrees (fun word => Value.ofWord l.type (l.sign.extend l.type.width.bits word)) hload]
      cases m.load ptr l.offset l.width <;> rfl
    · rw [if_neg hadmits, if_neg hadmits]
      rfl

theorem applyStore_agrees (s : Store) (m : Memory) (address value : Value) :
    applyStore s address value m
      = settle m ((s.apply m address value).map fun after => ((), after)) := by
  rw [applyStore, Store.apply]
  cases address.asIndex with
  | error fault => rfl
  | ok ptr =>
    rw [bind_ok (lift_ok ptr m)]
    by_cases htype : value.type ≠ s.type
    · simp only [if_pos htype]
      rfl
    · simp only [if_neg htype]
      by_cases hadmits : s.type.admits s.width = true
      · simp only [if_pos hadmits]
        exact store_agrees m ptr s.offset s.width _
      · simp only [if_neg hadmits]
        rfl

/-! ## Instructions -/

/-- Runs a memory instruction. Only growing asks the host for bytes. -/
def runOn (host : Host) (i : Instruction) (args : List Value) : Action (Option Value) :=
  match i, args with
  | .load l, [address] => return some (← applyLoad l address)
  | .store s, [address, value] => do
    applyStore s address value
    return none
  | .memorySize, [] => do
    let m ← get
    return some (.int .w32 (BitVec.ofNat 32 m.current))
  | .memoryGrow, [delta] => do
    let pages ← growOn host (← delta.asIndex)
    return some (.int .w32 pages)
  | .memoryFill, [dst, value, count] => do
    let dst ← dst.asIndex
    let value ← value.asInt .w32
    let count ← count.asIndex
    fill dst (UInt8.ofNat value.toNat) count
    return none
  | .memoryCopy, [dst, src, count] => do
    let dst ← dst.asIndex
    let src ← src.asIndex
    let count ← count.asIndex
    copy dst src count
    return none
  | _, _ => throw (.fault (.validation .argumentCount))

/-- **Executes an instruction in place**: its outcome, which a hazard can be
part of, and the memory afterwards. -/
def executeOn (host : Host) (i : Instruction) (memory : Option Memory) (args : List Value) :
    Except Stop (Option Value) × Option Memory :=
  match i with
  | .numeric op => (((op.apply args).map some).mapError .fault, memory)
  | _ =>
    if args.length ≠ i.arity then (.error (.fault (.validation .argumentCount)), memory)
    else
      match memory with
      | none => (.error (.fault (.validation .unknownMemory)), none)
      | some m =>
        match runOn host i args m with
        | .ok pushed after => (.ok pushed, some after)
        -- what was written before the stop would show in `after`
        | .error stop after => (.error stop, some after)

/-- On a host that always has the bytes. -/
def execute : Instruction → Option Memory → List Value →
    Except Stop (Option Value) × Option Memory := executeOn .ample

theorem runOn_agrees {m : Memory} (hm : m.WellFormed) {i : Instruction} {args : List Value}
    (hlen : args.length = i.arity) : runOn .ample i args m = settle m (i.runOn m args) := by
  cases i with
  | numeric op => rfl
  | load l =>
    obtain ⟨address, rfl⟩ := List.length_eq_one_iff.mp hlen
    exact map_agrees some (applyLoad_agrees l m address)
  | store s =>
    obtain ⟨address, value, rfl⟩ := List.length_eq_two.mp hlen
    exact map_agrees (fun _ => none) (applyStore_agrees s m address value)
  | memorySize =>
    rw [List.length_eq_zero_iff.mp hlen]
    rfl
  | memoryGrow =>
    obtain ⟨delta, rfl⟩ := List.length_eq_one_iff.mp hlen
    exact lift_bind_agrees fun delta => bind_ok (grow_agrees hm delta)
  | memoryFill =>
    obtain ⟨dst, value, count, rfl⟩ := List.length_eq_three.mp hlen
    refine lift_bind_agrees fun dst => lift_bind_agrees fun value => ?_
    exact lift_bind_agrees fun count => map_agrees (fun _ => none) (fill_agrees m dst _ count)
  | memoryCopy =>
    obtain ⟨dst, src, count, rfl⟩ := List.length_eq_three.mp hlen
    refine lift_bind_agrees fun dst => lift_bind_agrees fun src => ?_
    exact lift_bind_agrees fun count => map_agrees (fun _ => none) (copy_agrees m dst src count)

/-- **An instruction meets no hazard on a memory that a host can have**, and in
place it has the outcome and leaves the memory of the definition on `Memory`. -/
theorem execute_agrees {memory : Option Memory} (hm : ∀ m ∈ memory, m.WellFormed)
    (i : Instruction) (args : List Value) :
    execute i memory args
      = ((i.execute memory args).1.mapError .fault, (i.execute memory args).2) := by
  cases i with
  | numeric op => rfl
  -- the other six pass the same two checks and then run on the memory
  | _ =>
    simp only [execute, executeOn, Instruction.execute]
    split
    · rfl
    · next hlen =>
      cases memory with
      | none => rfl
      | some m =>
        simp only [runOn_agrees (hm m rfl) (not_not.mp hlen)]
        cases Instruction.runOn _ m args with
        | error fault => rfl
        | ok result => rfl

/-! ## Other hosts -/

theorem runOn_cases {m : Memory} (hm : m.WellFormed) (host : Host) (i : Instruction)
    (args : List Value) :
    runOn host i args m = runOn .ample i args m
      ∨ runOn host i args m = .error (.fault noMemory) m := by
  by_cases hasks : i = .memoryGrow ∧ args.length = 1
  · obtain ⟨rfl, hlen⟩ := hasks
    obtain ⟨delta, rfl⟩ := List.length_eq_one_iff.mp hlen
    have hrun : ∀ host, runOn host .memoryGrow [delta]
        = liftM delta.asIndex >>= fun delta => growOn host delta >>= fun pages =>
          pure (some (.int .w32 pages)) := fun _ => rfl
    rw [hrun, hrun]
    -- the operand is taken before the host is asked
    cases delta.asIndex with
    | error fault => exact .inl ((bind_error rfl).trans (bind_error rfl).symm)
    | ok pages =>
      rw [bind_ok (lift_ok pages m), bind_ok (lift_ok pages m)]
      obtain h | h := growOn_cases hm host pages
      · left
        have hample : growOn .ample pages m = .ok (m.grow pages).1 (m.grow pages).2 :=
          grow_agrees hm pages
        rw [bind_ok hample, bind_ok (h.trans hample)]
      · exact .inr (bind_error h)
  · left
    unfold runOn
    split <;> first | exact absurd ⟨rfl, rfl⟩ hasks | rfl

/-- **A host that has no bytes to give** can put an end to an instruction, and then the memory is
as it was. In all else it does not matter which host it is. -/
theorem executeOn_cases {m : Memory} (hm : m.WellFormed) (host : Host) (i : Instruction)
    (args : List Value) :
    executeOn host i (some m) args = execute i (some m) args
      ∨ executeOn host i (some m) args = (.error (.fault noMemory), some m) := by
  obtain h | h := runOn_cases hm host i args
  · left
    simp only [execute, executeOn, h]
  · -- what ends before the memory is reached ends so on every host
    unfold execute executeOn
    split
    · exact .inl rfl
    · simp only [h]
      split
      · exact .inl rfl
      · exact .inr rfl

end WasmExec.Machine
