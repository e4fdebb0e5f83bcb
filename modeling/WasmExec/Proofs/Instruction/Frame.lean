/-
What an instruction leaves as it was.

An instruction that fails has changed nothing. Run in place that is more than it
says: every check comes before the first byte is written, although an operand, the
shape of the access, both ranges of a copy and the limits of growing can each be
what fails. `Machine.execute_agrees` has that, since a computation on values hands
back the memory it was given when it fails. One failure is not among those of a
computation on values: a host may have no bytes for a memory to grow by. It is
asked before anything is written too (`Machine.executeOn_cases`).

A store, a fill or a copy that succeeds keeps every byte outside the range that
its operands name, and the size. All other instructions but a grow only read.
-/
import WasmExec.Proofs.Machine.Instruction
import WasmExec.Proofs.Instruction.Effect
import WasmExec.Script

set_option autoImplicit false

namespace WasmExec

open Machine

namespace Instruction

/-! ## On values -/

/-- An instruction that fails hands back the memory it was given. -/
theorem execute_memory_of_error {i : Instruction} {m : Memory} {args : List Value}
    {fault : Fault} (h : (i.execute (some m) args).1 = .error fault) :
    (i.execute (some m) args).2 = some m := by
  cases i with
  | numeric op => rfl
  | _ =>
    simp only [execute] at h ⊢
    split
    · rfl
    · split
      · next hlen _ _ _ hrun =>
        rw [if_neg hlen, hrun] at h
        cases h
      · rfl

/-- The instructions that write a range. -/
def writesRange : Instruction → Bool
  | .store _ => true
  | .memoryFill => true
  | .memoryCopy => true
  | _ => false

/-- The instructions that only read. -/
def onlyReads : Instruction → Bool
  | .numeric _ => true
  | .load _ => true
  | .memorySize => true
  | _ => false

theorem operation_of_onlyReads {i : Instruction} (h : i.onlyReads = true) (args : List Value) :
    i.operation? args = none := by
  cases i with
  | numeric op => rfl
  | load l => rfl
  | memorySize => rfl
  | store s => cases h
  | memoryGrow => cases h
  | memoryFill => cases h
  | memoryCopy => cases h

/-- A range is named as soon as the operands are as many as they should be. -/
theorem exists_target_of_writesRange {i : Instruction} {args : List Value}
    (h : i.writesRange = true) (hlen : args.length = i.arity) :
    ∃ start count, i.target? args = some (start, count) := by
  cases i with
  | numeric op => cases h
  | load l => cases h
  | memorySize => cases h
  | memoryGrow => cases h
  | store s =>
    obtain ⟨address, value, rfl⟩ := List.length_eq_two.mp hlen
    exact ⟨_, _, rfl⟩
  | memoryFill =>
    obtain ⟨dst, value, count, rfl⟩ := List.length_eq_three.mp hlen
    exact ⟨_, _, rfl⟩
  | memoryCopy =>
    obtain ⟨dst, src, count, rfl⟩ := List.length_eq_three.mp hlen
    exact ⟨_, _, rfl⟩

theorem usesMemory_of_writesRange {i : Instruction} (h : i.writesRange = true) :
    i.usesMemory = true := by
  cases i with
  | numeric op => cases h
  | _ => rfl

theorem length_of_execute_ok {i : Instruction} {m : Memory} {args : List Value}
    {p : Option Value} (hi : i.usesMemory = true) (h : (i.execute (some m) args).1 = .ok p) :
    args.length = i.arity := by
  cases i with
  | numeric op => cases hi
  | _ =>
    simp only [execute] at h
    split at h
    · cases h
    · next hlen => exact not_not.mp hlen

/-- A grow that pushes minus one was refused. -/
theorem memory_of_growFailed {m : Memory} (hm : m.WellFormed) {args : List Value}
    (h : (memoryGrow.execute (some m) args).1 = .ok (some (.int .w32 Memory.growFailed))) :
    (memoryGrow.execute (some m) args).2 = some m := by
  have hlen : args.length = memoryGrow.arity := length_of_execute_ok rfl h
  obtain ⟨delta, rfl⟩ := List.length_eq_one_iff.mp hlen
  rcases delta.asIndex_cases with ⟨pages, -, -, hdelta⟩ | ⟨-, hdelta⟩
  · have hop : memoryGrow.operation? [delta] = some (.grow pages) := by
      rw [operation?, hdelta]
      rfl
    have hrun := runOn_of_operation hop m
    have hout : (memoryGrow.execute (some m) [delta]).1
        = .ok (some (.int .w32 (m.grow pages).1)) := by
      simp only [execute, hrun]
      rfl
    rw [hout] at h
    -- `h` is now about the number of pages that the grow answered
    simp only [Except.ok.injEq, Option.some.injEq, Value.int.injEq, heq_eq_eq, true_and] at h
    have hafter : m.after (.grow pages) = (m.grow pages).2 := rfl
    rw [execute_memory, hop, Option.toList_some, Memory.run_cons, Memory.run_nil, hafter,
      Memory.eq_of_grow_eq_growFailed hm h]
  · have hop : memoryGrow.operation? [delta] = none := by
      rw [operation?, hdelta]
      rfl
    rw [execute_memory, hop]
    rfl

/-- A write that succeeds keeps the size, the limits and the bytes outside the
range that its operands name. -/
theorem frame_of_target {i : Instruction} {args : List Value} {start count : Nat}
    (htarget : i.target? args = some (start, count)) (m : Memory) :
    ∃ after, (i.execute (some m) args).2 = some after
      ∧ after.minimum = m.minimum ∧ after.current = m.current ∧ after.maximum = m.maximum
      ∧ after.bytes.size = m.bytes.size
      ∧ ∀ k, k < start ∨ start + count ≤ k → after.content[k]? = m.content[k]? := by
  refine ⟨_, i.execute_memory m args, ?_⟩
  cases hop : i.operation? args with
  | none => exact ⟨rfl, rfl, rfl, rfl, fun _ _ => rfl⟩
  | some op =>
    obtain ⟨hw, hstart, hcount⟩ := target_of_operation hop htarget
    obtain ⟨hmin, hcur, hmax, hlen, hframe⟩ := Memory.frame_after_of_isWrite hw m
    rw [Option.toList_some, Memory.run_cons, Memory.run_nil, ← Memory.length_content, hlen,
      Memory.length_content]
    refine ⟨hmin, hcur, hmax, rfl, ?_⟩
    intro k hk
    apply hframe
    rw [← Bool.not_eq_true, Operation.covers_iff, hstart, hcount]
    omega

/-! ## The frame of an instruction -/

/-- **The frame of an instruction**: what it keeps of a memory `m`, given its
outcome and the memory `after` it. -/
structure Keeps (i : Instruction) (args : List Value) (outcome : Except Stop (Option Value))
    (m after : Memory) : Prop where
  of_error : ∀ stop, outcome = .error stop → after = m
  of_onlyReads : i.onlyReads = true → after = m
  of_growFailed : i = .memoryGrow → outcome = .ok (some (.int .w32 (-1#32))) → after = m
  of_writesRange : ∀ p, i.writesRange = true → outcome = .ok p →
    ∃ start count, i.target? args = some (start, count)
      ∧ after.minimum = m.minimum ∧ after.current = m.current ∧ after.maximum = m.maximum
      ∧ after.bytes.size = m.bytes.size
      ∧ ∀ k, k < start ∨ start + count ≤ k → after.content[k]? = m.content[k]?

/-- The frame, of the definition on values. -/
theorem keeps_execute {m : Memory} (hm : m.WellFormed) (i : Instruction) (args : List Value) :
    ∃ after, (i.execute (some m) args).2 = some after
      ∧ i.Keeps args ((i.execute (some m) args).1.mapError .fault) m after := by
  refine ⟨_, i.execute_memory m args, ?_⟩
  -- each field compares the memory of `execute_memory` with what its case leaves
  have hmem := i.execute_memory m args
  cases hout : (i.execute (some m) args).1 with
  | error fault =>
    have hsame : m.run (i.operation? args).toList = m := by
      rw [execute_memory_of_error hout] at hmem
      exact (Option.some.inj hmem).symm
    refine ⟨fun _ _ => hsame, fun _ => hsame, fun _ _ => hsame, ?_⟩
    intro p hwrites hok
    cases hok
  | ok p =>
    refine ⟨?_, ?_, ?_, ?_⟩
    · intro stop herror
      cases herror
    · intro hreads
      rw [operation_of_onlyReads hreads args]
      rfl
    · rintro rfl hpages
      cases hpages
      rw [memory_of_growFailed hm hout] at hmem
      exact (Option.some.inj hmem).symm
    · intro _ hwrites _
      have hlen : args.length = i.arity :=
        length_of_execute_ok (usesMemory_of_writesRange hwrites) hout
      obtain ⟨start, count, htarget⟩ := exists_target_of_writesRange hwrites hlen
      obtain ⟨after, hafter, hframe⟩ := frame_of_target htarget m
      rw [hmem] at hafter
      cases hafter
      exact ⟨start, count, htarget, hframe⟩

/-- The frame, in place. -/
theorem keeps_execute_in_place {m : Memory} (hm : m.WellFormed) (i : Instruction)
    (args : List Value) :
    ∃ outcome after, Machine.execute i (some m) args = (outcome, some after)
      ∧ i.Keeps args outcome m after := by
  obtain ⟨after, hafter, hkeeps⟩ := keeps_execute hm i args
  have hsome : ∀ m' ∈ some m, m'.WellFormed := by
    rintro m' ⟨⟩
    exact hm
  have hagrees := execute_agrees hsome i args
  rw [hafter] at hagrees
  exact ⟨_, after, hagrees, hkeeps⟩

end Instruction

/-! ## Segments and commands -/

/-- A segment that does not fit is refused before any byte of it is copied. -/
theorem Machine.memory_of_init_error {m after : Memory} (hm : m.WellFormed) {offset : UInt32}
    {bytes : List UInt8} {stop : Stop} (h : Machine.init offset bytes m = .error stop after) :
    after = m := by
  rw [init_agrees hm] at h
  cases hout : m.init offset bytes with
  | error fault =>
    rw [hout] at h
    cases h
    rfl
  | ok m' =>
    rw [hout] at h
    cases h

/-- The commands that make a memory or copy a segment into it. -/
def Command.preparesMemory : Command → Bool
  | .memory _ _ _ => true
  | .init _ _ _ => true
  | _ => false

/-- Such a command, if it fails, leaves the memory that was there. -/
theorem Command.memory_of_run_error {c : Command} (hc : c.preparesMemory = true)
    {memory : Option Memory} {complaint : Complaint}
    (h : (c.run memory).1 = .error complaint) : (c.run memory).2 = memory := by
  match c, hc with
  | .memory line minimum maximum, _ =>
    rw [Command.run] at h ⊢
    cases hnew : Memory.create minimum maximum with
    | error fault => rfl
    | ok m =>
      rw [hnew] at h
      cases h
  | .init line offset bytes, _ =>
    cases memory with
    | none => rfl
    | some m =>
      rw [Command.run] at h ⊢
      cases hinit : m.init offset bytes with
      | error fault => rfl
      | ok after =>
        rw [hinit] at h
        cases h

/-! ## What stays as it was -/

namespace Instruction

/-- **What stays as it was.** An instruction executed in place, whatever it is
made of and whatever it is given, leaves the memory alone if it fails, if it only
reads, and if it is a grow that answers minus one. A store, a fill or a copy that
succeeds keeps the limits, the size and every byte outside the range that its
operands name. This is so on a host that always has the bytes it is asked for, and
on every other host. A segment that does not fit, and a command that could not make
or fill a memory, leave the memory that was there. -/
theorem execute_frame {m : Memory} (hm : m.WellFormed) :
    (∀ (i : Instruction) (args : List Value), ∃ outcome after,
      Machine.execute i (some m) args = (outcome, some after) ∧ i.Keeps args outcome m after)
      ∧ (∀ (host : Host) (i : Instruction) (args : List Value), ∃ outcome after,
        Machine.executeOn host i (some m) args = (outcome, some after)
          ∧ i.Keeps args outcome m after)
      ∧ (∀ offset bytes stop after, Machine.init offset bytes m = .error stop after → after = m)
      ∧ ∀ (c : Command) memory complaint, c.preparesMemory = true →
        (c.run memory).1 = .error complaint → (c.run memory).2 = memory := by
  refine ⟨keeps_execute_in_place hm, fun host i args => ?_, ?_, ?_⟩
  · obtain h | h := executeOn_cases hm host i args
    · rw [h]
      exact keeps_execute_in_place hm i args
    · refine ⟨_, _, h, fun _ _ => rfl, fun _ => rfl, fun _ _ => rfl, ?_⟩
      intro p _ hok
      cases hok
  · intro offset bytes stop after h
    exact Machine.memory_of_init_error hm h
  · intro c memory complaint hc h
    exact c.memory_of_run_error hc h

/-- The second operand of a fill has the wrong type: the first was already taken,
and the memory is what it was. So it is if a host has no page to give. -/
theorem execute_frame_late_mismatch :
    ∃ m, Memory.create 1 2 = .ok m ∧ m.WellFormed
      ∧ Machine.execute .memoryFill (some m) [.i32 0, .i64 7, .i32 4]
        = (.error (.fault (.validation .typeMismatch)), some m)
      ∧ Machine.executeOn (fun _ => false) .memoryGrow (some m) [.i32 1]
        = (.error (.fault noMemory), some m) := by
  obtain ⟨m, h⟩ : ∃ m, Memory.create 1 2 = .ok m := ⟨_, rfl⟩
  have hm : m.WellFormed := (Memory.create_limits h).1
  obtain ⟨outcome, after, hrun, hkeeps⟩ :=
    (execute_frame hm).1 .memoryFill [.i32 0, .i64 7, .i32 4]
  have hout : outcome = .error (.fault (.validation .typeMismatch)) := (congrArg Prod.fst hrun).symm
  refine ⟨m, h, hm, ?_, ?_⟩
  · rw [hrun, hkeeps.of_error _ hout, hout]
  · obtain ⟨-, -, hcurrent, hmaximum⟩ := Memory.create_limits h
    have hnone : ¬ ((1 : UInt32) = 0 ∨ m.maximum < m.current + (1 : UInt32).toNat
        ∨ false = true) := by
      rw [hcurrent, hmaximum]
      decide
    have hgrow : growOn (fun _ => false) 1 m = .error (.fault noMemory) m :=
      (growOn_eq hm _ 1).trans (if_neg hnone)
    have hrefused : Machine.runOn (fun _ => false) memoryGrow [.i32 1] m
        = .error (.fault noMemory) m := (bind_ok (lift_ok 1 m)).trans (bind_error hgrow)
    simp only [executeOn, hrefused]
    rfl

end Instruction

end WasmExec
