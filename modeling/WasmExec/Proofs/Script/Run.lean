/-
Runs of scripts, command by command.

A run is a fold over its commands. What the fold carries along is the memory alone, so a
run of two scripts one behind the other is the run of the first and then the run of the
second from the memory that the first one left (`runCommands_append`). For the same reason
what is said of one command depends on the commands in front of it only through the memory
they leave (`getElem?_runCommands`). A report is a success if every command has passed, and
that is a condition on each part of a script.
-/
import WasmExec.Script
import Mathlib.Data.List.Basic
import Mathlib.Data.List.ReduceOption

set_option autoImplicit false

namespace WasmExec

/-- **The memory after a row of commands.** -/
def memoryAfter (memory : Option Memory) (commands : List Command) : Option Memory :=
  commands.foldl (fun memory c => (c.run memory).2) memory

@[simp] theorem memoryAfter_nil (memory : Option Memory) : memoryAfter memory [] = memory := rfl

@[simp] theorem memoryAfter_cons (memory : Option Memory) (c : Command) (cs : List Command) :
    memoryAfter memory (c :: cs) = memoryAfter (c.run memory).2 cs := rfl

theorem memoryAfter_append (memory : Option Memory) (first second : List Command) :
    memoryAfter memory (first ++ second) = memoryAfter (memoryAfter memory first) second := by
  rw [memoryAfter, List.foldl_append]
  rfl

theorem runCommands_append (memory : Option Memory) (first second : List Command) :
    runCommands memory (first ++ second)
      = runCommands memory first ++ runCommands (memoryAfter memory first) second := by
  induction first generalizing memory with
  | nil => rfl
  | cons c first ih => simp [runCommands, ih]

@[simp] theorem length_runCommands (memory : Option Memory) (commands : List Command) :
    (runCommands memory commands).length = commands.length := by
  induction commands generalizing memory with
  | nil => rfl
  | cons c commands ih => simp [runCommands, ih]

/-- What a run says of the commands behind the first ones. -/
theorem drop_runCommands (memory : Option Memory) (first second : List Command) :
    (runCommands memory (first ++ second)).drop first.length
      = runCommands (memoryAfter memory first) second := by
  have hlen : (runCommands memory first).length = first.length := length_runCommands _ _
  rw [runCommands_append, ← hlen, List.drop_left]

/-- **The verdict on a command** is the one that it gets on the memory which the commands in
front of it leave. -/
theorem getElem?_runCommands (memory : Option Memory) (commands : List Command) (k : Nat) :
    (runCommands memory commands)[k]?
      = commands[k]?.map fun c => (c, (c.run (memoryAfter memory (commands.take k))).1) := by
  induction commands generalizing memory k with
  | nil => simp [runCommands]
  | cons c commands ih =>
    cases k with
    | zero => simp [runCommands]
    | succ k => simp [runCommands, ih]

/-! ## Passes and lines -/

section

variable (source : String) (c : Command) (complaint : Complaint) (pass : Unit)

@[simp] theorem hasPassed_ok : hasPassed (c, .ok pass) = true := rfl

@[simp] theorem hasPassed_error : hasPassed (c, .error complaint) = false := rfl

@[simp] theorem failureLine?_ok : failureLine? source (c, .ok pass) = none := rfl

@[simp] theorem failureLine?_error :
    failureLine? source (c, .error complaint) = some (failureLine source c complaint) := rfl

end

/-- **What a report says of each command**: a line if it failed. -/
def Script.lines (s : Script) : List (Option String) :=
  (runCommands none s.commands).map (failureLine? s.source)

/-- A report has the lines of the commands that failed, in order. -/
theorem failures_eq_reduceOption_lines (s : Script) : s.run.failures = s.lines.reduceOption := by
  rw [List.reduceOption, Script.lines, List.filterMap_map]
  rfl

/-- Whether every command of a row passes. -/
def allPass (memory : Option Memory) (commands : List Command) : Bool :=
  (runCommands memory commands).all hasPassed

@[simp] theorem allPass_nil (memory : Option Memory) : allPass memory [] = true := rfl

theorem hasPassed_iff (c : Command) (verdict : Except Complaint Unit) :
    hasPassed (c, verdict) = true ↔ verdict = .ok () := by
  cases verdict with
  | error complaint => simp
  | ok pass => simp

theorem allPass_cons (memory : Option Memory) (c : Command) (cs : List Command) :
    allPass memory (c :: cs) = true
      ↔ (c.run memory).1 = .ok () ∧ allPass (c.run memory).2 cs = true := by
  simp only [allPass, runCommands, List.all_cons, Bool.and_eq_true, hasPassed_iff]

theorem allPass_append (memory : Option Memory) (first second : List Command) :
    allPass memory (first ++ second) = true
      ↔ allPass memory first = true ∧ allPass (memoryAfter memory first) second = true := by
  simp only [allPass, runCommands_append, List.all_append, Bool.and_eq_true]

/-- A command has a line in the report exactly if it did not pass. -/
theorem failureLine_eq_none_iff (source : String) (verdict : Command × Except Complaint Unit) :
    failureLine? source verdict = none ↔ hasPassed verdict = true := by
  obtain ⟨c, verdict⟩ := verdict
  cases verdict with
  | error complaint => simp
  | ok pass => simp

/-- **A run is a success if every command passes.** -/
theorem isSuccess_iff (s : Script) : s.run.isSuccess = true ↔ allPass none s.commands = true := by
  simp only [Report.isSuccess, Script.run, List.isEmpty_iff, List.filterMap_eq_nil_iff,
    failureLine_eq_none_iff, allPass, List.all_eq_true]

end WasmExec
