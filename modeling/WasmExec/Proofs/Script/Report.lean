/-
The report on a run.

A host runs a script by a loop. It keeps one memory, adds to a 32-bit counter what passes
and puts a line behind the others for what fails (`Tally`). `Script.run` says the same
without a loop: it judges the commands one after another, counts the passes and takes the
lines. `foldl_add` is the invariant of the loop, and the bound on the number of commands is
what keeps its counter from coming around to zero.

What goes from one command to the next is the memory and nothing else. A command that makes
a memory does not look at the one it replaces, so a script from such a command on is judged
as if nothing had been in front of it (`runCommands_memory`).
-/
import WasmExec.Proofs.Memory.Limits
import WasmExec.Proofs.Script.Run
import Mathlib.Data.List.Basic

set_option autoImplicit false

namespace WasmExec

/-! ## The loop -/

/-- **What a host holds while it runs a script.** -/
structure Tally where
  memory : Option Memory
  passes : UInt32
  failures : List String

/-- What one command adds. -/
def Tally.add (source : String) (t : Tally) (c : Command) : Tally :=
  match c.run t.memory with
  | (.ok (), after) => { t with memory := after, passes := t.passes + 1 }
  | (.error complaint, after) =>
    { t with memory := after, failures := t.failures ++ [failureLine source c complaint] }

/-- **A run as a loop**, from a state without a memory. -/
def Script.tally (s : Script) : Tally := s.commands.foldl (Tally.add s.source) ⟨none, 0, []⟩

/-- **The invariant of the loop**: behind a row of commands it holds the memory after them,
and has added a pass or a line for each. -/
theorem foldl_add (source : String) (t : Tally) (commands : List Command) :
    commands.foldl (Tally.add source) t
      = { memory := memoryAfter t.memory commands
          passes := t.passes
            + UInt32.ofNat ((runCommands t.memory commands).countP hasPassed)
          failures := t.failures
            ++ (runCommands t.memory commands).filterMap (failureLine? source) } := by
  induction commands generalizing t with
  | nil => simp [runCommands]
  | cons c commands ih =>
    rw [List.foldl_cons, ih]
    rcases hrun : c.run t.memory with ⟨complaint | pass, after⟩
    · simp [Tally.add, runCommands, hrun]
    · have hpass : hasPassed (c, .ok pass) = true := rfl
      have hline : failureLine? source (c, .ok pass) = none := rfl
      -- the pass that the step adds stands behind the others in the count
      simp [Tally.add, runCommands, hrun, List.countP_cons_of_pos hpass,
        List.filterMap_cons_none hline, UInt32.add_assoc, UInt32.add_comm 1]

/-! ## One verdict for each command -/

/-- Every verdict is a pass or a line, and not both. -/
theorem countP_add_length_filterMap (source : String)
    (verdicts : List (Command × Except Complaint Unit)) :
    verdicts.countP hasPassed + (verdicts.filterMap (failureLine? source)).length
      = verdicts.length := by
  induction verdicts with
  | nil => rfl
  | cons verdict verdicts ih =>
    obtain ⟨c, complaint | pass⟩ := verdict
    · rw [List.countP_cons_of_neg (by simp), List.filterMap_cons_some (failureLine?_error _ _ _),
        List.length_cons, List.length_cons]
      omega
    · rw [List.countP_cons_of_pos (hasPassed_ok _ _),
        List.filterMap_cons_none (failureLine?_ok _ _ _), List.length_cons]
      omega

theorem passes_add_length_failures (s : Script) :
    s.run.passes + s.run.failures.length = s.commands.length := by
  have hcount := countP_add_length_filterMap s.source (runCommands none s.commands)
  rw [length_runCommands] at hcount
  exact hcount

/-- The loop counts as many passes as the report says, if there are not too many. -/
theorem tally_agrees {s : Script} (h : s.commands.length < 2 ^ 32) :
    s.tally.passes.toNat = s.run.passes ∧ s.tally.failures = s.run.failures := by
  rw [Script.tally, foldl_add]
  have hcount := passes_add_length_failures s
  have hsmall : s.run.passes < 2 ^ 32 := by omega
  refine ⟨?_, List.nil_append _⟩
  simp only [UInt32.zero_add]
  exact UInt32.toNat_ofNat_of_lt hsmall

/-- The line of a command is a matter of its own verdict. -/
theorem getElem?_lines (s : Script) (k : Nat) :
    s.lines[k]? = s.commands[k]?.map fun c =>
      failureLine? s.source (c, (c.run (memoryAfter none (s.commands.take k))).1) := by
  rw [Script.lines, List.getElem?_map, getElem?_runCommands, Option.map_map]
  rfl

/-! ## New memories -/

section

variable {minimum maximum : UInt32}

/-- Limits that a memory can be created with. -/
theorem exists_create (h : minimum.toNat ≤ min maximum.toNat 65536) :
    ∃ m, Memory.create minimum maximum = .ok m := by
  rcases Memory.create_cases minimum maximum with ⟨hlarge, -⟩ | ⟨-, habove, -⟩ | ⟨-, hcreate⟩
  · rw [Memory.pageLimit] at hlarge
    omega
  · rw [Memory.pageLimit] at habove
    omega
  · exact ⟨_, hcreate⟩

/-- **A command that makes a memory isolates** what comes after it: the memory that it
replaces does not matter. -/
theorem runCommands_memory (h : minimum.toNat ≤ min maximum.toNat 65536) (line : UInt32)
    (memory : Option Memory) (commands : List Command) :
    runCommands memory (.memory line minimum maximum :: commands)
      = runCommands none (.memory line minimum maximum :: commands) := by
  obtain ⟨m, hcreate⟩ := exists_create h
  have hrun : ∀ memory', (Command.memory line minimum maximum).run memory' = (.ok (), some m) := by
    intro memory'
    rw [Command.run, hcreate]
  rw [runCommands, runCommands, hrun, hrun]

end

/-! ## The report -/

end WasmExec
