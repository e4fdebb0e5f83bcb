/-
What is expected of an instruction has no part in what it does.

Three kinds of command run an instruction, and they differ in what they expect of it. Two
scripts are compared here that agree up to expectations: an `Edit` keeps a command, puts
another command with the same instruction in its place, or adds or takes away a command
whose instruction cannot touch the memory. Each edit, made at any place and any number of
times, leaves the memory that the next command meets as it was (`memoryAfter_edits`). A
command that was kept therefore meets the same memory in both scripts, and since nothing
but that memory and the command goes into a verdict, it is judged alike.

The step is where the claim could fail. A command whose verdict is a failure could leave
another memory than one that passes, and an expectation that cannot be read could keep the
instruction from being run. Neither is so: `memory_run_of_call` gives the memory after such
a command from the invocation alone.
-/
import WasmExec.Proofs.Script.Run
import Mathlib.Data.List.Basic

set_option autoImplicit false

namespace WasmExec

/-! ## Commands that run an instruction -/

/-- The invocation of a command that runs an instruction. -/
def Command.call? : Command → Option Invocation
  | .action _ call => some call
  | .assertReturn _ call _ => some call
  | .assertTrap _ call _ => some call
  | .memory _ _ _ => none
  | .init _ _ _ => none

/-- **An invocation that cannot touch the memory**: no instruction has its mnemonic, or a
numeric one has, or an operand of it denotes no value. -/
def Invocation.IsInert (call : Invocation) : Prop :=
  (∃ fault, Instruction.parse call.op = .error fault)
    ∨ (∃ op, Instruction.parse call.op = .ok (.numeric op))
    ∨ ∃ error, Literal.values call.args = .error error

/-- The memory after a command is the one after its invocation, whatever is expected. -/
theorem Command.memory_run_of_call {c : Command} {call : Invocation}
    (h : c.call? = some call) (memory : Option Memory) :
    (c.run memory).2 = (call.run memory).2 := by
  rcases c with _ | _ | ⟨line, call'⟩ | ⟨line, call', expected⟩ | ⟨line, call', text⟩
  · simp [call?] at h
  · simp [call?] at h
  -- in the other three the verdict is made from the outcome, and the memory is passed on
  all_goals
    rw [call?, Option.some.injEq] at h
    rw [h]
    rfl

namespace Invocation

variable {call : Invocation}

/-- An invocation that is decoded leaves the memory that its instruction leaves. -/
theorem memory_run_of_decode {i : Instruction} {args : List Value}
    (h : call.decode = .ok (i, args)) (memory : Option Memory) :
    (call.run memory).2 = (i.execute memory args).2 := by
  rw [run, h]

theorem memory_run_of_not_decode {complaint : Complaint} (h : call.decode = .error complaint)
    (memory : Option Memory) : (call.run memory).2 = memory := by
  rw [run, h]

/-- **An inert invocation leaves the memory alone.** -/
theorem IsInert.memory_run (h : call.IsInert) (memory : Option Memory) :
    (call.run memory).2 = memory := by
  rcases h with ⟨fault, hparse⟩ | ⟨op, hparse⟩ | ⟨error, hargs⟩
  · have hdecode : call.decode = .error (.unreadableOp call.op fault) := by
      simp only [decode, hparse]
    exact memory_run_of_not_decode hdecode memory
  · cases hargs : Literal.values call.args with
    | error error =>
      have hdecode : call.decode = .error (.unreadableLiteral error) := by
        simp only [decode, hparse, hargs]
      exact memory_run_of_not_decode hdecode memory
    | ok args =>
      have hdecode : call.decode = .ok (.numeric op, args) := by
        simp only [decode, hparse, hargs, Instruction.withOffset]
      rw [memory_run_of_decode hdecode, Instruction.execute]
  · -- the mnemonic is read first, so its fault would be the one that is reported
    cases hparse : Instruction.parse call.op with
    | error fault =>
      have hdecode : call.decode = .error (.unreadableOp call.op fault) := by
        simp only [decode, hparse]
      exact memory_run_of_not_decode hdecode memory
    | ok i =>
      have hdecode : call.decode = .error (.unreadableLiteral error) := by
        simp only [decode, hparse, hargs]
      exact memory_run_of_not_decode hdecode memory

end Invocation

/-! ## Edits of a script -/

/-- **A step from one script to another.** -/
inductive Edit where
  /-- A command that both scripts have. -/
  | keep (c : Command)
  /-- A command of the one script, and the one that the other has in its place. -/
  | replace (old new : Command)
  /-- A command that only the new script has. -/
  | insert (new : Command)
  /-- A command that only the old script has. -/
  | delete (old : Command)

namespace Edit

/-- The commands of the script before the edit. -/
def old : Edit → List Command
  | .keep c => [c]
  | .replace old _ => [old]
  | .insert _ => []
  | .delete old => [old]

/-- The commands of the script after the edit. -/
def new : Edit → List Command
  | .keep c => [c]
  | .replace _ new => [new]
  | .insert new => [new]
  | .delete _ => []

/-- **An edit of expectations.** A command may give way to another one with the same
invocation, of any of the three kinds. One with an inert invocation may come and go. -/
inductive OfExpectation : Edit → Prop
  | keep (c : Command) : OfExpectation (.keep c)
  | replace {old new : Command} {call : Invocation} (hold : old.call? = some call)
      (hnew : new.call? = some call) : OfExpectation (.replace old new)
  | insert {new : Command} {call : Invocation} (hnew : new.call? = some call)
      (hinert : call.IsInert) : OfExpectation (.insert new)
  | delete {old : Command} {call : Invocation} (hold : old.call? = some call)
      (hinert : call.IsInert) : OfExpectation (.delete old)

/-- One edit leaves the memory that comes after it as it was. -/
theorem OfExpectation.memoryAfter_eq {e : Edit} (h : e.OfExpectation)
    (memory : Option Memory) : memoryAfter memory e.old = memoryAfter memory e.new := by
  rcases h with c | ⟨hold, hnew⟩ | ⟨hnew, hinert⟩ | ⟨hold, hinert⟩
  · rfl
  · simp only [old, new, memoryAfter_cons, memoryAfter_nil]
    rw [Command.memory_run_of_call hold, Command.memory_run_of_call hnew]
  · simp only [old, new, memoryAfter_cons, memoryAfter_nil]
    rw [Command.memory_run_of_call hnew, hinert.memory_run]
  · simp only [old, new, memoryAfter_cons, memoryAfter_nil]
    rw [Command.memory_run_of_call hold, hinert.memory_run]

end Edit

/-- **A row of edits** leaves the memory that comes after it as it was. -/
theorem memoryAfter_edits {edits : List Edit} (h : ∀ e ∈ edits, e.OfExpectation)
    (memory : Option Memory) :
    memoryAfter memory (edits.flatMap Edit.old) = memoryAfter memory (edits.flatMap Edit.new) := by
  induction edits generalizing memory with
  | nil => rfl
  | cons e edits ih =>
    have hstep : memoryAfter memory e.old = memoryAfter memory e.new :=
      (h e List.mem_cons_self).memoryAfter_eq memory
    have hrest : ∀ e' ∈ edits, e'.OfExpectation := fun e' he' => h e' (List.mem_cons_of_mem e he')
    rw [List.flatMap_cons, List.flatMap_cons, memoryAfter_append, memoryAfter_append, hstep]
    exact ih hrest _

/-! ## Commands that were kept -/

/-- **What a run says of a command at a place.** -/
theorem run_at_place (source : String) (front back : List Command) (c : Command) :
    let s : Script := ⟨source, front ++ c :: back⟩
    let verdict := (c.run (memoryAfter none front)).1
    (runCommands none s.commands)[front.length]? = some (c, verdict)
      ∧ s.lines[front.length]? = some (failureLine? source (c, verdict))
      ∧ memoryAfter none (s.commands.take (front.length + 1))
        = (c.run (memoryAfter none front)).2 := by
  intro s verdict
  have hget : s.commands[front.length]? = some c := by
    rw [List.getElem?_append_right (Nat.le_refl _), Nat.sub_self]
    rfl
  have hfront : s.commands.take front.length = front := List.take_left
  have htake : s.commands.take (front.length + 1) = front ++ [c] := by
    rw [List.take_add_one, hfront, hget]
    rfl
  have hverdict : (runCommands none s.commands)[front.length]? = some (c, verdict) := by
    rw [getElem?_runCommands, hget, hfront]
    rfl
  refine ⟨hverdict, ?_, ?_⟩
  · rw [Script.lines, List.getElem?_map, hverdict]
    rfl
  · rw [htake, memoryAfter_append]
    rfl

/-- **Expectations never influence execution.** Let a script go over into another one by
edits of expectations. A command that both have, whatever stands around it, then has the
same verdict and the same line of the report in both, and leaves the same memory. And a
command whose invocation can be decoded leaves the memory that its instruction leaves,
whatever is expected of it and whether or not it passes. -/
theorem expectations_never_influence {edits : List Edit} (h : ∀ e ∈ edits, e.OfExpectation)
    (source : String) :
    let before : Script := ⟨source, edits.flatMap Edit.old⟩
    let after : Script := ⟨source, edits.flatMap Edit.new⟩
    (∀ front c back, edits = front ++ .keep c :: back →
      let i := (front.flatMap Edit.old).length
      let j := (front.flatMap Edit.new).length
      (∃ verdict, (runCommands none before.commands)[i]? = some (c, verdict)
          ∧ (runCommands none after.commands)[j]? = some (c, verdict))
        ∧ (∃ line, before.lines[i]? = some line ∧ after.lines[j]? = some line)
        ∧ memoryAfter none (before.commands.take (i + 1))
          = memoryAfter none (after.commands.take (j + 1)))
      ∧ ∀ (c : Command) (call : Invocation) (i : Instruction) (args : List Value),
        c.call? = some call → call.decode = .ok (i, args) →
        ∀ memory, (c.run memory).2 = (i.execute memory args).2 := by
  intro before after
  refine ⟨?_, ?_⟩
  · rintro front c back rfl i j
    have hfront : ∀ e ∈ front, e.OfExpectation := fun e he => h e (List.mem_append_left _ he)
    -- the memory that `c` meets is the same on both sides
    have hmemory := memoryAfter_edits hfront none
    have hbefore : before = ⟨source, front.flatMap Edit.old ++ c :: back.flatMap Edit.old⟩ := by
      simp [before, Edit.old]
    have hafter : after = ⟨source, front.flatMap Edit.new ++ c :: back.flatMap Edit.new⟩ := by
      simp [after, Edit.new]
    obtain ⟨hverdict, hline, hleft⟩ :=
      run_at_place source (front.flatMap Edit.old) (back.flatMap Edit.old) c
    obtain ⟨hverdict', hline', hleft'⟩ :=
      run_at_place source (front.flatMap Edit.new) (back.flatMap Edit.new) c
    rw [← hmemory] at hverdict' hline' hleft'
    rw [hbefore, hafter]
    exact ⟨⟨_, hverdict, hverdict'⟩, ⟨_, hline, hline'⟩, hleft.trans hleft'.symm⟩
  · intro c call i args hcall hdecode memory
    rw [Command.memory_run_of_call hcall, Invocation.memory_run_of_decode hdecode]

/-- An assertion that fails still grows the memory, and so does the action that takes its
place; one command with a numeric instruction is added, and one whose operand cannot be read
is taken away. The command behind them all finds one page in both scripts. -/
theorem expectations_never_influence_failed_growth :
    let grow : Invocation := ⟨"memory.grow", 0, [⟨"i32", "1"⟩]⟩
    let add : Invocation := ⟨"i32.add", 0, [⟨"i32", "1"⟩, ⟨"i32", "2"⟩]⟩
    let fill : Invocation := ⟨"memory.fill", 0, [⟨"i32", "x"⟩]⟩
    let last : Command := .assertReturn 5 ⟨"memory.size", 0, []⟩ [⟨"i32", "1"⟩]
    (runCommands none
      [.memory 1 0 1, .assertTrap 2 grow "unreachable", .action 4 fill, last])[3]?
        = some (last, .ok ())
      ∧ (runCommands none
        [.memory 1 0 1, .assertTrap 9 add "", .action 3 grow, last])[3]?
        = some (last, .ok ()) := by
  intro grow add fill last
  let edits : List Edit := [.keep (.memory 1 0 1), .insert (.assertTrap 9 add ""),
    .replace (.assertTrap 2 grow "unreachable") (.action 3 grow), .delete (.action 4 fill),
    .keep last]
  have hadd : add.IsInert := .inr (.inl ⟨.intBinary .w32 .add, by decide⟩)
  have hfill : fill.IsInert := .inr (.inr ⟨.malformed .i32 "x", by decide⟩)
  have hedits : ∀ e ∈ edits, e.OfExpectation := by
    simp only [edits, List.forall_mem_cons]
    exact ⟨.keep _, .insert rfl hadd, .replace rfl rfl, .delete rfl hfill, .keep _, by simp⟩
  obtain ⟨⟨verdict, hbefore, hafter⟩, -, -⟩ :=
    (expectations_never_influence hedits "").1 (edits.take 4) last [] rfl
  have hpass : (runCommands none
      [.memory 1 0 1, .assertTrap 2 grow "unreachable", .action 4 fill, last])[3]?
        = some (last, .ok ()) := by decide +kernel
  have hverdict : verdict = .ok () := by
    have hboth := hbefore.symm.trans hpass
    simpa using hboth
  rw [hverdict] at hafter
  exact ⟨hpass, hafter⟩

end WasmExec
