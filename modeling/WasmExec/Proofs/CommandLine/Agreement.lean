/-
The command line and the scripts agree.

There are two ways to have one instruction evaluated. A command line names it with its
operands, a memory and data segments; a script makes the memory, copies the segments and
runs the instruction, one command for each. The two read the same things from different
texts, look at them in a different order, and differ in what they do about an error: the
command line stops at the first one, the script records it and goes on.

A `Request` is what both are asked. On the one side are the arguments that spell it
(`Spells`), on the other the commands for it (`Request.setup` and the call). The argument
goes from front to back. Either every step up to the instruction succeeds on both sides,
and then they hold the same memory and execute the same instruction on the same operands;
or some step fails, and then the command line has an exit code other than zero and the
script has a failed command, whatever the rest of it does.
-/
import WasmExec.CommandLine.Evaluate
import WasmExec.Proofs.CommandLine.Segment
import WasmExec.Proofs.Instruction.TypeSoundness
import WasmExec.Proofs.Memory.Limits
import WasmExec.Proofs.Script.Run
import Mathlib.Data.List.Forall2

set_option autoImplicit false

namespace WasmExec.CommandLine

open Text (IsNumeral)

/-! ## Requests -/

/-- **What is asked**: an instruction with its operands, and the memory to run it on. -/
structure Request where
  op : String
  offset : UInt32
  limits : Option (UInt32 × UInt32)
  segments : List (UInt32 × List UInt8)
  operands : List Literal

/-- **The arguments that spell a request.** Without an offset the offset is zero. -/
structure Spells (r : Evaluation) (q : Request) : Prop where
  op : r.op = some q.op
  offset : r.offset.getD 0 = q.offset
  limits : Option.Rel (fun arg limits => SpellsLimits arg limits.1 limits.2) r.memory q.limits
  segments : List.Forall₂ SpellsSegment r.segments q.segments
  operands : List.Forall₂ SpellsOperand r.operands q.operands

/-- The commands that copy segments, one for each. -/
def initCommands (lines : Nat → UInt32) (segments : List (UInt32 × List UInt8)) : List Command :=
  segments.mapIdx fun k segment => .init (lines k) segment.1 segment.2

namespace Request

/-- **The commands before the instruction**: one that makes the memory, if there is to be
one, and one for each segment. The lines are of no account. -/
def setup (q : Request) (lines : Nat → UInt32) : List Command :=
  (q.limits.toList.map fun limits => .memory (lines 0) limits.1 limits.2)
    ++ initCommands (fun k => lines (k + 1)) q.segments

/-- The instruction as a script has it. -/
def call (q : Request) : Invocation := ⟨q.op, q.offset, q.operands⟩

end Request

/-! ## Copying segments -/

theorem initCommands_cons (lines : Nat → UInt32) (segment : UInt32 × List UInt8)
    (segments : List (UInt32 × List UInt8)) :
    initCommands lines (segment :: segments)
      = .init (lines 0) segment.1 segment.2 :: initCommands (fun k => lines (k + 1)) segments :=
  List.mapIdx_cons

/-- Without a memory no segment can be copied. -/
theorem allPass_initCommands_none (lines : Nat → UInt32)
    (segments : List (UInt32 × List UInt8)) :
    allPass none (initCommands lines segments) = true ↔ segments = [] := by
  cases segments with
  | nil => simp [initCommands]
  | cons segment segments => simp [initCommands_cons, allPass_cons, Command.run]

/-- **The segments of both sides.** Either all are copied, and both sides have the same
memory, or both notice one that does not fit. -/
theorem applySegments_agrees {args : List String} {segments : List (UInt32 × List UInt8)}
    (h : List.Forall₂ SpellsSegment args segments) (lines : Nat → UInt32) (m : Memory) :
    (∃ after, applySegments m args = .ok after
        ∧ allPass (some m) (initCommands lines segments) = true
        ∧ memoryAfter (some m) (initCommands lines segments) = some after)
      ∨ (∃ error, applySegments m args = .error error
        ∧ ¬ allPass (some m) (initCommands lines segments) = true) := by
  induction h generalizing m lines with
  | nil => exact .inl ⟨m, rfl, rfl, rfl⟩
  | @cons arg segment args segments hsegment hrest ih =>
    have happly := applySegment_of_spells hsegment m
    rw [initCommands_cons, applySegments, happly, allPass_cons, memoryAfter_cons]
    cases hinit : m.init segment.1 segment.2 with
    | error fault =>
      refine .inr ⟨.segmentRefused fault, rfl, ?_⟩
      simp [Command.run, hinit]
    | ok after =>
      have hrun : (Command.init (lines 0) segment.1 segment.2).run (some m)
          = (.ok (), some after) := by
        simp [Command.run, hinit]
      rw [hrun]
      simpa [Except.mapError] using ih (fun k => lines (k + 1)) after

/-! ## Reading operands -/

/-- A row is read if every text of it is. -/
theorem toOption_mapM {α γ ε : Type} (f : α → Except ε γ) (as : List α) :
    (as.mapM f).toOption = as.mapM fun a => (f a).toOption := by
  induction as with
  | nil => rfl
  | cons a as ih =>
    rw [List.mapM_cons, List.mapM_cons, ← ih]
    cases f a with
    | error e => rfl
    | ok v => cases as.mapM f <;> rfl

/-- Two readers that agree up to their complaints both read a value or both complain. -/
theorem cases_of_toOption_eq {α ε ε' : Type} {x : Except ε α} {y : Except ε' α}
    (h : x.toOption = y.toOption) :
    (∃ a, x = .ok a ∧ y = .ok a) ∨ ∃ e e', x = .error e ∧ y = .error e' := by
  cases x with
  | error e =>
    cases y with
    | error e' => exact .inr ⟨e, e', rfl, rfl⟩
    | ok b => cases h
  | ok a =>
    cases y with
    | error e' => cases h
    | ok b =>
      obtain rfl : a = b := Option.some.inj h
      exact .inl ⟨a, rfl, rfl⟩

/-- **Operands are read as their literals are**, or both rows are refused. -/
theorem operands_agree {args : List String} {literals : List Literal}
    (h : List.Forall₂ SpellsOperand args literals) :
    (∃ values, args.mapM parseOperand = .ok values ∧ Literal.values literals = .ok values)
      ∨ ∃ e e', args.mapM parseOperand = .error e ∧ Literal.values literals = .error e' := by
  refine cases_of_toOption_eq ?_
  rw [Literal.values, toOption_mapM, toOption_mapM]
  induction h with
  | nil => rfl
  | cons hoperand hrest ih =>
    rw [List.mapM_cons, List.mapM_cons, parseOperand_of_spells hoperand, ih]

/-! ## Exit codes -/

@[simp] theorem exit_failed (log : List String) (message : String) :
    (failed log message).exit = 1 := rfl

theorem exit_refused (log : List String) (error : ArgumentError) :
    (refused log error).exit ≠ 0 := by
  unfold refused
  split
  · exact (by decide : (101 : UInt8) ≠ 0)
  · exact (by decide : (1 : UInt8) ≠ 0)

/-! ## Running the instruction -/

/-- The line that shows a result. -/
def shown : Option Value → List String
  | some v => ["Result: " ++ v.format]
  | none => []

theorem finish_of_ok {r : Evaluation} {log : List String} {i : Instruction}
    {memory : Option Memory} {args : List Value} {pushed : Option Value}
    (h : (i.execute memory args).1 = .ok pushed) :
    (r.finish log i memory args).exit = 0 ∧ (r.finish log i memory args).out = shown pushed := by
  simp only [Evaluation.finish, h]
  cases pushed <;> simp [shown]

theorem finish_of_error {r : Evaluation} {log : List String} {i : Instruction}
    {memory : Option Memory} {args : List Value} {fault : Fault}
    (h : (i.execute memory args).1 = .error fault) :
    (r.finish log i memory args).exit = 1 := by
  simp only [Evaluation.finish, h, exit_failed]

/-- An action passes if the instruction is executed, whatever it pushes. -/
theorem judgeAction_iff (outcome : Outcome) :
    judgeAction outcome = .ok () ↔ ∃ pushed, outcome = .ok (.ok pushed) := by
  cases outcome with
  | error complaint => simp [judgeAction]
  | ok result => cases result <;> simp [judgeAction]

/-- **The instruction on the same memory.** Either both sides execute it and it pushes the
same, or both fail: over an operand, over the number of operands, or in the execution. The
command line counts the operands before it executes anything, and where the count is wrong
the execution that the script goes on to is refused. -/
theorem withMemory_agrees {r : Evaluation} {q : Request} (h : Spells r q) {i : Instruction}
    (hparse : Instruction.parse q.op = .ok i) (log : List String) (memory : Option Memory) :
    let printed := r.withMemory q.op log (i.withOffset q.offset) memory
    (∃ pushed, (q.call.run memory).1 = .ok (.ok pushed)
        ∧ printed.exit = 0 ∧ printed.out = shown pushed)
      ∨ (printed.exit ≠ 0 ∧ judgeAction (q.call.run memory).1 ≠ .ok ()) := by
  intro printed
  obtain ⟨args, hargs, hvalues⟩ | ⟨error, error', hargs, hvalues⟩ := operands_agree h.operands
  · have hcall : (q.call.run memory).1 = .ok ((i.withOffset q.offset).execute memory args).1 := by
      simp [Invocation.run, Invocation.decode, Request.call, hparse, hvalues]
    rw [hcall]
    by_cases hcount : args.length = (i.withOffset q.offset).arity
    · have hprinted : printed = r.finish log (i.withOffset q.offset) memory args := by
        simp only [printed, Evaluation.withMemory, hargs]
        rw [if_neg (not_not.mpr hcount)]
      rw [hprinted]
      cases hout : ((i.withOffset q.offset).execute memory args).1 with
      | error fault =>
        exact .inr ⟨by simp [finish_of_error hout], by simp [judgeAction]⟩
      | ok pushed => exact .inl ⟨pushed, rfl, finish_of_ok hout⟩
    · have hexit : printed.exit ≠ 0 := by
        simp [printed, Evaluation.withMemory, hargs, hcount]
      refine .inr ⟨hexit, ?_⟩
      rw [Instruction.execute_argumentCount hcount]
      simp [judgeAction]
  · have hexit : printed.exit ≠ 0 := by
      simp only [printed, Evaluation.withMemory, hargs]
      exact exit_refused log error
    refine .inr ⟨hexit, ?_⟩
    simp [Invocation.run, Invocation.decode, Request.call, hparse, hvalues, judgeAction]

/-! ## From the front to the back -/

/-- **Both sides of a request succeed**: the preparation, and the instruction on the memory
that was prepared, which pushes what the command line shows. -/
def Succeeds (r : Evaluation) (q : Request) (lines : Nat → UInt32) : Prop :=
  ∃ pushed, allPass none (q.setup lines) = true
    ∧ (q.call.run (memoryAfter none (q.setup lines))).1 = .ok (.ok pushed)
    ∧ (r.run q.op).exit = 0 ∧ (r.run q.op).out = shown pushed

/-- **Both sides of a request fail.** -/
def Fails (r : Evaluation) (q : Request) (lines : Nat → UInt32) : Prop :=
  (r.run q.op).exit ≠ 0
    ∧ ¬ (allPass none (q.setup lines) = true
      ∧ judgeAction (q.call.run (memoryAfter none (q.setup lines))).1 = .ok ())

section

variable {r : Evaluation} {q : Request} {lines : Nat → UInt32}

/-- A preparation that fails on both sides is the end of it. -/
theorem Fails.of_setup (hexit : (r.run q.op).exit ≠ 0)
    (hsetup : ¬ allPass none (q.setup lines) = true) : Fails r q lines :=
  ⟨hexit, fun hpass => hsetup hpass.1⟩

/-- A preparation that succeeds on both sides with the same memory leaves the rest to the
instruction. -/
theorem agrees_of_setup (h : Spells r q) {i : Instruction}
    (hparse : Instruction.parse q.op = .ok i) {log : List String} {memory : Option Memory}
    (hrun : r.run q.op = r.withMemory q.op log (i.withOffset q.offset) memory)
    (hpass : allPass none (q.setup lines) = true)
    (hmemory : memoryAfter none (q.setup lines) = memory) :
    Succeeds r q lines ∨ Fails r q lines := by
  unfold Succeeds Fails
  rw [hrun, hmemory]
  obtain ⟨pushed, hcall, hexit, hout⟩ | ⟨hexit, hjudge⟩ := withMemory_agrees h hparse log memory
  · exact .inl ⟨pushed, hpass, hcall, hexit, hout⟩
  · exact .inr ⟨hexit, fun hboth => hjudge hboth.2⟩

/-- Without a memory there can be no segments. -/
theorem agrees_without_memory (h : Spells r q) {i : Instruction}
    (hparse : Instruction.parse q.op = .ok i) (hmemory : r.memory = none)
    (hlimits : q.limits = none) : Succeeds r q lines ∨ Fails r q lines := by
  have hsegments := h.segments
  have hsetup : q.setup lines = initCommands (fun k => lines (k + 1)) q.segments := by
    simp [Request.setup, hlimits]
  cases hargs : r.segments with
  | nil =>
    have hnone : q.segments = [] := by
      rw [hargs, List.forall₂_nil_left_iff] at hsegments
      exact hsegments
    have hrun : r.run q.op = r.withMemory q.op [] (i.withOffset q.offset) none := by
      simp [Evaluation.run, hparse, hmemory, hargs, h.offset]
    rw [hnone] at hsetup
    exact agrees_of_setup h hparse hrun (by rw [hsetup]; rfl) (by rw [hsetup]; rfl)
  | cons arg args =>
    have hsome : q.segments ≠ [] := by
      intro hnil
      rw [hargs, hnil, List.forall₂_nil_right_iff] at hsegments
      cases hsegments
    have hexit : (r.run q.op).exit ≠ 0 := by
      simp [Evaluation.run, hparse, hmemory, hargs]
    refine .inr (.of_setup hexit ?_)
    rw [hsetup, allPass_initCommands_none]
    exact hsome

/-- With a memory the segments are copied into it, unless it cannot be made. -/
theorem agrees_with_memory (h : Spells r q) {i : Instruction}
    (hparse : Instruction.parse q.op = .ok i) {arg : String} {minimum maximum : UInt32}
    (hmemory : r.memory = some arg) (hlimits : q.limits = some (minimum, maximum))
    (hspelled : SpellsLimits arg minimum maximum) : Succeeds r q lines ∨ Fails r q lines := by
  have hread := parseLimits_of_spells hspelled
  have hsetup : q.setup lines = .memory (lines 0) minimum maximum
      :: initCommands (fun k => lines (k + 1)) q.segments := by
    simp [Request.setup, hlimits]
  cases hcreate : Memory.create minimum maximum with
  | error fault =>
    have hexit : (r.run q.op).exit ≠ 0 := by
      simp [Evaluation.run, hparse, hmemory, hread, hcreate]
    refine .inr (.of_setup hexit ?_)
    rw [hsetup, allPass_cons]
    simp [Command.run, hcreate]
  | ok m =>
    have hmade : (Command.memory (lines 0) minimum maximum).run none = (.ok (), some m) := by
      simp [Command.run, hcreate]
    obtain ⟨after, happly, hpass, hafter⟩ | ⟨error, happly, hpass⟩ :=
      applySegments_agrees h.segments (fun k => lines (k + 1)) m
    · have hrun : ∃ log, r.run q.op
          = r.withMemory q.op log (i.withOffset q.offset) (some after) := by
        refine ⟨r.note ("Creating memory: min=" ++ toString minimum.toNat ++ " max=" ++
          toString maximum.toNat ++ " pages"), ?_⟩
        simp only [Evaluation.run, hparse, hmemory, hread, hcreate, happly, h.offset]
      obtain ⟨log, hrun⟩ := hrun
      refine agrees_of_setup h hparse hrun ?_ ?_
      · rw [hsetup, allPass_cons, hmade]
        exact ⟨rfl, hpass⟩
      · rw [hsetup, memoryAfter_cons, hmade]
        exact hafter
    · have hexit : (r.run q.op).exit ≠ 0 := by
        simp only [Evaluation.run, hparse, hmemory, hread, hcreate, happly]
        exact exit_refused _ error
      refine .inr (.of_setup hexit ?_)
      rw [hsetup, allPass_cons, hmade]
      exact fun hboth => hpass hboth.2

/-- **Both sides of a request succeed or both fail.** -/
theorem run_agrees (h : Spells r q) (lines : Nat → UInt32) :
    Succeeds r q lines ∨ Fails r q lines := by
  have hlimits := h.limits
  cases hparse : Instruction.parse q.op with
  | error fault =>
    -- the command line finds out first and the script last
    refine .inr ⟨?_, ?_⟩
    · simp [Evaluation.run, hparse]
    · simp [Invocation.run, Invocation.decode, Request.call, hparse, judgeAction]
  | ok i =>
    cases hmemory : r.memory with
    | none =>
      cases hq : q.limits with
      | none => exact agrees_without_memory h hparse hmemory hq
      | some limits =>
        rw [hmemory, hq] at hlimits
        cases hlimits
    | some arg =>
      cases hq : q.limits with
      | none =>
        rw [hmemory, hq] at hlimits
        cases hlimits
      | some limits =>
        rw [hmemory, hq] at hlimits
        cases hlimits with
        | some hspelled => exact agrees_with_memory h hparse hmemory hq hspelled

end

/-! ## The two front ends -/

/-- **The two front ends agree.** The command line ends with the exit code zero exactly if
the script has no failure. It then shows what the instruction pushed, and the script still
has no failure if it expects that value, written as its type and the number of its bits. -/
theorem front_ends_agree {r : Evaluation} {q : Request} (h : Spells r q) (source : String)
    (lines : Nat → UInt32) (line : UInt32) :
    let script (last : Command) : Script := ⟨source, q.setup lines ++ [last]⟩
    ((r.run q.op).exit = 0 ↔ (script (.action line q.call)).run.isSuccess = true)
      ∧ ((r.run q.op).exit = 0 → ∃ pushed,
        (q.call.run (memoryAfter none (q.setup lines))).1 = .ok (.ok pushed)
          ∧ match pushed with
            | none => (r.run q.op).out = []
            | some v => (r.run q.op).out = ["Result: " ++ v.format]
              ∧ (script (.assertReturn line q.call
                [⟨v.type.name, toString v.bits⟩])).run.isSuccess = true) := by
  intro script
  have hlast : ∀ c : Command, (script c).run.isSuccess = true
      ↔ allPass none (q.setup lines) = true
        ∧ (c.run (memoryAfter none (q.setup lines))).1 = .ok () := by
    intro c
    rw [isSuccess_iff, allPass_append, allPass_cons]
    simp
  rw [hlast]
  obtain ⟨pushed, hpass, hcall, hexit, hout⟩ | ⟨hexit, hfails⟩ := run_agrees h lines
  · have hjudge : judgeAction (q.call.run (memoryAfter none (q.setup lines))).1 = .ok () :=
      (judgeAction_iff _).mpr ⟨pushed, hcall⟩
    refine ⟨⟨fun _ => ⟨hpass, hjudge⟩, fun _ => hexit⟩, fun _ => ⟨pushed, hcall, ?_⟩⟩
    cases pushed with
    | none => exact hout
    | some v =>
      refine ⟨hout, ?_⟩
      rw [hlast]
      refine ⟨hpass, ?_⟩
      have hexpected : Literal.values [Literal.ofBits v] = .ok [v] := by
        simp [Literal.values, Literal.value_ofBits]
      show judgeReturn [Literal.ofBits v] (q.call.run _).1 = .ok ()
      rw [hcall]
      simp [judgeReturn, hexpected, checkResults, checkResult, Value.agreesWith]
  · exact ⟨⟨fun hzero => absurd hzero hexit, fun hboth => absurd hboth hfails⟩,
      fun hzero => absurd hzero hexit⟩

/-- Two numerals as operands, on a page with a segment at its end. -/
theorem front_ends_agree_copysign :
    ∃ (r : Evaluation) (q : Request), Spells r q ∧ q.limits = some (1, 2)
      ∧ q.segments = [(65534, [0xc0, 0x3f])] ∧ q.operands = [⟨"f32", "1.5"⟩, ⟨"f32", "-inf"⟩]
      ∧ (r.run q.op).exit = 0 ∧ (r.run q.op).out = ["Result: -1.5 (f32) [0xbfc00000]"]
      ∧ (Script.run ⟨"", q.setup (fun _ => 0) ++ [.action 1 q.call]⟩).isSuccess = true
      ∧ (Script.run ⟨"", q.setup (fun _ => 0)
          ++ [.assertReturn 1 q.call [⟨"f32", "3217031168"⟩]]⟩).isSuccess = true := by
  let r : Evaluation :=
    ⟨some "f32.copysign", ["1.5:f32", "-inf:f32"], some "1:02", ["65534:c03F"], none, false⟩
  let q : Request := ⟨"f32.copysign", 0, some (1, 2), [(65534, [0xc0, 0x3f])],
    [⟨"f32", "1.5"⟩, ⟨"f32", "-inf"⟩]⟩
  have htwo : IsNumeral "02".toList 2 :=
    ⟨by decide, List.all_eq_true.mp (by decide), by decide⟩
  have hlimits : SpellsLimits "1:02" 1 2 :=
    ⟨"1", "02", by decide, Text.isNumeral_toString 1, htwo⟩
  have hbytes : WritesBytes "c03F" [0xc0, 0x3f] := by decide
  have hsegment : SpellsSegment "65534:c03F" (65534, [0xc0, 0x3f]) :=
    spellsSegment_written hbytes 65534
  have hspells : Spells r q := by
    refine ⟨rfl, rfl, .some hlimits, .cons hsegment .nil, .cons ?_ (.cons ?_ .nil)⟩
    · exact ⟨by decide, .float .w32, rfl, .inr (by decide)⟩
    · exact ⟨by decide, .float .w32, rfl, .inr (by decide)⟩
  have hcall : ∀ memory, (q.call.run memory).1 = .ok (.ok (some (.float .w32 0xbfc00000))) := by
    intro memory
    have hdecode : q.call.decode = .ok (.numeric (.floatBinary .w32 .copysign),
        [.float .w32 0x3fc00000, .float .w32 0xff800000]) := by decide +kernel
    rw [Invocation.run, hdecode]
    rfl
  -- the segment ends where the page does
  have hsuccess : (Script.run ⟨"", q.setup (fun _ => 0) ++ [.action 1 q.call]⟩).isSuccess
      = true := by
    obtain ⟨m, hm⟩ : ∃ m, Memory.create 1 2 = .ok m := ⟨_, rfl⟩
    have hinit : m.init 65534 [0xc0, 0x3f] = .ok (m.overwrite 65534 [0xc0, 0x3f]) := by
      apply if_pos
      rw [m.contains_iff, Memory.length_content_of_create hm]
      decide
    have hsetup : q.setup (fun _ => 0) = [.memory 0 1 2, .init 0 65534 [0xc0, 0x3f]] := rfl
    rw [isSuccess_iff, hsetup]
    simp [allPass_cons, Command.run, hm, hinit, hcall, judgeAction]
  -- the script is the side that is easily run, and the other one follows it
  obtain ⟨hagree, hreturn⟩ := front_ends_agree hspells "" (fun _ => 0) 1
  have hexit : (r.run q.op).exit = 0 := hagree.mpr hsuccess
  obtain ⟨pushed, hpushed, hline⟩ := hreturn hexit
  rw [hcall] at hpushed
  cases hpushed
  obtain ⟨hout, hreturned⟩ := hline
  have hshown : (Value.float .w32 0xbfc00000).format = "-1.5 (f32) [0xbfc00000]" := by
    decide +kernel
  rw [hshown] at hout
  exact ⟨r, q, hspells, rfl, rfl, rfl, hexit, hout, hsuccess, hreturned⟩

end WasmExec.CommandLine
