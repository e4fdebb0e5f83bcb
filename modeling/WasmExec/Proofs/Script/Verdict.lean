/-
When an assertion passes.

An assertion can fail for many reasons and pass for one. The statements here are the `↔`
for both kinds, so that nothing passes by accident: an assertion whose mnemonic or operands
cannot be read fails, and so does one that expects a trap where the instruction faulted in
any other way.

The results of an instruction are compared with what was expected one by one. Two values
match if they have the same type and either the same bits or both are NaNs (`Matches`). The
comparison that runs knows that an instruction pushes at most one value and looks at the
number of the expected ones before anything else; `checkResults_iff` says that it comes to
the same as matching the two rows.
-/
import WasmExec.Proofs.Script.Literal
import WasmExec.Script
import Mathlib.Data.List.Forall2

set_option autoImplicit false

namespace WasmExec

/-! ## Matching values -/

/-- **A result that is what was expected**: the same type, and the same bits or two NaNs. -/
def Value.Matches (got expected : Value) : Prop :=
  got.type = expected.type
    ∧ (got.bits = expected.bits ∨ (got.isNaN = true ∧ expected.isNaN = true))

theorem agreesWith_iff (got expected : Value) :
    got.agreesWith expected = true ↔ got.Matches expected := by
  simp only [Value.agreesWith, Value.Matches, Bool.and_eq_true, Bool.or_eq_true,
    decide_eq_true_eq]

/-- One result passes if it matches; the types are compared a second time then. -/
theorem checkResult_iff (index : Nat) (got expected : Value) :
    checkResult index got expected = .ok () ↔ got.Matches expected := by
  unfold checkResult
  by_cases htype : got.type = expected.type
  · rw [if_neg (not_not.mpr htype), ← agreesWith_iff]
    by_cases hagrees : got.agreesWith expected = true
    · simp [hagrees]
    · simp [hagrees]
  · rw [if_pos htype]
    have hno : ¬ got.Matches expected := fun hmatches => htype hmatches.1
    simp [hno]

/-- **Comparing the results is matching two rows.** The lengths are compared first, which
two rows of different lengths would fail anyway. -/
theorem checkResults_iff (got : Option Value) (expected : List Value) :
    checkResults got expected = .ok () ↔ List.Forall₂ Value.Matches got.toList expected := by
  rcases got with _ | v
  · rw [Option.toList_none, List.forall₂_nil_left_iff]
    rcases expected with _ | ⟨e, es⟩
    · simp [checkResults]
    · simp [checkResults]
  · rw [Option.toList_some]
    rcases expected with _ | ⟨e, _ | ⟨e', es⟩⟩
    · simp [checkResults]
    · rw [checkResults, checkResult_iff]
      simp
    · simp [checkResults]

/-! ## Outcomes -/

/-- **An outcome is that of the instruction** exactly if the mnemonic and the operands can
be read. -/
theorem Invocation.run_eq_ok_iff (call : Invocation) (memory : Option Memory)
    (result : Except Fault (Option Value)) :
    (call.run memory).1 = .ok result ↔ ∃ i args, Instruction.parse call.op = .ok i
      ∧ Literal.values call.args = .ok args
      ∧ ((i.withOffset call.offset).execute memory args).1 = result := by
  rw [run, decode]
  cases hparse : Instruction.parse call.op with
  | error fault => simp
  | ok i =>
    cases hargs : Literal.values call.args with
    | error error => simp
    | ok args => simp

section

variable (outcome : Outcome)

/-- A result passes if it matches what was expected, which is read only now. -/
theorem judgeReturn_iff (expected : List Literal) :
    judgeReturn expected outcome = .ok () ↔ ∃ got values, outcome = .ok (.ok got)
      ∧ Literal.values expected = .ok values
      ∧ List.Forall₂ Value.Matches got.toList values := by
  rcases outcome with complaint | fault | got
  · simp [judgeReturn]
  · simp [judgeReturn]
  · cases hvalues : Literal.values expected with
    | error error => simp [judgeReturn, hvalues]
    | ok values => simp [judgeReturn, hvalues, checkResults_iff]

/-- A fault passes if it is a trap and its message begins with the expected text. -/
theorem judgeTrap_iff (text : String) :
    judgeTrap text outcome = .ok () ↔ ∃ fault, outcome = .ok (.error fault)
      ∧ fault.kind = .trap ∧ text.toList <+: fault.message.toList := by
  rcases outcome with complaint | fault | got
  · simp [judgeTrap]
  · by_cases htrap : fault.kind = .trap
    · by_cases htext : text.toList <+: fault.message.toList
      · simp [judgeTrap, Fault.isTrap, htrap, htext]
      · simp [judgeTrap, Fault.isTrap, htrap, htext]
    · simp [judgeTrap, Fault.isTrap, htrap]
  · simp [judgeTrap]

end

/-! ## Verdicts -/

/-- **A value expected by its bits**: one result passes exactly if it matches. -/
theorem judgeReturn_ofBits (got expected : Value) :
    judgeReturn [Literal.ofBits expected] (.ok (.ok (some got))) = .ok ()
      ↔ got.Matches expected := by
  have hvalues : Literal.values [Literal.ofBits expected] = .ok [expected] := by
    simp [Literal.values, Literal.value_ofBits]
  rw [judgeReturn_iff]
  simp [hvalues]

end WasmExec
