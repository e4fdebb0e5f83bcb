/-
Arguments are read without accident, but for one.

A reader of an argument gives a value or an error to report. On a machine there is a third outcome:
a slice of the text that is no text ends the program, and no error is reported. Here the readers are
written with the slices they take. A reader that splits at a colon takes two, and both are safe
whatever the text is. The reader of a segment goes on to slice the digits at every second byte,
and nothing has told it that a character ends there.

So operands and limits are always answered, and a segment is answered unless it is cut inside
a character (`readSegment_eq`). The memory is not touched before the text is read, and not
written before the segment is known to fit, so whatever the outcome is, only success changes it.
-/
import WasmExec.Proofs.CommandLine.Acceptance
import WasmExec.Proofs.Machine.Memory

set_option autoImplicit false

namespace WasmExec.Machine

open CommandLine (ArgumentError AcceptsSegment CutsCharacter)

/-! ## The readers in steps

The outer outcome is the machine's and the inner one the reader's. -/

/-- **The value of an operand.** -/
def readOperand (arg : String) : Except Hazard (Except ArgumentError Value) := do
  match ← splitLast ':' arg with
  | none => return .error (.operandWithoutType arg)
  | some (text, name) =>
    match ValType.parse name with
    | .error _ => return .error (.unknownType name)
    | .ok t =>
      match CommandLine.readValue? t text.toList with
      | some v => return .ok v
      | none => return .error (.malformedOperand text t)

/-- **The limits of a memory.** -/
def readLimits (arg : String) : Except Hazard (Except ArgumentError (UInt32 × UInt32)) := do
  match ← splitFirst ':' arg with
  | none => return .error (.limitsWithoutMaximum arg)
  | some (minimum, maximum) =>
    match CommandLine.readPageCount minimum.toList with
    | .error error => return .error error
    | .ok minimum =>
      match CommandLine.readPageCount maximum.toList with
      | .error error => return .error error
      | .ok maximum => return .ok (minimum, maximum)

/-- **The offset and the bytes of a segment.** -/
def readSegment (arg : String) : Except Hazard (Except ArgumentError (UInt32 × List UInt8)) := do
  match ← splitFirst ':' arg with
  | none => return .error (.segmentWithoutOffset arg)
  | some (offset, digits) =>
    match Text.readUInt32? offset.toList with
    | none => return .error (.malformedOffset offset)
    | some offset =>
      if digits.utf8ByteSize % 2 ≠ 0 then return .error (.oddDigitCount digits)
      else
        match ← readPairsFrom digits 0 with
        | some bytes => return .ok (offset, bytes)
        | none => return .error (.malformedBytes digits)

/-- **Copies bytes into a memory in place**, and reports a fault of the memory as an error. What was
written before a stop stays written. -/
def loadBytes (offset : UInt32) (bytes : List UInt8) :
    EStateM Hazard Memory (Except ArgumentError Unit) := fun m =>
  match init offset bytes m with
  | .ok () after => .ok (.ok ()) after
  | .error (.fault reason) after => .ok (.error (.segmentRefused reason)) after
  | .error (.hazard hazard) after => .error hazard after

/-- **Copies a segment into a memory in place.** -/
def loadSegment (arg : String) : EStateM Hazard Memory (Except ArgumentError Unit) := fun m =>
  match readSegment arg with
  | .error hazard => .error hazard m
  | .ok (.error error) => .ok (.error error) m
  | .ok (.ok (offset, bytes)) => loadBytes offset bytes m

/-! ## Agreement -/

/-- **Operands are always answered**, with a value or with an error to report. -/
theorem readOperand_eq (arg : String) : readOperand arg = .ok (CommandLine.parseOperand arg) := by
  unfold readOperand CommandLine.parseOperand
  rw [splitLast_agrees]
  cases CommandLine.splitLast ':' arg.toList with
  | none => rfl
  | some parts =>
    obtain ⟨text, name⟩ := parts
    simp only [Option.map_some, bind, Except.bind, String.toList_ofList]
    cases ValType.parse (String.ofList name) with
    | error reason => rfl
    | ok t =>
      dsimp only
      cases CommandLine.readValue? t text <;> rfl

/-- **Limits are always answered.** -/
theorem readLimits_eq (arg : String) : readLimits arg = .ok (CommandLine.parseLimits arg) := by
  unfold readLimits CommandLine.parseLimits
  rw [splitFirst_agrees]
  cases CommandLine.splitFirst ':' arg.toList with
  | none => rfl
  | some parts =>
    obtain ⟨minimum, maximum⟩ := parts
    simp only [Option.map_some, bind, Except.bind, String.toList_ofList]
    cases CommandLine.readPageCount minimum with
    | error error => rfl
    | ok least =>
      dsimp only
      cases CommandLine.readPageCount maximum <;> rfl

/-- The walk over the digits of a segment starts at their front. -/
theorem readPairsFrom_zero (cs : List Char) :
    readPairsFrom (String.ofList cs) 0 = match CommandLine.readPairs cs with
      | .ok bytes => .ok (some bytes)
      | .error .malformed => .ok none
      | .error .split => .error .slice := by
  have hread := readPairsFrom_eq "" cs
  rwa [String.empty_append, String.utf8ByteSize_empty] at hread

/-- **Segments are answered**, except where two bytes end inside a character. -/
theorem readSegment_eq (arg : String) :
    readSegment arg = match CommandLine.parseSegment arg with
      | .ok segment => .ok (.ok segment)
      | .error error => if error.isAbort then .error .slice else .ok (.error error) := by
  unfold readSegment CommandLine.parseSegment
  rw [splitFirst_agrees]
  cases CommandLine.splitFirst ':' arg.toList with
  | none => rfl
  | some parts =>
    obtain ⟨offset, digits⟩ := parts
    simp only [Option.map_some, bind, Except.bind, String.toList_ofList]
    cases Text.readUInt32? offset with
    | none => rfl
    | some start =>
      simp only [readPairsFrom_zero, String.utf8ByteSize_ofList]
      obtain ⟨hodd, hread⟩ | ⟨heven, ⟨_, hpairs, hread⟩ | ⟨hpairs, hread⟩ | ⟨hpairs, hread⟩⟩ :=
        CommandLine.readBytes_cases digits
      · rw [hread, if_pos hodd]
        rfl
      all_goals
        rw [hread, hpairs, if_neg (not_not_intro heven)]
        rfl

/-- No operand and no limits end the program. -/
theorem parseOperand_isAbort {arg : String} {error : ArgumentError}
    (h : CommandLine.parseOperand arg = .error error) : error.isAbort = false := by
  unfold CommandLine.parseOperand at h
  split at h
  · exact Except.error.inj h ▸ rfl
  · split at h
    · exact Except.error.inj h ▸ rfl
    · split at h
      · cases h
      · exact Except.error.inj h ▸ rfl

theorem readPageCount_isAbort {cs : List Char} {error : ArgumentError}
    (h : CommandLine.readPageCount cs = .error error) : error.isAbort = false := by
  unfold CommandLine.readPageCount at h
  split at h
  · cases h
  · exact Except.error.inj h ▸ rfl

theorem parseLimits_isAbort {arg : String} {error : ArgumentError}
    (h : CommandLine.parseLimits arg = .error error) : error.isAbort = false := by
  unfold CommandLine.parseLimits at h
  split at h
  · exact Except.error.inj h ▸ rfl
  · next minimum maximum _ =>
    cases hminimum : CommandLine.readPageCount minimum with
    | error error' =>
      rw [hminimum] at h
      exact Except.error.inj h ▸ readPageCount_isAbort hminimum
    | ok least =>
      cases hmaximum : CommandLine.readPageCount maximum with
      | error error' =>
        rw [hminimum, hmaximum] at h
        exact Except.error.inj h ▸ readPageCount_isAbort hmaximum
      | ok most =>
        rw [hminimum, hmaximum] at h
        cases h

/-! ## Memories -/

section

variable {m : Memory} {arg : String} {offset : UInt32} {bytes : List UInt8}

/-- **A segment is answered unless it is cut inside a character.** -/
theorem loadSegment_of_not_cuts (hm : m.WellFormed) (h : ¬ CutsCharacter arg) :
    loadSegment arg m = match CommandLine.applySegment m arg with
      | .ok after => .ok (.ok ()) after
      | .error error => .ok (.error error) m := by
  have hreport : ∀ error, CommandLine.parseSegment arg = .error error → error.isAbort = false := by
    intro error herror
    refine Bool.eq_false_iff.mpr fun habort => h ?_
    exact (CommandLine.parseSegment_isAbort_iff arg).mp ⟨error, herror, habort⟩
  unfold loadSegment CommandLine.applySegment
  rw [readSegment_eq]
  cases hparse : CommandLine.parseSegment arg with
  | error error => simp only [hreport error hparse, Bool.false_eq_true, if_false]
  | ok segment =>
    obtain ⟨offset, bytes⟩ := segment
    simp only [loadBytes, init_agrees hm offset bytes]
    cases m.init offset bytes <;> rfl

/-- **A segment that is cut inside a character ends the program**, before anything is written. -/
theorem loadSegment_of_cuts (m : Memory) (h : CutsCharacter arg) :
    loadSegment arg m = .error .slice m := by
  obtain ⟨error, hparse, habort⟩ := (CommandLine.parseSegment_isAbort_iff arg).mpr h
  unfold loadSegment
  rw [readSegment_eq, hparse]
  simp only [habort, if_true]

/-- What is accepted is not cut. -/
theorem not_cuts_of_accepts (h : AcceptsSegment arg (offset, bytes)) : ¬ CutsCharacter arg := by
  intro hcuts
  obtain ⟨error, hparse, -⟩ := (CommandLine.parseSegment_isAbort_iff arg).mpr hcuts
  rw [(CommandLine.parseSegment_eq_ok_iff arg _).mpr h] at hparse
  cases hparse

/-- **A segment that is accepted and fits is written.** -/
theorem loadSegment_of_accepts (hm : m.WellFormed) (h : AcceptsSegment arg (offset, bytes))
    (hfits : offset.toNat + bytes.length ≤ m.content.length) :
    loadSegment arg m = .ok (.ok ()) (m.overwrite offset.toNat bytes) := by
  have hinit : m.init offset bytes = .ok (m.overwrite offset.toNat bytes) :=
    if_pos ((m.contains_iff _ _).mpr hfits)
  rw [loadSegment_of_not_cuts hm (not_cuts_of_accepts h), CommandLine.applySegment,
    (CommandLine.parseSegment_eq_ok_iff arg _).mpr h]
  simp only [hinit]

/-- Every other text is refused, or it ends the program. -/
theorem loadSegment_cases (hm : m.WellFormed) (arg : String) :
    (∃ offset bytes, AcceptsSegment arg (offset, bytes)
        ∧ offset.toNat + bytes.length ≤ m.content.length)
      ∨ (∃ error, loadSegment arg m = .ok (.error error) m)
      ∨ (CutsCharacter arg ∧ loadSegment arg m = .error .slice m) := by
  by_cases hcuts : CutsCharacter arg
  · exact .inr (.inr ⟨hcuts, loadSegment_of_cuts m hcuts⟩)
  · rw [loadSegment_of_not_cuts hm hcuts, CommandLine.applySegment]
    cases hparse : CommandLine.parseSegment arg with
    | error error => exact .inr (.inl ⟨error, rfl⟩)
    | ok segment =>
      obtain ⟨offset, bytes⟩ := segment
      by_cases hin : m.contains offset.toNat bytes.length = true
      · exact .inl ⟨offset, bytes, (CommandLine.parseSegment_eq_ok_iff arg _).mp hparse,
          (m.contains_iff _ _).mp hin⟩
      · have hinit : m.init offset bytes = .error (.link .segmentDoesNotFit) := if_neg hin
        simp only [hinit]
        exact .inr (.inl ⟨_, rfl⟩)

end

/-- A memory of one page, for runs on a given text. -/
theorem exists_page :
    ∃ m, Memory.create 1 1 = .ok m ∧ m.WellFormed ∧ m.content.length = 65536 := by
  obtain ⟨m, h⟩ : ∃ m, Memory.create 1 1 = .ok m := ⟨_, rfl⟩
  exact ⟨m, h, (Memory.create_limits h).1, Memory.length_content_of_create h⟩

/-! ## Safety -/

/-- **Readers of arguments answer every text**, with one exception. An operand and limits are read
to a value or to an error that is reported, and every slice that is taken for it is a text. The
text of a segment is applied, or there is an error that is reported and the memory stays as it was,
unless the text is cut inside a character. Then, and only then, the program ends, and the memory
stays as it was too. -/
theorem arguments_answered (arg : String) :
    (readOperand arg = .ok (CommandLine.parseOperand arg)
        ∧ ∀ error, CommandLine.parseOperand arg = .error error → error.isAbort = false)
      ∧ (readLimits arg = .ok (CommandLine.parseLimits arg)
        ∧ ∀ error, CommandLine.parseLimits arg = .error error → error.isAbort = false)
      ∧ ∀ m : Memory, m.WellFormed →
        (¬ CutsCharacter arg → loadSegment arg m = match CommandLine.applySegment m arg with
          | .ok after => .ok (.ok ()) after
          | .error error => .ok (.error error) m)
        ∧ (CutsCharacter arg → loadSegment arg m = .error .slice m) :=
  ⟨⟨readOperand_eq arg, fun _ => parseOperand_isAbort⟩,
    ⟨readLimits_eq arg, fun _ => parseLimits_isAbort⟩,
    fun m hm => ⟨loadSegment_of_not_cuts hm, loadSegment_of_cuts m⟩⟩

/-- Three encoded bytes behind one that is a digit, so that the first pair ends inside them. -/
theorem cutsCharacter_euro : CutsCharacter "0:a€" := by
  have hzero : Text.IsNatural "0".toList 0 := (Text.readNat_eq_some_iff _ _).mp (by decide)
  have hcut : CommandLine.CutsFront "a€".toList :=
    (CommandLine.cutsFront_cons_iff 'a' '€' []).mpr (.inl ⟨by decide, by decide⟩)
  exact ⟨"0", "", "a€", 0, [], by decide, hzero, by decide, .nil, hcut⟩

/-- A byte behind the page is refused, and a character that is cut ends the program. -/
theorem arguments_answered_behind_page :
    ∃ m, Memory.create 1 1 = .ok m ∧ m.WellFormed
      ∧ ¬ CutsCharacter "65536:00"
      ∧ loadSegment "65536:00" m = .ok (.error (.segmentRefused (.link .segmentDoesNotFit))) m
      ∧ CutsCharacter "0:a€" ∧ loadSegment "0:a€" m = .error .slice m := by
  obtain ⟨m, h, hm, hpage⟩ := exists_page
  have hoffset : Text.IsNatural "65536".toList 65536 :=
    (Text.readNat_eq_some_iff _ _).mp (by decide)
  have haccepts : AcceptsSegment "65536:00" (65536, [0]) :=
    ⟨"65536", "00", by decide, hoffset, CommandLine.acceptsBytes_of_map (by decide)⟩
  have hcuts : ¬ CutsCharacter "65536:00" := not_cuts_of_accepts haccepts
  have hbehind : ¬ m.contains (65536 : UInt32).toNat [(0 : UInt8)].length = true := by
    rw [m.contains_iff, hpage]
    decide
  have hrefused : CommandLine.applySegment m "65536:00"
      = .error (.segmentRefused (.link .segmentDoesNotFit)) := by
    have hinit : m.init 65536 [0] = .error (.link .segmentDoesNotFit) := if_neg hbehind
    rw [CommandLine.applySegment, (CommandLine.parseSegment_eq_ok_iff _ _).mpr haccepts]
    simp only [hinit]
  refine ⟨m, h, hm, hcuts, ?_, cutsCharacter_euro, ?_⟩
  · rw [((arguments_answered "65536:00").2.2 m hm).1 hcuts, hrefused]
  · exact ((arguments_answered "0:a€").2.2 m hm).2 cutsCharacter_euro

/-- **A character that is cut ends the program**, although the text is nothing else than digits that
are wrong. -/
theorem cut_character_aborts :
    ∃ m, Memory.create 1 1 = .ok m ∧ m.WellFormed ∧ loadSegment "0:a€" m = .error .slice m := by
  obtain ⟨m, h, hm, -⟩ := exists_page
  exact ⟨m, h, hm, loadSegment_of_cuts m cutsCharacter_euro⟩

end WasmExec.Machine
