/-
What a segment's text can be.

The text of a segment is taken apart at its first colon. In front of it stands a number, behind it
a row of pairs, and each part has its own reader with its own idea of what to let pass. Put
together, the texts that are accepted are a grammar (`AcceptsSegment`), wider than the one of
written segments by its plus signs, and the reader decides that grammar (`parseSegment_eq_ok_iff`).

Of the other texts almost all are refused with an error to report. The exception is stated in
the same terms: a number, a colon, pairs that are accepted, and then two bytes that end inside a
character (`CutsCharacter`). Everything in front of that place has to be in order, since the
reader stops at the first thing that is not.
-/
import WasmExec.Proofs.CommandLine.Pairs
import WasmExec.Proofs.Text.Decimal

set_option autoImplicit false

namespace WasmExec.CommandLine

open Text (IsNatural IsSign IsNumeral)

/-! ## Texts -/

/-- **The texts of a segment that are accepted**: a number, a colon, and pairs for its bytes. -/
def AcceptsSegment (arg : String) (segment : UInt32 × List UInt8) : Prop :=
  ∃ offset digits : String, arg = offset ++ ":" ++ digits
    ∧ IsNatural offset.toList segment.1.toNat ∧ AcceptsBytes digits.toList segment.2

/-- **The texts of a segment that are cut inside a character**: a number, a colon, and behind
pairs for some bytes two encoded bytes that are no text. -/
def CutsCharacter (arg : String) : Prop :=
  ∃ (offset good rest : String) (start : UInt32) (bytes : List UInt8),
    arg = offset ++ ":" ++ (good ++ rest) ∧ IsNatural offset.toList start.toNat
      ∧ (good ++ rest).utf8ByteSize % 2 = 0 ∧ AcceptsBytes good.toList bytes
      ∧ CutsFront rest.toList

/-! ## Numbers and pairs -/

theorem colon_not_mem_of_isNatural {cs : List Char} {n : Nat} (h : IsNatural cs n) :
    ':' ∉ cs := by
  obtain ⟨sign, digits, rfl, hsign, hdigits⟩ := h
  rw [List.mem_append, not_or]
  refine ⟨?_, colon_not_mem_of_isNumeral hdigits⟩
  cases hsign with
  | absent => exact List.not_mem_nil
  | plus => decide

/-- Pairs that are accepted have an even number of encoded bytes. -/
theorem AcceptsBytes.even {cs : List Char} {bytes : List UInt8} (h : AcceptsBytes cs bytes) :
    String.utf8Len cs % 2 = 0 := by
  induction h with
  | nil => rfl
  | cons hpair _ ih =>
    obtain ⟨ha, hb⟩ := utf8Size_of_readByte ((readByte_eq_some_iff _ _ _).mpr hpair)
    rw [String.utf8Len_cons, String.utf8Len_cons, ha, hb]
    omega

/-- The number of digits is looked at first, and then the pairs. -/
theorem readBytes_cases (cs : List Char) :
    (String.utf8Len cs % 2 ≠ 0 ∧ readBytes cs = .error (.oddDigitCount (String.ofList cs)))
      ∨ (String.utf8Len cs % 2 = 0
        ∧ ((∃ bytes, readPairs cs = .ok bytes ∧ readBytes cs = .ok bytes)
          ∨ (readPairs cs = .error .malformed
            ∧ readBytes cs = .error (.malformedBytes (String.ofList cs)))
          ∨ (readPairs cs = .error .split
            ∧ readBytes cs = .error (.splitCharacter (String.ofList cs))))) := by
  unfold readBytes
  simp only [String.utf8ByteSize_ofList]
  by_cases hodd : String.utf8Len cs % 2 ≠ 0
  · exact .inl ⟨hodd, if_pos hodd⟩
  · refine .inr ⟨not_not.mp hodd, ?_⟩
    rw [if_neg hodd]
    cases readPairs cs with
    | ok bytes => exact .inl ⟨bytes, rfl, rfl⟩
    | error error =>
      cases error with
      | malformed => exact .inr (.inl ⟨rfl, rfl⟩)
      | split => exact .inr (.inr ⟨rfl, rfl⟩)

theorem readBytes_eq_ok_iff (cs : List Char) (bytes : List UInt8) :
    readBytes cs = .ok bytes ↔ AcceptsBytes cs bytes := by
  -- the number of digits is no further condition, pairs have an even one
  have heven : AcceptsBytes cs bytes → String.utf8Len cs % 2 = 0 := AcceptsBytes.even
  rw [← readPairs_eq_ok_iff] at heven ⊢
  obtain ⟨hodd, hread⟩ | ⟨-, ⟨_, hpairs, hread⟩ | ⟨hpairs, hread⟩ | ⟨hpairs, hread⟩⟩ :=
    readBytes_cases cs
  · rw [hread]
    exact ⟨nofun, fun hpairs => absurd (heven hpairs) hodd⟩
  · rw [hread, hpairs, Except.ok.injEq, Except.ok.injEq]
  · rw [hread, hpairs]
    exact ⟨nofun, nofun⟩
  · rw [hread, hpairs]
    exact ⟨nofun, nofun⟩

/-- A row of pairs ends the program where one of them is cut. -/
theorem readBytes_isAbort_iff (cs : List Char) :
    (∃ error, readBytes cs = .error error ∧ error.isAbort = true)
      ↔ String.utf8Len cs % 2 = 0 ∧ readPairs cs = .error .split := by
  obtain ⟨hodd, hread⟩ | ⟨heven, ⟨_, hpairs, hread⟩ | ⟨hpairs, hread⟩ | ⟨hpairs, hread⟩⟩ :=
    readBytes_cases cs
  · rw [hread]
    exact ⟨nofun, fun h => absurd h.1 hodd⟩
  · rw [hread, hpairs]
    exact ⟨nofun, nofun⟩
  · rw [hread, hpairs]
    exact ⟨nofun, nofun⟩
  · rw [hread, hpairs]
    exact ⟨fun _ => ⟨heven, rfl⟩, fun _ => ⟨_, rfl, rfl⟩⟩

/-! ## Segments -/

/-- A text with a number in front of a colon is read on behind the colon. -/
theorem parseSegment_of_isNatural {offset : String} {start : UInt32}
    (h : IsNatural offset.toList start.toNat) (digits : String) :
    parseSegment (offset ++ ":" ++ digits)
      = (readBytes digits.toList).map fun bytes => (start, bytes) := by
  rw [parseSegment, toList_colon, splitFirst_append (colon_not_mem_of_isNatural h)]
  simp only [(Text.readUInt32_eq_some_iff offset.toList start).mpr h]

/-- Every other text is refused, with an error to report. -/
theorem parseSegment_cases (arg : String) :
    (∃ (offset digits : String) (start : UInt32), arg = offset ++ ":" ++ digits
        ∧ IsNatural offset.toList start.toNat)
      ∨ ∃ error, parseSegment arg = .error error ∧ error.isAbort = false := by
  by_cases hcolon : ':' ∈ arg.toList
  · obtain ⟨before, after, harg, habsent⟩ := List.eq_append_cons_of_mem hcolon
    cases hread : Text.readUInt32? before with
    | none =>
      refine .inr ⟨.malformedOffset (String.ofList before), ?_, rfl⟩
      rw [parseSegment, harg, splitFirst_append habsent]
      simp only [hread]
    | some start =>
      refine .inl ⟨String.ofList before, String.ofList after, start, ?_, ?_⟩
      · apply String.toList_injective
        rw [toList_colon, String.toList_ofList, String.toList_ofList, harg]
      · rw [String.toList_ofList]
        exact (Text.readUInt32_eq_some_iff before start).mp hread
  · refine .inr ⟨.segmentWithoutOffset arg, ?_, rfl⟩
    rw [parseSegment, splitFirst_of_not_mem hcolon]

/-- **The reader accepts what is accepted**, and nothing else. -/
theorem parseSegment_eq_ok_iff (arg : String) (segment : UInt32 × List UInt8) :
    parseSegment arg = .ok segment ↔ AcceptsSegment arg segment := by
  constructor
  · intro h
    obtain ⟨offset, digits, start, rfl, hoffset⟩ | ⟨error, herror, -⟩ := parseSegment_cases arg
    · rw [parseSegment_of_isNatural hoffset] at h
      cases hbytes : readBytes digits.toList with
      | error error =>
        rw [hbytes] at h
        cases h
      | ok bytes =>
        rw [hbytes] at h
        obtain rfl := Except.ok.inj h
        exact ⟨offset, digits, rfl, hoffset, (readBytes_eq_ok_iff _ _).mp hbytes⟩
    · rw [herror] at h
      cases h
  · rintro ⟨offset, digits, rfl, hoffset, hdigits⟩
    rw [parseSegment_of_isNatural hoffset, (readBytes_eq_ok_iff _ _).mpr hdigits]
    rfl

/-- **The reader ends the program** exactly at a text that is cut inside a character. -/
theorem parseSegment_isAbort_iff (arg : String) :
    (∃ error, parseSegment arg = .error error ∧ error.isAbort = true) ↔ CutsCharacter arg := by
  constructor
  · rintro ⟨error, h, habort⟩
    obtain ⟨offset, digits, start, rfl, hoffset⟩ | ⟨error', herror', hreport⟩ :=
      parseSegment_cases arg
    · rw [parseSegment_of_isNatural hoffset] at h
      have hbytes : readBytes digits.toList = .error error := by
        cases hread : readBytes digits.toList with
        | ok bytes =>
          rw [hread] at h
          cases h
        | error error' =>
          rw [hread] at h
          exact congrArg _ (Except.error.inj h)
      obtain ⟨heven, hsplit⟩ := (readBytes_isAbort_iff _).mp ⟨error, hbytes, habort⟩
      obtain ⟨good, rest, bytes, hdigits, hgood, hrest⟩ := (readPairs_eq_split_iff _).mp hsplit
      have htext : digits = String.ofList good ++ String.ofList rest := by
        rw [← String.ofList_append, ← hdigits, String.ofList_toList]
      refine ⟨offset, String.ofList good, String.ofList rest, start, bytes, by rw [htext], hoffset,
        ?_, by rwa [String.toList_ofList], by rwa [String.toList_ofList]⟩
      rw [← htext, ← String.utf8Len_toList]
      exact heven
    · rw [herror'] at h
      obtain rfl := Except.error.inj h
      rw [habort] at hreport
      cases hreport
  · rintro ⟨offset, good, rest, start, bytes, rfl, hoffset, heven, hgood, hrest⟩
    have hsplit : readPairs (good ++ rest).toList = .error .split := by
      rw [String.toList_append]
      exact (readPairs_eq_split_iff _).mpr ⟨_, _, _, rfl, hgood, hrest⟩
    rw [← String.utf8Len_toList] at heven
    obtain ⟨error, hbytes, habort⟩ := (readBytes_isAbort_iff _).mpr ⟨heven, hsplit⟩
    refine ⟨error, ?_, habort⟩
    rw [parseSegment_of_isNatural hoffset, hbytes]
    rfl

end WasmExec.CommandLine
