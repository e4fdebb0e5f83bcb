/-
Segments through their text.

Whoever writes the text of a segment should not be able to tell it from the segment, and whoever
writes another text should be told so. The first holds: the text that is written for a segment is
read without a stop, and from there on the two are one computation. Where the segment fits, the
memory after is the same, and where it does not, the error says so and the memory is as before.

The second holds up to two exceptions, and both come from reading a pair of digits as a number to
the base sixteen. A number may have a plus sign, so there are texts that are loaded and are nobody's
writing (`plus_sign_loaded`). And a number has to be cut out of the text first, by bytes, where a
character may be in the way. All other texts are refused, and whatever is refused is not loaded in
part.
-/
import WasmExec.Proofs.Machine.Argument

set_option autoImplicit false

namespace WasmExec

open CommandLine (ArgumentError AcceptsSegment CutsCharacter WritesBytes)

/-! ## What is written -/

namespace CommandLine

/-- **A segment does through its text what it does by itself.** The text is the offset in decimal
and two digits for each byte, in either case. In place the two are one computation. Where the
segment fits, the memory after is the same, and where it does not, the error says so and the memory
is as before. -/
theorem written_segment_applies {digits : String} {bytes : List UInt8}
    (h : WritesBytes digits bytes) (offset : UInt32) :
    let text := toString offset.toNat ++ ":" ++ digits
    Machine.loadSegment text = Machine.loadBytes offset bytes
      ∧ ∀ m : Memory, match m.init offset bytes with
        | .ok after => applySegment m text = .ok after
          ∧ (m.WellFormed → Machine.loadSegment text m = .ok (.ok ()) after)
        | .error _ => ∃ error : ArgumentError, error.message = "data segment does not fit"
          ∧ applySegment m text = .error error
          ∧ (m.WellFormed → Machine.loadSegment text m = .ok (.error error) m) := by
  intro text
  have hspells : SpellsSegment text (offset, bytes) := spellsSegment_written h offset
  have hread := parseSegment_of_spells hspells
  have hwhole : ¬ CutsCharacter text :=
    Machine.not_cuts_of_accepts ((parseSegment_eq_ok_iff text _).mp hread)
  refine ⟨?_, fun m => ?_⟩
  · funext m
    rw [Machine.loadSegment, Machine.readSegment_eq, hread]
  have happly := applySegment_of_spells hspells m
  have hplace := fun hm : m.WellFormed => Machine.loadSegment_of_not_cuts hm hwhole
  rw [happly] at hplace ⊢
  -- the range check of the memory is the only thing left that can refuse
  unfold Memory.init at hplace ⊢
  split_ifs at hplace ⊢
  · exact ⟨rfl, hplace⟩
  · exact ⟨_, rfl, rfl, hplace⟩

/-- Three bytes fit exactly at the end of a page and not one place further. No bytes at all fit
behind the last one, but not behind that. -/
theorem written_segment_applies_end :
    ∃ m, Memory.create 1 1 = .ok m ∧ m.WellFormed
      ∧ WritesBytes "fFaB0a" [0xff, 0xab, 0x0a] ∧ WritesBytes "" []
      ∧ (∃ after, m.init 65533 [0xff, 0xab, 0x0a] = .ok after
        ∧ Machine.loadSegment "65533:fFaB0a" m = .ok (.ok ()) after)
      ∧ (∃ error, error.message = "data segment does not fit"
        ∧ Machine.loadSegment "65534:fFaB0a" m = .ok (.error error) m)
      ∧ (∃ after, m.init 65536 [] = .ok after
        ∧ Machine.loadSegment "65536:" m = .ok (.ok ()) after)
      ∧ ∃ error, error.message = "data segment does not fit"
        ∧ Machine.loadSegment "65537:" m = .ok (.error error) m := by
  obtain ⟨m, h, hm, hpage⟩ := Machine.exists_page
  have hfits : ∀ {digits : String} {bytes : List UInt8}, WritesBytes digits bytes →
      ∀ offset : UInt32, offset.toNat + bytes.length ≤ 65536 →
        ∃ after, m.init offset bytes = .ok after
          ∧ Machine.loadSegment (toString offset.toNat ++ ":" ++ digits) m
            = .ok (.ok ()) after := by
    intro digits bytes hdigits offset hle
    have hinit : m.init offset bytes = .ok (m.overwrite offset.toNat bytes) :=
      if_pos ((m.contains_iff _ _).mpr (hle.trans_eq hpage.symm))
    have happlies := (written_segment_applies hdigits offset).2 m
    rw [hinit] at happlies
    exact ⟨_, hinit, happlies.2 hm⟩
  have hrefused : ∀ {digits : String} {bytes : List UInt8}, WritesBytes digits bytes →
      ∀ offset : UInt32, 65536 < offset.toNat + bytes.length →
        ∃ error : ArgumentError, error.message = "data segment does not fit"
          ∧ Machine.loadSegment (toString offset.toNat ++ ":" ++ digits) m
            = .ok (.error error) m := by
    intro digits bytes hdigits offset hlt
    have hinit : m.init offset bytes = .error (.link .segmentDoesNotFit) := by
      apply if_neg
      rw [m.contains_iff, hpage]
      exact hlt.not_ge
    have happlies := (written_segment_applies hdigits offset).2 m
    rw [hinit] at happlies
    obtain ⟨error, hmessage, -, hplace⟩ := happlies
    exact ⟨error, hmessage, hplace hm⟩
  have hbytes : WritesBytes "fFaB0a" [0xff, 0xab, 0x0a] := by decide
  have hnone : WritesBytes "" [] := rfl
  exact ⟨m, h, hm, hbytes, hnone, hfits hbytes 65533 (by decide), hrefused hbytes 65534 (by decide),
    hfits hnone 65536 (by decide), hrefused hnone 65537 (by decide)⟩

end CommandLine

/-! ## What is loaded -/

namespace Machine

/-- **Segments are loaded from pairs of digits.** A text that is applied is a number, a colon, and a
row of pairs. A pair is two digits, in either case, or a plus sign and a digit, and without plus
signs the row is what writes its bytes. These bytes are written at the number, and nothing else is
changed. Every such text is applied where its bytes fit. Every other text leaves the memory as it
was and is answered with an error, unless it is cut inside a character and the program ends. -/
theorem loaded_segments_exact {m : Memory} (hm : m.WellFormed) (arg : String) :
    (∀ after, loadSegment arg m = .ok (.ok ()) after →
        ∃ (offset digits : String) (start : UInt32) (bytes : List UInt8),
          arg = offset ++ ":" ++ digits ∧ Text.IsNatural offset.toList start.toNat
            ∧ CommandLine.AcceptsBytes digits.toList bytes
            ∧ ('+' ∉ digits.toList → CommandLine.WritesBytes digits bytes)
            ∧ start.toNat + bytes.length ≤ m.content.length
            ∧ (after.minimum = m.minimum ∧ after.current = m.current ∧ after.maximum = m.maximum)
            ∧ ∀ i, after.content[i]? = if start.toNat ≤ i ∧ i < start.toNat + bytes.length
              then bytes[i - start.toNat]? else m.content[i]?)
      ∧ (∀ (offset digits : String) (start : UInt32) (bytes : List UInt8),
        arg = offset ++ ":" ++ digits → Text.IsNatural offset.toList start.toNat →
        CommandLine.AcceptsBytes digits.toList bytes →
        start.toNat + bytes.length ≤ m.content.length →
        loadSegment arg m = .ok (.ok ()) (m.overwrite start.toNat bytes))
      ∧ ((∃ after, loadSegment arg m = .ok (.ok ()) after)
        ∨ (∃ error, loadSegment arg m = .ok (.error error) m)
        ∨ (CutsCharacter arg ∧ loadSegment arg m = .error .slice m)) := by
  have hload : ∀ {offset bytes}, AcceptsSegment arg (offset, bytes) →
      offset.toNat + bytes.length ≤ m.content.length → _ :=
    fun {_ _} haccepts hfits => loadSegment_of_accepts hm haccepts hfits
  refine ⟨fun after h => ?_, fun offset digits start bytes harg hoffset hdigits hfits => ?_, ?_⟩
  -- of the three outcomes only one leaves with success, and its text is a text that is accepted
  · obtain ⟨start, bytes, haccepts, hfits⟩ | ⟨error, hother⟩ | ⟨-, hother⟩ :=
      loadSegment_cases hm arg
    · rw [hload haccepts hfits] at h
      obtain rfl : m.overwrite start.toNat bytes = after := by injection h
      obtain ⟨offset, digits, harg, hoffset, hdigits⟩ := haccepts
      exact ⟨offset, digits, start, bytes, harg, hoffset, hdigits,
        fun hplus => hdigits.map_toLower hplus, hfits, ⟨rfl, rfl, rfl⟩,
        Memory.getElem?_overwrite hfits⟩
    · rw [hother] at h
      injection h with hanswer
      cases hanswer
    · rw [hother] at h
      cases h
  · exact hload ⟨offset, digits, harg, hoffset, hdigits⟩ hfits
  · obtain ⟨start, bytes, haccepts, hfits⟩ | hother | hother := loadSegment_cases hm arg
    · exact .inl ⟨_, hload haccepts hfits⟩
    · exact .inr (.inl hother)
    · exact .inr (.inr hother)

/-- The last two bytes of a page, in both cases, and one byte behind a plus sign. -/
theorem loaded_segments_exact_last_bytes :
    ∃ m, Memory.create 1 1 = .ok m ∧ m.WellFormed
      ∧ loadSegment "65534:fF0a" m = .ok (.ok ()) (m.overwrite 65534 [0xff, 0x0a])
      ∧ loadSegment "+1:+f" m = .ok (.ok ()) (m.overwrite 1 [0x0f]) := by
  obtain ⟨m, h, hm, hpage⟩ := exists_page
  have hlast : Text.IsNatural "65534".toList 65534 :=
    (Text.readNat_eq_some_iff _ _).mp (by decide)
  have hone : Text.IsNatural "+1".toList 1 := (Text.readNat_eq_some_iff _ _).mp (by decide)
  refine ⟨m, h, hm, ?_, ?_⟩
  · exact (loaded_segments_exact hm "65534:fF0a").2.1 "65534" "fF0a" 65534 _ (by decide) hlast
      (CommandLine.acceptsBytes_of_map (by decide)) (by rw [hpage]; decide)
  · exact (loaded_segments_exact hm "+1:+f").2.1 "+1" "+f" 1 _ (by decide) hone
      (.cons (.inr ⟨rfl, by decide⟩) .nil) (by rw [hpage]; decide)

/-- **A plus sign is loaded.** The text is applied, but what stands behind its colon writes no
bytes. -/
theorem plus_sign_loaded :
    ∃ m after, Memory.create 1 1 = .ok m ∧ loadSegment "0:+f" m = .ok (.ok ()) after
      ∧ after.content[0]? = some 0x0f
      ∧ ∀ (offset digits : String) (bytes : List UInt8), "0:+f" = offset ++ ":" ++ digits →
        ¬ CommandLine.WritesBytes digits bytes := by
  obtain ⟨m, h, hm, hpage⟩ := exists_page
  have hzero : Text.IsNatural "0".toList 0 := (Text.readNat_eq_some_iff _ _).mp (by decide)
  have haccepts : AcceptsSegment "0:+f" (0, [0x0f]) :=
    ⟨"0", "+f", by decide, hzero, .cons (.inr ⟨rfl, by decide⟩) .nil⟩
  have hfits : (0 : UInt32).toNat + [(0x0f : UInt8)].length ≤ m.content.length := by
    rw [hpage]
    decide
  refine ⟨m, _, h, loadSegment_of_accepts hm haccepts hfits, ?_, ?_⟩
  · rw [Memory.getElem?_overwrite hfits]
    rfl
  · intro offset digits bytes htext hwrites
    -- digits have no colon among them, so the text is split where its last colon is
    have hcolon : ':' ∉ digits.toList := fun hmem =>
      absurd (CommandLine.hexValue_of_mem_map hwrites hmem) (by decide)
    have hplus : '+' ∉ digits.toList := fun hmem =>
      absurd (CommandLine.hexValue_of_mem_map hwrites hmem) (by decide)
    have hsplit := CommandLine.splitLast_append hcolon offset.toList
    rw [← CommandLine.toList_colon, ← htext] at hsplit
    have hparts : some (['0'], ['+', 'f']) = some (offset.toList, digits.toList) := hsplit
    rw [← (Prod.mk.inj (Option.some.inj hparts)).2] at hplus
    exact hplus List.mem_cons_self

end Machine

end WasmExec
