/-
Texts are cut by bytes.

A text is stored as the bytes of its characters, one to four for each, and a machine names a place
in it by the number of bytes in front. Not every number is a place. A slice with an end inside a
character or behind the text is no text, and asking for one is a hazard.

A text is cut without looking where the two halves are known in advance: the bytes of the first
half are a place (`sliceText_append`). That is why splitting at a separator is safe. It starts where a
character starts and ends where that character ends, however many bytes stand in front of it.
-/
import WasmExec.Proofs.CommandLine.Argument
import WasmExec.Proofs.Machine.Action
import Mathlib.Data.String.Lemmas

set_option autoImplicit false

namespace WasmExec.Machine

/-! ## Slices -/

/-- The part of a text between two places, which count encoded bytes. -/
def sliceText (s : String) (start stop : Nat) : Except Hazard String :=
  if start ≤ stop ∧ String.Pos.Raw.IsValid s ⟨start⟩ ∧ String.Pos.Raw.IsValid s ⟨stop⟩ then
    .ok (String.Pos.Raw.extract s ⟨start⟩ ⟨stop⟩)
  else .error .slice

/-- Behind a text that is in front, the places are the same, moved up. -/
theorem isValid_append_iff (before s : String) (i : Nat) :
    String.Pos.Raw.IsValid (before ++ s) ⟨before.utf8ByteSize + i⟩
      ↔ String.Pos.Raw.IsValid s ⟨i⟩ := by
  have hmoved : (⟨before.utf8ByteSize + i⟩ : String.Pos.Raw) - before = ⟨i⟩ := by
    apply String.Pos.Raw.ext
    rw [String.Pos.Raw.byteIdx_sub_string]
    exact Nat.add_sub_cancel_left before.utf8ByteSize i
  rw [String.Pos.Raw.isValid_append, hmoved]
  constructor
  · rintro (hfront | ⟨-, hbehind⟩)
    · -- only the end of the text in front is a place of both
      have hle := hfront.le_utf8ByteSize
      obtain rfl : i = 0 := by
        change before.utf8ByteSize + i ≤ before.utf8ByteSize at hle
        omega
      exact String.Pos.Raw.isValid_zero
    · exact hbehind
  · intro h
    exact .inr ⟨Nat.le_add_right before.utf8ByteSize i, h⟩

/-- **A part of a text is a slice of it.** -/
theorem sliceText_append (before part after : String) :
    sliceText (before ++ part ++ after) before.utf8ByteSize
      (before.utf8ByteSize + part.utf8ByteSize) = .ok part := by
  have hstart : String.Pos.Raw.IsValid (before ++ part ++ after) ⟨before.utf8ByteSize⟩ := by
    rw [String.append_assoc]
    exact (isValid_append_iff before (part ++ after) 0).mpr String.Pos.Raw.isValid_zero
  have hstop : String.Pos.Raw.IsValid (before ++ part ++ after)
      ⟨before.utf8ByteSize + part.utf8ByteSize⟩ := by
    rw [String.append_assoc, isValid_append_iff]
    exact (isValid_append_iff part after 0).mpr String.Pos.Raw.isValid_zero
  have hextract := String.extract_of_valid before.toList part.toList after.toList
  rw [String.ofList_append, String.ofList_append, String.ofList_toList, String.ofList_toList,
    String.ofList_toList, String.utf8Len_toList, String.utf8Len_toList] at hextract
  rw [sliceText, if_pos ⟨Nat.le_add_right _ _, hstart, hstop⟩, hextract]

/-- An end that is no place of the text is a hazard. -/
theorem sliceText_of_not_isValid {before s : String} {start i : Nat}
    (h : ¬ String.Pos.Raw.IsValid s ⟨i⟩) :
    sliceText (before ++ s) start (before.utf8ByteSize + i) = .error .slice := by
  rw [sliceText, if_neg]
  rintro ⟨-, -, hstop⟩
  exact h ((isValid_append_iff before s i).mp hstop)

/-! ## Splitting -/

/-- Where the first separator starts. -/
def firstPlace? (separator : Char) : List Char → Option Nat
  | [] => none
  | c :: cs => if c = separator then some 0 else (firstPlace? separator cs).map (c.utf8Size + ·)

/-- Where the last separator starts. -/
def lastPlace? (separator : Char) : List Char → Option Nat
  | [] => none
  | c :: cs =>
    match lastPlace? separator cs with
    | some place => some (c.utf8Size + place)
    | none => if c = separator then some 0 else none

/-- The texts before and after the separator that starts at a place. -/
def splitAt (separator : Char) (s : String) : Option Nat → Except Hazard (Option (String × String))
  | none => return none
  | some place => do
    let before ← sliceText s 0 place
    let after ← sliceText s (place + separator.utf8Size) s.utf8ByteSize
    return some (before, after)

/-- The texts before and after the first separator. -/
def splitFirst (separator : Char) (s : String) : Except Hazard (Option (String × String)) :=
  splitAt separator s (firstPlace? separator s.toList)

/-- The texts before and after the last separator. -/
def splitLast (separator : Char) (s : String) : Except Hazard (Option (String × String)) :=
  splitAt separator s (lastPlace? separator s.toList)

section

variable {separator : Char} {before after cs : List Char}

theorem firstPlace_append (h : separator ∉ before) :
    firstPlace? separator (before ++ separator :: after) = some (String.utf8Len before) := by
  induction before with
  | nil => exact if_pos rfl
  | cons c before ih =>
    rw [List.mem_cons, not_or] at h
    rw [List.cons_append, firstPlace?, if_neg (Ne.symm h.1), ih h.2, Option.map_some,
      String.utf8Len_cons, Nat.add_comm]

theorem firstPlace_of_not_mem (h : separator ∉ cs) : firstPlace? separator cs = none := by
  induction cs with
  | nil => rfl
  | cons c cs ih =>
    rw [List.mem_cons, not_or] at h
    rw [firstPlace?, if_neg (Ne.symm h.1), ih h.2]
    rfl

theorem lastPlace_of_not_mem (h : separator ∉ cs) : lastPlace? separator cs = none := by
  induction cs with
  | nil => rfl
  | cons c cs ih =>
    rw [List.mem_cons, not_or] at h
    rw [lastPlace?, ih h.2]
    exact if_neg (Ne.symm h.1)

theorem lastPlace_append (h : separator ∉ after) :
    lastPlace? separator (before ++ separator :: after) = some (String.utf8Len before) := by
  induction before with
  | nil =>
    rw [List.nil_append, lastPlace?, lastPlace_of_not_mem h]
    exact if_pos rfl
  | cons c before ih =>
    rw [List.cons_append, lastPlace?, ih]
    exact congrArg some (Nat.add_comm _ _)

/-- **Where a separator starts, both halves are slices.** -/
theorem splitAt_append (separator : Char) (before after : String) :
    splitAt separator (before ++ String.singleton separator ++ after) (some before.utf8ByteSize)
      = .ok (some (before, after)) := by
  have hfront : sliceText (before ++ String.singleton separator ++ after) 0 before.utf8ByteSize
      = .ok before := by
    have hslice := sliceText_append "" before (String.singleton separator ++ after)
    rwa [String.empty_append, String.utf8ByteSize_empty, Nat.zero_add,
      ← String.append_assoc] at hslice
  have hback : sliceText (before ++ String.singleton separator ++ after)
      (before.utf8ByteSize + separator.utf8Size)
      (before ++ String.singleton separator ++ after).utf8ByteSize = .ok after := by
    have hslice := sliceText_append (before ++ String.singleton separator) after ""
    rwa [String.append_empty, ← String.utf8ByteSize_append, String.utf8ByteSize_append,
      String.utf8ByteSize_singleton] at hslice
  rw [splitAt, hfront]
  show sliceText _ _ _ >>= _ = _
  rw [hback]
  rfl

theorem splitAt_of_toList {s : String} (hs : s.toList = before ++ separator :: after) :
    splitAt separator s (some (String.utf8Len before))
      = .ok (some (String.ofList before, String.ofList after)) := by
  have htext : s = String.ofList before ++ String.singleton separator ++ String.ofList after := by
    rw [← String.ofList_toList (s := s), hs, String.singleton_eq_ofList, ← String.ofList_append,
      ← String.ofList_append, List.append_assoc, List.singleton_append]
  rw [htext, ← String.utf8ByteSize_ofList, splitAt_append]

end

theorem splitFirst_agrees (separator : Char) (s : String) :
    splitFirst separator s
      = .ok ((CommandLine.splitFirst separator s.toList).map fun (before, after) =>
        (String.ofList before, String.ofList after)) := by
  by_cases h : separator ∈ s.toList
  · obtain ⟨before, after, hs, habsent⟩ := List.eq_append_cons_of_mem h
    rw [splitFirst, hs, firstPlace_append habsent, splitAt_of_toList hs,
      CommandLine.splitFirst_append habsent]
    rfl
  · rw [splitFirst, firstPlace_of_not_mem h, CommandLine.splitFirst_of_not_mem h]
    rfl

theorem splitLast_agrees (separator : Char) (s : String) :
    splitLast separator s
      = .ok ((CommandLine.splitLast separator s.toList).map fun (before, after) =>
        (String.ofList before, String.ofList after)) := by
  by_cases h : separator ∈ s.toList
  · obtain ⟨before, after, hs, habsent⟩ := CommandLine.exists_append_last h
    rw [splitLast, hs, lastPlace_append habsent, splitAt_of_toList hs,
      CommandLine.splitLast_append habsent]
    rfl
  · rw [splitLast, lastPlace_of_not_mem h, CommandLine.splitLast_of_not_mem h]
    rfl

end WasmExec.Machine
