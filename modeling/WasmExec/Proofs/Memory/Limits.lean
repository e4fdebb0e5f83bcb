/-
The limits of a memory, and what keeps them.

A memory has exactly the bytes of its current pages, no fewer pages than it was
created with, and no more than its maximum, which a 32-bit address still
reaches. `WellFormed` says so. A new memory satisfies it and every operation
keeps it, so it holds after every run; the minimum and the maximum never move
and the current size never falls.

Only growing touches the limits at all. A write changes bytes in place
(`length_overwrite`), so for it there is nothing to show but that.
-/
import WasmExec.Proofs.Memory.Operation

set_option autoImplicit false

namespace WasmExec.Memory

/-- **What holds of every memory that a host can have.** -/
structure WellFormed (m : Memory) : Prop where
  minimum_le : m.minimum ≤ m.current
  current_le : m.current ≤ m.maximum
  maximum_le : m.maximum ≤ pageLimit
  size_eq : m.bytes.size = m.current * pageSize

/-- The bytes of a memory fit in four gibibytes. -/
theorem WellFormed.size_le {m : Memory} (hm : m.WellFormed) : m.bytes.size ≤ 4294967296 := by
  have hcur : m.current ≤ 65536 := le_trans hm.current_le hm.maximum_le
  rw [hm.size_eq, pageSize]
  omega

/-! ## Creation -/

/-- What is created, where the limits allow it. -/
theorem create_cases (minimum maximum : UInt32) :
    (pageLimit < minimum.toNat
        ∧ create minimum maximum = .error (.validation .memoryTooLarge))
      ∨ (minimum.toNat ≤ pageLimit ∧ min maximum.toNat pageLimit < minimum.toNat
        ∧ create minimum maximum = .error (.validation .minimumAboveMaximum))
      ∨ (minimum.toNat ≤ min maximum.toNat pageLimit
        ∧ create minimum maximum = .ok
          ⟨addPages ByteArray.empty minimum.toNat, minimum.toNat, minimum.toNat,
            min maximum.toNat pageLimit⟩) := by
  rw [create]
  by_cases hlarge : pageLimit < minimum.toNat
  · rw [if_pos hlarge]
    exact .inl ⟨hlarge, rfl⟩
  · rw [if_neg hlarge]
    by_cases habove : min maximum.toNat pageLimit < minimum.toNat
    · rw [if_pos habove]
      exact .inr (.inl ⟨by omega, habove, rfl⟩)
    · rw [if_neg habove]
      exact .inr (.inr ⟨by omega, rfl⟩)

/-- A new memory is well formed and has the limits it was asked for. -/
theorem create_limits {minimum maximum : UInt32} {m : Memory}
    (h : create minimum maximum = .ok m) :
    m.WellFormed ∧ m.minimum = minimum.toNat ∧ m.current = minimum.toNat
      ∧ m.maximum = min maximum.toNat pageLimit := by
  rcases create_cases minimum maximum with ⟨-, he⟩ | ⟨-, -, he⟩ | ⟨hle, he⟩
  · rw [he] at h
    cases h
  · rw [he] at h
    cases h
  · rw [he] at h
    cases h
    refine ⟨⟨le_refl _, hle, min_le_right _ _, ?_⟩, rfl, rfl, rfl⟩
    rw [size_addPages, ByteArray.size_empty, Nat.zero_add]

theorem length_content_of_create {minimum maximum : UInt32} {m : Memory}
    (h : create minimum maximum = .ok m) : m.content.length = minimum.toNat * pageSize := by
  obtain ⟨hm, -, hcurrent, -⟩ := create_limits h
  rw [length_content, hm.size_eq, hcurrent]

/-! ## Growing -/

theorem growFailed_toInt : growFailed.toInt = -1 := by decide

/-- The number of pages fits the signed word that a grow answers with. -/
theorem WellFormed.current_toInt {m : Memory} (hm : m.WellFormed) :
    (BitVec.ofNat 32 m.current).toInt = m.current := by
  have hcur : m.current ≤ 65536 := le_trans hm.current_le hm.maximum_le
  rw [BitVec.toInt_eq_toNat_of_lt (by rw [BitVec.toNat_ofNat]; omega), BitVec.toNat_ofNat]
  omega

theorem WellFormed.grow {m : Memory} (hm : m.WellFormed) (delta : UInt32) :
    (m.grow delta).2.WellFormed := by
  have hmin := hm.minimum_le
  have hcur := hm.current_le
  rcases m.grow_cases delta with ⟨hroom, h⟩ | ⟨-, h⟩
  · rw [h]
    refine ⟨by simp only; omega, by simp only; omega, hm.maximum_le, ?_⟩
    simp only
    rw [size_addPages, hm.size_eq, Nat.add_mul]
  · rw [h]
    exact hm

/-- **Growing exactly.** The old number of pages and so many new pages of zeros
if the maximum allows it, and minus one and no change if not. -/
theorem grow_exact {m : Memory} (hm : m.WellFormed) (delta : UInt32) :
    (m.current + delta.toNat ≤ m.maximum →
        (m.grow delta).1.toInt = m.current
          ∧ (m.grow delta).2.content
              = m.content ++ List.replicate (delta.toNat * pageSize) 0
          ∧ (m.grow delta).2.current = m.current + delta.toNat
          ∧ (m.grow delta).2.minimum = m.minimum ∧ (m.grow delta).2.maximum = m.maximum)
      ∧ (m.maximum < m.current + delta.toNat →
        (m.grow delta).1.toInt = -1 ∧ (m.grow delta).2 = m) := by
  have hcur := hm.current_le
  rcases m.grow_cases delta with ⟨hroom, h⟩ | ⟨hfull, h⟩
  · rw [h]
    -- that the difference leaves room means the same as that the sum fits
    refine ⟨fun _ => ⟨hm.current_toInt, ?_, rfl, rfl, rfl⟩, fun hover => by omega⟩
    rw [content, toList_addPages]
    rfl
  · rw [h]
    exact ⟨fun hfits => by omega, fun _ => ⟨growFailed_toInt, rfl⟩⟩

/-- A grow that answers minus one has changed nothing. -/
theorem eq_of_grow_eq_growFailed {m : Memory} (hm : m.WellFormed) {delta : UInt32}
    (h : (m.grow delta).1 = growFailed) : (m.grow delta).2 = m := by
  obtain ⟨hfits, hover⟩ := grow_exact hm delta
  by_cases hroom : m.current + delta.toNat ≤ m.maximum
  · have hpages := (hfits hroom).1
    rw [h, growFailed_toInt] at hpages
    omega
  · exact (hover (by omega)).2

/-! ## One step -/

/-- **What one operation does to the limits.** -/
theorem limits_after (m : Memory) (op : Operation) :
    (m.after op).minimum = m.minimum ∧ (m.after op).maximum = m.maximum
      ∧ m.current ≤ (m.after op).current := by
  cases hp : m.perform op with
  | error fault =>
    rw [after_of_error hp]
    exact ⟨rfl, rfl, le_refl _⟩
  | ok result =>
    obtain ⟨answer, m'⟩ := result
    rw [after_of_ok hp]
    rcases perform_cases hp with ⟨-, -, -, rfl⟩ | ⟨delta, rfl, rfl⟩ | ⟨s, ptr, offset, rfl, rfl⟩
    · exact ⟨rfl, rfl, le_refl _⟩
    · rcases m.grow_cases delta with ⟨-, h⟩ | ⟨-, h⟩
      · rw [h]
        exact ⟨rfl, rfl, Nat.le_add_right _ _⟩
      · rw [h]
        exact ⟨rfl, rfl, le_refl _⟩
    · exact ⟨rfl, rfl, le_refl _⟩

theorem WellFormed.after {m : Memory} (hm : m.WellFormed) (op : Operation) :
    (m.after op).WellFormed := by
  cases hp : m.perform op with
  | error fault => rwa [after_of_error hp]
  | ok result =>
    obtain ⟨answer, m'⟩ := result
    rw [after_of_ok hp]
    rcases perform_cases hp with ⟨-, hin, hlen, rfl⟩ | ⟨delta, rfl, rfl⟩ | ⟨s, ptr, off, rfl, rfl⟩
    -- a write keeps the number of bytes, and nothing else of it is a limit
    · refine ⟨hm.minimum_le, hm.current_le, hm.maximum_le, ?_⟩
      rw [← length_content, length_overwrite (by rwa [hlen]), length_content]
      exact hm.size_eq
    · exact hm.grow delta
    · exact hm

/-! ## Runs -/

/-- The limits after a run: fixed at both ends, and growing between them. -/
theorem limits_run (ops : List Operation) (m : Memory) :
    (m.run ops).minimum = m.minimum ∧ (m.run ops).maximum = m.maximum
      ∧ m.current ≤ (m.run ops).current := by
  induction ops generalizing m with
  | nil => exact ⟨rfl, rfl, le_refl _⟩
  | cons op ops ih =>
    obtain ⟨hmin, hmax, hcur⟩ := m.limits_after op
    obtain ⟨hmin', hmax', hcur'⟩ := ih (m.after op)
    rw [run_cons]
    exact ⟨hmin'.trans hmin, hmax'.trans hmax, le_trans hcur hcur'⟩

theorem WellFormed.run {m : Memory} (hm : m.WellFormed) (ops : List Operation) :
    (m.run ops).WellFormed := by
  induction ops generalizing m with
  | nil => exact hm
  | cons op ops ih => exact ih (hm.after op)

end WasmExec.Memory
