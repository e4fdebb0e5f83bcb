/-
A byte of memory is what the last write put there.

Whatever a host does with a memory, in whatever order and with whatever
success, one rule says what any index holds: the byte that the last successful
write covering the index put there, or zero if there was none. The rule needs
no state of its own. `trace` lists the steps of a run, each with the memory it
met, and `lastWrite?` picks the last step that wrote to an index.

The byte of a copy is looked up in the memory *before* the copy. That is the
whole content of the rule for overlapping ranges: a copy that read its own
output would break the equation at the first index of the overlap.
-/
import WasmExec.Proofs.Memory.Operation

set_option autoImplicit false

namespace WasmExec.Memory

/-! ## The steps of a run -/

/-- Whether a step put a byte at an index: it succeeded, and its range covers
the index. -/
def wrote (i : Nat) (step : Memory × Operation) : Bool :=
  step.1.accepts step.2 && step.2.covers i

theorem wrote_iff (i : Nat) (m : Memory) (op : Operation) :
    wrote i (m, op) = true ↔ m.accepts op = true ∧ op.covers i = true := by
  rw [wrote, Bool.and_eq_true]

/-- **The last step of a run that put a byte at an index**, with the memory
right before it. -/
def lastWrite? (m : Memory) (ops : List Operation) (i : Nat) : Option (Memory × Operation) :=
  ((m.trace ops).filter (wrote i)).getLast?

theorem lastWrite?_nil (m : Memory) (i : Nat) : m.lastWrite? [] i = none := rfl

/-- A later write hides an earlier one, and a step that did not write to the
index is passed over. -/
theorem lastWrite?_cons (m : Memory) (op : Operation) (ops : List Operation) (i : Nat) :
    m.lastWrite? (op :: ops) i
      = match (m.after op).lastWrite? ops i with
        | some step => some step
        | none => if wrote i (m, op) then some (m, op) else none := by
  rw [lastWrite?, trace, List.filter_cons]
  by_cases hw : wrote i (m, op) = true
  · rw [if_pos hw, List.getLast?_cons]
    cases hlater : (m.after op).lastWrite? ops i with
    | none =>
      rw [lastWrite?] at hlater
      rw [hlater, Option.getD_none]
      exact (if_pos hw).symm
    | some step =>
      rw [lastWrite?] at hlater
      rw [hlater, Option.getD_some]
  · rw [if_neg hw]
    cases hlater : (m.after op).lastWrite? ops i with
    | none =>
      rw [lastWrite?] at hlater
      rw [hlater]
      exact (if_neg hw).symm
    | some step =>
      rw [lastWrite?] at hlater
      rw [hlater]

/-- A write that succeeds stays inside the memory. -/
theorem lt_of_wrote {m : Memory} {op : Operation} {i : Nat} (h : wrote i (m, op) = true) :
    i < m.content.length := by
  rw [wrote_iff] at h
  obtain ⟨hok, hc⟩ := h
  have hwrite : op.isWrite = true := Operation.isWrite_of_covers hc
  rw [Operation.covers_iff] at hc
  cases hp : m.perform op with
  | error fault =>
    rw [accepts, hp] at hok
    cases hok
  | ok result =>
    obtain ⟨answer, m'⟩ := result
    rcases perform_cases hp with ⟨-, hin, -, -⟩ | ⟨delta, rfl, -⟩ | ⟨s, ptr, offset, rfl, -⟩
    · omega
    · cases hwrite
    · cases hwrite

/-! ## One index after a run -/

/-- **One index after a run**, from any memory. Without a write to the index its
old byte stays, or it is a zero of a page that was added.

The induction is on the run from its first step. A step that writes to the index
matters only if no later one does, and then nothing after it touches the byte. -/
theorem getElem?_run (ops : List Operation) (m : Memory) (i : Nat)
    (hi : i < (m.run ops).content.length) :
    (m.run ops).content[i]?
      = match m.lastWrite? ops i with
        | some (before, op) => op.byteAt? before i
        | none => if i < m.content.length then m.content[i]? else some 0 := by
  induction ops generalizing m with
  | nil =>
    rw [run_nil] at hi ⊢
    rw [lastWrite?_nil]
    exact (if_pos hi).symm
  | cons op ops ih =>
    rw [run_cons] at hi ⊢
    rw [ih (m.after op) hi, lastWrite?_cons]
    cases (m.after op).lastWrite? ops i with
    | some step => rfl
    | none =>
      -- no later step wrote to the index, so this one decides or the old byte stays
      have hgrow := m.length_content_le_after op
      by_cases hw : wrote i (m, op) = true
      · have hold : i < m.content.length := lt_of_wrote hw
        have hnew : i < (m.after op).content.length := by omega
        rw [if_pos hw]
        simp only
        rw [if_pos hnew, getElem?_after m op i hnew]
        exact if_pos hw
      · rw [if_neg hw]
        simp only
        by_cases hnew : i < (m.after op).content.length
        · rw [if_pos hnew, getElem?_after m op i hnew]
          exact if_neg hw
        · rw [if_neg hnew, if_neg (by omega)]

/-! ## From a new memory -/

/-- A new memory is a row of zeros. -/
theorem content_create {minimum maximum : UInt32} {m : Memory}
    (h : create minimum maximum = .ok m) :
    m.content = List.replicate (minimum.toNat * pageSize) 0 := by
  rw [create] at h
  split at h
  · cases h
  · split at h
    · cases h
    · cases h
      rw [content, toList_addPages]
      rfl

/-- A step that is refused, or that writes nothing, keeps every byte. -/
theorem getElem?_after_of_idle {m : Memory} {op : Operation}
    (h : m.accepts op = false ∨ op.isWrite = false) (i : Nat) (hi : i < m.content.length) :
    (m.after op).content[i]? = m.content[i]? := by
  have hlen := m.length_content_le_after op
  have hidle : ¬ (m.accepts op && op.covers i) = true := by
    intro hw
    rw [Bool.and_eq_true] at hw
    rcases h with h | h
    · rw [h] at hw
      exact Bool.false_ne_true hw.1
    · rw [Operation.isWrite_of_covers hw.2] at h
      cases h
  rw [getElem?_after m op i (by omega), if_neg hidle, if_pos hi]

/-- **Last write wins.** After any run of a new memory each index holds the byte
that the last successful write covering it put there, and zero if none did. A
step that is refused, a load and a grow keep every byte, and what a grow adds is
zero. -/
theorem last_write_wins (minimum maximum : UInt32) (m₀ : Memory)
    (h : create minimum maximum = .ok m₀) (ops : List Operation) :
    (∀ i, i < (m₀.run ops).bytes.size →
        (m₀.run ops).content[i]?
          = match m₀.lastWrite? ops i with
            | some (before, op) => op.byteAt? before i
            | none => some 0)
      ∧ (∀ op, (m₀.run ops).accepts op = false ∨ op.isWrite = false →
          ∀ i, i < (m₀.run ops).bytes.size →
            (m₀.run (ops ++ [op])).content[i]? = (m₀.run ops).content[i]?)
      ∧ ∀ delta i, (m₀.run ops).bytes.size ≤ i →
          i < (m₀.run (ops ++ [.grow delta])).bytes.size →
            (m₀.run (ops ++ [.grow delta])).content[i]? = some 0 := by
  refine ⟨?_, ?_, ?_⟩
  -- from a memory of zeros the old byte and the byte of a new page are the same
  · intro i hi
    rw [← length_content] at hi
    rw [getElem?_run ops m₀ i hi]
    cases m₀.lastWrite? ops i with
    | some step => rfl
    | none =>
      simp only
      rw [content_create h, List.length_replicate]
      by_cases hold : i < minimum.toNat * pageSize
      · rw [if_pos hold, List.getElem?_replicate_of_lt hold]
      · rw [if_neg hold]
  · intro op hidle i hi
    rw [← length_content] at hi
    rw [run_append, run_cons, run_nil]
    exact getElem?_after_of_idle hidle i hi
  -- an index that a grow made is covered by no write of it
  · intro delta i hold hi
    rw [← length_content] at hold hi
    rw [run_append, run_cons, run_nil] at hi ⊢
    have hc : ¬ ((m₀.run ops).accepts (.grow delta) && (Operation.grow delta).covers i) = true := by
      intro hw
      rw [Bool.and_eq_true] at hw
      exact Bool.false_ne_true (Operation.isWrite_of_covers hw.2)
    rw [getElem?_after _ _ i hi, if_neg hc, if_neg (by omega)]

/-- A copy onto itself, one place further, and then a store that does not fit:
index two holds what index one held before the copy. -/
theorem last_write_wins_overlapping_copy :
    ∃ m, create 1 2 = .ok m
      ∧ (m.run [.init 0 [1, 2, 3], .copy 1 0 3,
          .store (.unsigned .b16) 65535 0 0xffff#16]).content[2]? = some 2 := by
  obtain ⟨m, hm⟩ : ∃ m, create 1 2 = .ok m := ⟨_, rfl⟩
  refine ⟨m, hm, ?_⟩
  have hpage : m.content.length = 65536 := by
    rw [content_create hm, List.length_replicate]
    rfl
  have hpage' : (m.overwrite 0 [1, 2, 3]).content.length = 65536 := by
    rw [length_overwrite (by rw [hpage]; decide), hpage]
  -- the store at the end of the page is refused, so the copy is the last write
  have hlast : m.lastWrite? [.init 0 [1, 2, 3], .copy 1 0 3,
      .store (.unsigned .b16) 65535 0 0xffff#16] 2
        = some (m.overwrite 0 [1, 2, 3], .copy 1 0 3) := by
    simp [lastWrite?, trace, wrote, accepts, after, perform, Memory.init, Memory.copy,
      Memory.store, contains, Except.map, Except.isOk, Except.toBool, Operation.covers,
      Operation.start, Operation.count, ← length_content, hpage, hpage']
  have hsize := length_content_le_run [.init 0 [1, 2, 3], .copy 1 0 3,
    .store (.unsigned .b16) 65535 0 0xffff#16] m
  rw [(last_write_wins 1 2 m hm _).1 2 (by rw [← length_content]; omega), hlast]
  simp only
  rw [Operation.byteAt?, getElem?_overwrite (by rw [hpage]; decide)]
  rfl

end WasmExec.Memory
