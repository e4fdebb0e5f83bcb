/-
What a host can do with a memory, one operation after another.

A host meets a memory through six operations and through nothing else. They are
collected in one type here, so that a *run* is a list of operations and a fact
about all runs is an induction on that list.

The one lemma that looks inside the operations is `perform_cases`: a successful
operation overwrites its range with its payload, or grows, or only reads. What
it says about one index, `getElem?_after`, is all that a statement about runs
needs.
-/
import WasmExec.Proofs.Memory.Content

set_option autoImplicit false

namespace WasmExec

/-! ## Operations -/

/-- **One use of a memory by its host.** A word is stored and loaded at one of
the scalar types; what the type makes of the bits is not the memory's business. -/
inductive Operation where
  | init (offset : UInt32) (bytes : List UInt8)
  | fill (dst : UInt32) (value : UInt8) (count : UInt32)
  | copy (dst src count : UInt32)
  | grow (delta : UInt32)
  | store (scalar : Scalar) (ptr offset : UInt32) (word : BitVec scalar.access.bits)
  | load (scalar : Scalar) (ptr offset : UInt32)

/-- What an operation answers when it succeeds. -/
inductive Answer where
  | done
  | pages (count : Word .w32)
  | word (width : AccessWidth) (bits : BitVec width.bits)

namespace Operation

/-- Whether an operation puts bytes into a range. -/
def isWrite : Operation → Bool
  | .init _ _ => true
  | .fill _ _ _ => true
  | .copy _ _ _ => true
  | .store _ _ _ _ => true
  | .grow _ => false
  | .load _ _ _ => false

/-- Where the range begins that an operation writes. -/
def start : Operation → Nat
  | .init offset _ => offset.toNat
  | .fill dst _ _ => dst.toNat
  | .copy dst _ _ => dst.toNat
  | .store _ ptr offset _ => ptr.toNat + offset.toNat
  | .grow _ => 0
  | .load _ _ _ => 0

/-- How many bytes an operation writes. -/
def count : Operation → Nat
  | .init _ bytes => bytes.length
  | .fill _ _ count => count.toNat
  | .copy _ _ count => count.toNat
  | .store scalar _ _ _ => scalar.access.bytes
  | .grow _ => 0
  | .load _ _ _ => 0

/-- Whether an index lies in the range that an operation writes. -/
def covers (op : Operation) (i : Nat) : Bool := op.start ≤ i && i < op.start + op.count

/-- **The byte that a write puts at an index of its range**, given the memory
right before it. A stored word lies there with its lowest digit first. -/
def byteAt? (m : Memory) (i : Nat) : Operation → Option UInt8
  | .init offset bytes => bytes[i - offset.toNat]?
  | .fill _ value _ => some value
  -- `m` is the memory before the copy, also where the ranges overlap
  | .copy dst src _ => m.content[src.toNat + (i - dst.toNat)]?
  | .store _ ptr offset word =>
    some (UInt8.ofNat (word.toNat / 256 ^ (i - (ptr.toNat + offset.toNat))))
  | .grow _ => none
  | .load _ _ _ => none

/-- The row of bytes that a write puts into its range. -/
def payload (m : Memory) : Operation → List UInt8
  | .init _ bytes => bytes
  | .fill _ value count => List.replicate count.toNat value
  | .copy _ src count => m.slice src.toNat count.toNat
  | .store scalar _ _ word => LittleEndian.encode scalar.access word
  | .grow _ => []
  | .load _ _ _ => []

theorem covers_iff (op : Operation) (i : Nat) :
    op.covers i = true ↔ op.start ≤ i ∧ i < op.start + op.count := by
  rw [covers, Bool.and_eq_true, decide_eq_true_eq, decide_eq_true_eq]

/-- Only a write covers anything. -/
theorem isWrite_of_covers {op : Operation} {i : Nat} (h : op.covers i = true) :
    op.isWrite = true := by
  rw [covers_iff] at h
  cases op with
  | init offset bytes => rfl
  | fill dst value count => rfl
  | copy dst src count => rfl
  | store scalar ptr offset word => rfl
  | grow delta => exact absurd h (by simp only [start, count]; omega)
  | load scalar ptr offset => exact absurd h (by simp only [start, count]; omega)

/-- The payload holds at each place the byte that belongs there. -/
theorem getElem?_payload (m : Memory) {op : Operation} {i : Nat} (h : op.covers i = true) :
    (op.payload m)[i - op.start]? = op.byteAt? m i := by
  rw [covers_iff] at h
  cases op with
  | init offset bytes => rfl
  | fill dst value count =>
    simp only [start, Operation.count] at h
    exact List.getElem?_replicate_of_lt (by simp only [start]; omega)
  | copy dst src count =>
    simp only [start, Operation.count] at h
    exact m.getElem?_slice _ _ _ (by simp only [start]; omega)
  | store scalar ptr offset word =>
    simp only [start, Operation.count] at h
    exact LittleEndian.getElem?_digits _ _ _ (by simp only [start]; omega)
  | grow delta => exact absurd h (by simp only [start, count]; omega)
  | load scalar ptr offset => exact absurd h (by simp only [start, count]; omega)

end Operation

/-! ## One step -/

namespace Memory

/-- **Performs an operation**: its answer and the memory after it, or the fault
that it was refused with. -/
def perform (m : Memory) : Operation → Except Fault (Answer × Memory)
  | .init offset bytes => (m.init offset bytes).map fun after => (.done, after)
  | .fill dst value count => (m.fill dst value count).map fun after => (.done, after)
  | .copy dst src count => (m.copy dst src count).map fun after => (.done, after)
  | .grow delta => .ok (.pages (m.grow delta).1, (m.grow delta).2)
  | .store scalar ptr offset word =>
    (m.store ptr offset scalar.access word).map fun after => (.done, after)
  | .load scalar ptr offset =>
    (m.load ptr offset scalar.access).map fun word => (.word scalar.access word, m)

/-- Whether an operation succeeds. -/
def accepts (m : Memory) (op : Operation) : Bool := (m.perform op).isOk

/-- The memory that a host goes on with after an operation. -/
def after (m : Memory) (op : Operation) : Memory :=
  match m.perform op with
  | .ok (_, after) => after
  | .error _ => m

theorem after_of_ok {m m' : Memory} {op : Operation} {answer : Answer}
    (h : m.perform op = .ok (answer, m')) : m.after op = m' := by
  rw [after, h]

theorem after_of_error {m : Memory} {op : Operation} {fault : Fault}
    (h : m.perform op = .error fault) : m.after op = m := by
  rw [after, h]

/-- **Everything that a successful operation can be.** It overwrites a range
inside the memory with a payload of the range's length, or it grows the memory,
or it reads. -/
theorem perform_cases {m m' : Memory} {op : Operation} {answer : Answer}
    (h : m.perform op = .ok (answer, m')) :
    (op.isWrite = true ∧ op.start + op.count ≤ m.content.length
        ∧ (op.payload m).length = op.count ∧ m' = m.overwrite op.start (op.payload m))
      ∨ (∃ delta, op = .grow delta ∧ m' = (m.grow delta).2)
      ∨ (∃ scalar ptr offset, op = .load scalar ptr offset ∧ m' = m) := by
  cases op with
  | init offset bytes =>
    rw [perform, Memory.init] at h
    split at h
    · next hin =>
      cases h
      exact .inl ⟨rfl, (m.contains_iff _ _).mp hin, rfl, rfl⟩
    · cases h
  | fill dst value count =>
    rw [perform, Memory.fill] at h
    split at h
    · next hin =>
      cases h
      exact .inl ⟨rfl, (m.contains_iff _ _).mp hin, List.length_replicate, rfl⟩
    · cases h
  | copy dst src count =>
    rw [perform, Memory.copy] at h
    split at h
    · next hin =>
      -- the source range gives the length of the payload, the other one its place
      cases h
      rw [Bool.and_eq_true, contains_iff, contains_iff] at hin
      exact .inl ⟨rfl, hin.2, length_slice hin.1, rfl⟩
    · cases h
  | store scalar ptr offset word =>
    rw [perform, Memory.store] at h
    split at h
    · next hin =>
      cases h
      exact .inl ⟨rfl, (m.contains_iff _ _).mp hin, LittleEndian.length_encode _ _, rfl⟩
    · cases h
  | grow delta =>
    rw [perform] at h
    cases h
    exact .inr (.inl ⟨delta, rfl, rfl⟩)
  | load scalar ptr offset =>
    rw [perform, Memory.load] at h
    split at h
    · cases h
      exact .inr (.inr ⟨scalar, ptr, offset, rfl, rfl⟩)
    · cases h

/-! ## Growing -/

/-- A grow that is refused changes nothing, and one that is not appends zeros. -/
theorem grow_cases (m : Memory) (delta : UInt32) :
    (delta.toNat ≤ m.maximum - m.current
        ∧ m.grow delta = (BitVec.ofNat 32 m.current,
          { m with bytes := addPages m.bytes delta.toNat, current := m.current + delta.toNat }))
      ∨ (m.maximum - m.current < delta.toNat ∧ m.grow delta = (growFailed, m)) := by
  rw [grow, grow?]
  by_cases h : delta.toNat ≤ m.maximum - m.current
  · rw [if_pos h]
    exact .inl ⟨h, rfl⟩
  · rw [if_neg h]
    exact .inr ⟨by omega, rfl⟩

/-- Growing keeps the bytes there are, and puts zeros behind them. -/
theorem content_grow (m : Memory) (delta : UInt32) :
    ∃ n, (m.grow delta).2.content = m.content ++ List.replicate n 0 := by
  rcases m.grow_cases delta with ⟨-, h⟩ | ⟨-, h⟩
  · exact ⟨delta.toNat * pageSize, by rw [h, content, toList_addPages]; rfl⟩
  · exact ⟨0, by rw [h, List.replicate_zero, List.append_nil]⟩

/-! ## One index after one step -/

/-- **One index after an operation.** A write that succeeds and covers the index
decides its byte; apart from that the bytes there were stay, and new ones are
zero. -/
theorem getElem?_after (m : Memory) (op : Operation) (i : Nat)
    (hi : i < (m.after op).content.length) :
    (m.after op).content[i]?
      = if m.accepts op && op.covers i then op.byteAt? m i
        else if i < m.content.length then m.content[i]? else some 0 := by
  cases hp : m.perform op with
  | error fault =>
    rw [after_of_error hp] at hi ⊢
    have hno : m.accepts op = false := by rw [accepts, hp]; rfl
    rw [hno, Bool.false_and, if_neg (by decide), if_pos hi]
  | ok result =>
    obtain ⟨answer, m'⟩ := result
    have hyes : m.accepts op = true := by rw [accepts, hp]; rfl
    rw [after_of_ok hp] at hi ⊢
    rw [hyes, Bool.true_and]
    rcases perform_cases hp with ⟨-, hin, hlen, rfl⟩ | ⟨delta, rfl, rfl⟩ | ⟨s, ptr, off, rfl, rfl⟩
    · -- a write: the payload where the range is, and the old bytes elsewhere
      have hfits : op.start + (op.payload m).length ≤ m.content.length := by rwa [hlen]
      rw [getElem?_overwrite hfits, hlen]
      rw [length_overwrite hfits] at hi
      by_cases hc : op.covers i = true
      · rw [if_pos hc, if_pos ((op.covers_iff i).mp hc), Operation.getElem?_payload m hc]
      · rw [if_neg hc, if_pos hi, if_neg (fun h => hc ((op.covers_iff i).mpr h))]
    · -- a grow: no range, and zeros behind what was there
      obtain ⟨n, hn⟩ := m.content_grow delta
      have hc : ¬ (Operation.grow delta).covers i = true :=
        fun h => Bool.false_ne_true (Operation.isWrite_of_covers h)
      rw [if_neg hc, hn]
      rw [hn, List.length_append, List.length_replicate] at hi
      by_cases hold : i < m.content.length
      · rw [if_pos hold, List.getElem?_append_left hold]
      · rw [if_neg hold, List.getElem?_append_right (by omega)]
        exact List.getElem?_replicate_of_lt (by omega)
    · have hc : ¬ (Operation.load s ptr off).covers i = true :=
        fun h => Bool.false_ne_true (Operation.isWrite_of_covers h)
      rw [if_neg hc, if_pos hi]

/-- No operation takes bytes away. -/
theorem length_content_le_after (m : Memory) (op : Operation) :
    m.content.length ≤ (m.after op).content.length := by
  cases hp : m.perform op with
  | error fault => rw [after_of_error hp]
  | ok result =>
    obtain ⟨answer, m'⟩ := result
    rw [after_of_ok hp]
    rcases perform_cases hp with ⟨-, hin, hlen, rfl⟩ | ⟨delta, rfl, rfl⟩ | ⟨s, ptr, off, rfl, rfl⟩
    · rw [length_overwrite (by rwa [hlen])]
    · obtain ⟨n, hn⟩ := m.content_grow delta
      rw [hn, List.length_append]
      omega
    · exact le_refl _

/-- **A write changes nothing outside its range**, neither another byte nor the
limits. -/
theorem frame_after_of_isWrite {op : Operation} (hw : op.isWrite = true) (m : Memory) :
    (m.after op).minimum = m.minimum ∧ (m.after op).current = m.current
      ∧ (m.after op).maximum = m.maximum
      ∧ (m.after op).content.length = m.content.length
      ∧ ∀ i, op.covers i = false → (m.after op).content[i]? = m.content[i]? := by
  cases hp : m.perform op with
  | error fault =>
    rw [after_of_error hp]
    exact ⟨rfl, rfl, rfl, rfl, fun _ _ => rfl⟩
  | ok result =>
    obtain ⟨answer, m'⟩ := result
    rw [after_of_ok hp]
    rcases perform_cases hp with ⟨-, hin, hlen, rfl⟩ | ⟨delta, rfl, -⟩ | ⟨s, ptr, offset, rfl, -⟩
    · have hfits : op.start + (op.payload m).length ≤ m.content.length := by rwa [hlen]
      refine ⟨rfl, rfl, rfl, length_overwrite hfits, ?_⟩
      intro i hi
      rw [getElem?_overwrite hfits, hlen, if_neg]
      intro hc
      rw [(op.covers_iff i).mpr hc] at hi
      cases hi
    · cases hw
    · cases hw

/-! ## Runs -/

/-- **The memory after a run.** A step that is refused is followed by the next. -/
def run (m : Memory) (ops : List Operation) : Memory := ops.foldl after m

/-- The operations of a run, each with the memory that it was performed on. -/
def trace (m : Memory) : List Operation → List (Memory × Operation)
  | [] => []
  | op :: ops => (m, op) :: (m.after op).trace ops

@[simp] theorem run_nil (m : Memory) : m.run [] = m := rfl

@[simp] theorem run_cons (m : Memory) (op : Operation) (ops : List Operation) :
    m.run (op :: ops) = (m.after op).run ops := rfl

theorem run_append (m : Memory) (ops ops' : List Operation) :
    m.run (ops ++ ops') = (m.run ops).run ops' := List.foldl_append

theorem length_content_le_run (ops : List Operation) (m : Memory) :
    m.content.length ≤ (m.run ops).content.length := by
  induction ops generalizing m with
  | nil => exact le_refl _
  | cons op ops ih => exact le_trans (m.length_content_le_after op) (ih (m.after op))

end Memory

end WasmExec
