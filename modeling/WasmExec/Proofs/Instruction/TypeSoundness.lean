/-
Instructions keep to their signatures.

The checks of an instruction come in an order that its outcome shows: the number of
the operands, the presence of a memory, the types of the operands, and only then
anything that depends on what the operands are. So a list of the right types is
answered by a result of the right type or by a trap, and never again by a
validation fault; and a list of wrong types is a type mismatch even where the values
would trap.

`Takes` carries the argument. An operand is taken at a type by a step that fails
exactly on the other types, and an instruction is a row of such steps with a rest
that cannot fail but by a trap (`Typed.take`). Each instruction is then one line for
each of its operands.
-/
import WasmExec.Proofs.Instruction.Operand
import WasmExec.Proofs.Instruction.Signature
import Mathlib.Data.List.Basic

set_option autoImplicit false

namespace WasmExec

/-! ## Taking operands -/

/-- **A step that takes a value at a type**: it fails on all other values, with a
type mismatch, and on no value of the type. -/
def Takes {α : Type} (t : ValType) (take : Value → Except Fault α) : Prop :=
  ∀ v, (v.type = t ∧ ∃ a, take v = .ok a)
    ∨ (v.type ≠ t ∧ take v = .error (.validation .typeMismatch))

theorem takes_asInt (w : Width) : Takes (.int w) (Value.asInt w) := by
  intro v
  rcases v.asInt_cases w with ⟨b, rfl, hb⟩ | hno
  · exact .inl ⟨rfl, b, hb⟩
  · exact .inr hno

theorem takes_asFloat (w : Width) : Takes (.float w) (Value.asFloat w) := by
  intro v
  rcases v.asFloat_cases w with ⟨b, rfl, hb⟩ | hno
  · exact .inl ⟨rfl, b, hb⟩
  · exact .inr hno

theorem takes_asIndex : Takes (.int .w32) Value.asIndex := by
  intro v
  rcases v.asIndex_cases with ⟨index, htype, -, hindex⟩ | hno
  · exact .inl ⟨htype, index, hindex⟩
  · exact .inr hno

/-- **A sound outcome** has the property it should have, or is a trap. -/
def Sound {α : Type} (good : α → Prop) (e : Except Fault α) : Prop :=
  (∃ a, e = .ok a ∧ good a) ∨ ∃ reason, e = .error (.trap reason)

/-- **An outcome that depends on the types of operands first**: on the types
expected it is sound, and on all others it is a type mismatch. -/
def Typed {α : Type} (good : α → Prop) (expected : List ValType) (args : List Value)
    (e : Except Fault α) : Prop :=
  (args.map Value.type = expected ∧ Sound good e)
    ∨ (args.map Value.type ≠ expected ∧ e = .error (.validation .typeMismatch))

section Steps

variable {α β γ : Type} {good : α → Prop} {e : Except Fault α}

theorem Sound.ok {a : α} (h : good a) : Sound good (.ok a) := .inl ⟨a, rfl, h⟩

theorem Sound.trap (reason : Reason) : Sound good (.error (.trap reason)) := .inr ⟨reason, rfl⟩

/-- What follows a step that can only trap. -/
theorem Sound.bind {good' : β → Prop} {f : α → Except Fault β} (he : Sound good e)
    (hf : ∀ a, good a → Sound good' (f a)) : Sound good' (e >>= f) := by
  rcases he with ⟨a, rfl, ha⟩ | ⟨reason, rfl⟩
  · exact hf a ha
  · exact .trap reason

theorem Typed.nil (h : Sound good e) : Typed good [] [] e := .inl ⟨rfl, h⟩

/-- One operand more. A mismatch in it comes before anything in the rest. -/
theorem Typed.take {t : ValType} {take : Value → Except Fault γ} (ht : Takes t take)
    {expected : List ValType} {v : Value} {args : List Value} {f : γ → Except Fault α}
    (hf : ∀ a, Typed good expected args (f a)) :
    Typed good (t :: expected) (v :: args) (take v >>= f) := by
  rcases ht v with ⟨htype, a, ha⟩ | ⟨htype, he⟩
  -- the operand is taken: the rest decides, and the lists differ where the rests do
  · rw [ha]
    rcases hf a with ⟨hargs, hsound⟩ | ⟨hargs, hmismatch⟩
    · refine .inl ⟨?_, hsound⟩
      rw [List.map_cons, htype, hargs]
    · refine .inr ⟨?_, hmismatch⟩
      rw [List.map_cons, htype]
      exact fun h => hargs (List.cons.inj h).2
  · rw [he]
    refine .inr ⟨?_, rfl⟩
    rw [List.map_cons]
    exact fun h => htype (List.cons.inj h).1

/-- What follows when the operands have been taken. -/
theorem Typed.bind {good' : β → Prop} {expected : List ValType} {args : List Value}
    {f : α → Except Fault β} (he : Typed good expected args e)
    (hf : ∀ a, good a → Sound good' (f a)) : Typed good' expected args (e >>= f) := by
  rcases he with ⟨hargs, hsound⟩ | ⟨hargs, rfl⟩
  · exact .inl ⟨hargs, hsound.bind hf⟩
  · exact .inr ⟨hargs, rfl⟩

end Steps

/-! ## Numeric instructions -/

/-- Division is the one integer operation that can fail, and then it traps. -/
theorem IntBinary.eval_sound {n : Nat} (op : IntBinary) (a b : BitVec n) :
    Sound (fun _ => True) (op.eval a b) := by
  cases op with
  | div sign =>
    simp only [eval]
    split
    · exact .trap .divideByZero
    · cases sign <;> exact .ok trivial
  | rem sign =>
    simp only [eval]
    split
    · exact .trap .divideByZero
    · cases sign <;> exact .ok trivial
  | shr sign => cases sign <;> exact .ok trivial
  | _ => exact .ok trivial

theorem Floating.truncate_sound {source : Width} (target : Width) (sign : Signedness)
    (x : Word source) : Sound (fun _ => True) (truncate target sign x) := by
  rw [truncate]
  split
  · exact .trap .invalidConversion
  · exact .trap .integerOverflow
  · simp only
    split
    · exact .ok trivial
    · exact .trap .integerOverflow

/-- A conversion whose parts go together keeps to its signature. -/
theorem Conversion.apply_typed {op : Conversion}
    (hop : (Instruction.numeric (.convert op)).isSupported = true) (a : Value) :
    Typed (fun v => v.type = op.result) [op.operand] [a] (op.apply a) := by
  cases op with
  | wrap => exact .take (takes_asInt _) fun x => .nil (.ok rfl)
  | extend sign => exact .take (takes_asInt _) fun x => .nil (.ok rfl)
  | extendInPlace w count =>
    rw [apply, if_pos (show isExtension w count = true from hop)]
    exact .take (takes_asInt _) fun x => .nil (.ok rfl)
  | truncate source target sign saturating =>
    refine .take (takes_asFloat _) fun x => .nil ?_
    cases saturating with
    | true => exact .ok rfl
    | false => exact (Floating.truncate_sound target sign x).bind fun y _ => .ok rfl
  | convert source target sign => exact .take (takes_asInt _) fun x => .nil (.ok rfl)
  | demote => exact .take (takes_asFloat _) fun x => .nil (.ok rfl)
  | promote => exact .take (takes_asFloat _) fun x => .nil (.ok rfl)
  | reinterpretInt w => exact .take (takes_asInt _) fun x => .nil (.ok rfl)
  | reinterpretFloat w => exact .take (takes_asFloat _) fun x => .nil (.ok rfl)

namespace NumOp

/-- The count is the first thing that is checked. -/
theorem apply_argumentCount {op : NumOp} {args : List Value} (h : args.length ≠ op.arity) :
    op.apply args = .error (.validation .argumentCount) := by
  -- no instruction takes none or three, and each takes either one or two
  rcases args with _ | ⟨a, _ | ⟨b, _ | ⟨c, rest⟩⟩⟩
  · cases op <;> rfl
  · cases op <;> first | rfl | exact absurd rfl h
  · cases op <;> first | rfl | exact absurd rfl h
  · cases op <;> rfl

/-- A numeric instruction whose parts go together keeps to its signature. -/
theorem apply_typed {op : NumOp} (hop : (Instruction.numeric op).isSupported = true)
    {args : List Value} (hlen : args.length = op.arity) :
    Typed (fun v => v.type = op.result) op.operands args (op.apply args) := by
  cases op with
  | intUnary w op =>
    obtain ⟨a, rfl⟩ := List.length_eq_one_iff.mp hlen
    exact .take (takes_asInt w) fun x => .nil (.ok rfl)
  | intEqz w =>
    obtain ⟨a, rfl⟩ := List.length_eq_one_iff.mp hlen
    exact .take (takes_asInt w) fun x => .nil (.ok rfl)
  | intBinary w op =>
    obtain ⟨a, b, rfl⟩ := List.length_eq_two.mp hlen
    refine .take (takes_asInt w) fun x => .take (takes_asInt w) fun y => .nil ?_
    exact (op.eval_sound x y).bind fun z _ => .ok rfl
  | intCompare w op =>
    obtain ⟨a, b, rfl⟩ := List.length_eq_two.mp hlen
    exact .take (takes_asInt w) fun x => .take (takes_asInt w) fun y => .nil (.ok rfl)
  | floatUnary w op =>
    obtain ⟨a, rfl⟩ := List.length_eq_one_iff.mp hlen
    exact .take (takes_asFloat w) fun x => .nil (.ok rfl)
  | floatBinary w op =>
    obtain ⟨a, b, rfl⟩ := List.length_eq_two.mp hlen
    exact .take (takes_asFloat w) fun x => .take (takes_asFloat w) fun y => .nil (.ok rfl)
  | floatCompare w op =>
    obtain ⟨a, b, rfl⟩ := List.length_eq_two.mp hlen
    exact .take (takes_asFloat w) fun x => .take (takes_asFloat w) fun y => .nil (.ok rfl)
  | convert op =>
    obtain ⟨a, rfl⟩ := List.length_eq_one_iff.mp hlen
    exact op.apply_typed hop a

end NumOp

/-! ## Memory instructions -/

namespace Memory

variable (m : Memory)

theorem load_sound (ptr offset : UInt32) (width : AccessWidth) :
    Sound (fun _ => True) (m.load ptr offset width) := by
  rw [load]
  split
  · exact .ok trivial
  · exact .trap .outOfBounds

theorem store_sound (ptr offset : UInt32) (width : AccessWidth) (word : BitVec width.bits) :
    Sound (fun _ => True) (m.store ptr offset width word) := by
  rw [store]
  split
  · exact .ok trivial
  · exact .trap .outOfBounds

theorem fill_sound (dst : UInt32) (value : UInt8) (count : UInt32) :
    Sound (fun _ => True) (m.fill dst value count) := by
  rw [fill]
  split
  · exact .ok trivial
  · exact .trap .outOfBounds

theorem copy_sound (dst src count : UInt32) : Sound (fun _ => True) (m.copy dst src count) := by
  rw [copy]
  split
  · exact .ok trivial
  · exact .trap .outOfBounds

end Memory

theorem Value.type_ofWord (t : ValType) (b : Word t.width) : (ofWord t b).type = t := by
  cases t <;> rfl

theorem Load.apply_typed {l : Load} (hl : l.type.admits l.width = true) (m : Memory)
    (address : Value) :
    Typed (fun v => v.type = l.type) [.int .w32] [address] (l.apply m address) := by
  refine .take takes_asIndex fun ptr => .nil ?_
  rw [if_pos hl]
  exact (m.load_sound ptr l.offset l.width).bind fun word _ => .ok (Value.type_ofWord _ _)

/-- The type of the value is compared only after the address was taken. -/
theorem Store.apply_typed {s : Store} (hs : s.type.admits s.width = true) (m : Memory)
    (address value : Value) :
    Typed (fun _ => True) [.int .w32, s.type] [address, value] (s.apply m address value) := by
  refine .take takes_asIndex fun ptr => ?_
  by_cases htype : value.type = s.type
  · refine .inl ⟨by rw [List.map_singleton, htype], ?_⟩
    rw [if_neg (not_not.mpr htype), if_pos hs]
    exact m.store_sound ptr s.offset s.width _
  · rw [if_pos htype]
    refine .inr ⟨?_, rfl⟩
    rw [List.map_singleton]
    exact fun h => htype (List.cons.inj h).1

namespace Instruction

/-- A memory instruction whose parts go together keeps to its signature. -/
theorem runOn_typed {i : Instruction} (hi : i.isSupported = true) (hmem : i.usesMemory = true)
    (m : Memory) {args : List Value} (hlen : args.length = i.arity) :
    Typed (fun r => r.1.map Value.type = i.result) i.operands args (i.runOn m args) := by
  cases i with
  | numeric op => cases hmem
  | load l =>
    obtain ⟨address, rfl⟩ := List.length_eq_one_iff.mp hlen
    exact (Load.apply_typed hi m address).bind fun v hv => .ok (congrArg some hv)
  | store s =>
    obtain ⟨address, value, rfl⟩ := List.length_eq_two.mp hlen
    exact (Store.apply_typed hi m address value).bind fun after _ => .ok rfl
  | memorySize =>
    rw [List.length_eq_zero_iff.mp hlen]
    exact .nil (.ok rfl)
  | memoryGrow =>
    obtain ⟨delta, rfl⟩ := List.length_eq_one_iff.mp hlen
    exact .take takes_asIndex fun delta => .nil (.ok rfl)
  | memoryFill =>
    obtain ⟨dst, value, count, rfl⟩ := List.length_eq_three.mp hlen
    refine .take takes_asIndex fun dst => .take (takes_asInt .w32) fun value => ?_
    refine .take takes_asIndex fun count => .nil ?_
    exact (m.fill_sound dst _ count).bind fun after _ => .ok rfl
  | memoryCopy =>
    obtain ⟨dst, src, count, rfl⟩ := List.length_eq_three.mp hlen
    refine .take takes_asIndex fun dst => .take takes_asIndex fun src => ?_
    refine .take takes_asIndex fun count => .nil ?_
    exact (m.copy_sound dst src count).bind fun after _ => .ok rfl

/-- Once the operands are as many as they should be and there is a memory, the
outcome is that of the instruction on the memory. -/
theorem execute_outcome {i : Instruction} (hmem : i.usesMemory = true) (m : Memory)
    {args : List Value} (hlen : args.length = i.arity) :
    (i.execute (some m) args).1 = i.runOn m args >>= fun r => .ok r.1 := by
  cases i with
  | numeric op => cases hmem
  | _ =>
    simp only [execute]
    rw [if_neg (not_not.mpr hlen)]
    split
    · next hrun => rw [hrun]; rfl
    · next hrun => rw [hrun]; rfl

theorem execute_argumentCount {i : Instruction} {memory : Option Memory} {args : List Value}
    (hlen : args.length ≠ i.arity) :
    (i.execute memory args).1 = .error (.validation .argumentCount) := by
  cases i with
  | numeric op =>
    simp only [execute, NumOp.apply_argumentCount hlen]
    rfl
  | _ =>
    simp only [execute]
    rw [if_pos hlen]

theorem execute_unknownMemory {i : Instruction} (hmem : i.usesMemory = true)
    {args : List Value} (hlen : args.length = i.arity) :
    (i.execute none args).1 = .error (.validation .unknownMemory) := by
  cases i with
  | numeric op => cases hmem
  | _ =>
    simp only [execute]
    rw [if_neg (not_not.mpr hlen)]

/-- Past the count and the presence of a memory, an instruction is typed. -/
theorem execute_typed {i : Instruction} (hi : i.isSupported = true) {memory : Option Memory}
    (hmem : i.usesMemory = true → memory ≠ none) {args : List Value}
    (hlen : args.length = i.arity) :
    Typed (fun pushed => pushed.map Value.type = i.result) i.operands args
      (i.execute memory args).1 := by
  by_cases huses : i.usesMemory = true
  -- `hmem` rules the missing memory out
  · obtain ⟨m, rfl⟩ := Option.ne_none_iff_exists'.mp (hmem huses)
    rw [execute_outcome huses m hlen]
    exact (runOn_typed hi huses m hlen).bind fun r hr => .ok hr
  · cases i with
    | numeric op =>
      have hmap : (execute (.numeric op) memory args).1
          = op.apply args >>= fun v => .ok (some v) := by
        rw [execute]
        cases op.apply args <;> rfl
      rw [hmap]
      exact (op.apply_typed hi hlen).bind fun v hv => .ok (congrArg some hv)
    | _ => exact absurd rfl huses

end Instruction

/-! ## Signatures are kept to -/

/-- **What a signature promises of an outcome**, in the order of the checks. -/
structure Signature.Describes (sig : Signature) (memory : Option Memory) (args : List Value)
    (e : Except Fault (Option Value)) : Prop where
  of_count : args.length ≠ sig.operands.length → e = .error (.validation .argumentCount)
  of_noMemory : args.length = sig.operands.length → sig.usesMemory = true → memory = none →
    e = .error (.validation .unknownMemory)
  of_mismatch : args.length = sig.operands.length → (sig.usesMemory = true → memory ≠ none) →
    args.map Value.type ≠ sig.operands → e = .error (.validation .typeMismatch)
  of_match : (sig.usesMemory = true → memory ≠ none) → args.map Value.type = sig.operands →
    (∃ pushed, e = .ok pushed ∧ pushed.map Value.type = sig.result)
      ∨ ∃ reason, e = .error (.trap reason)

namespace Instruction

theorem signature_withOffset (i : Instruction) (offset : UInt32) :
    (i.withOffset offset).signature = i.signature := by
  cases i <;> rfl

theorem isSupported_withOffset (i : Instruction) (offset : UInt32) :
    (i.withOffset offset).isSupported = i.isSupported := by
  cases i <;> rfl

/-- An instruction whose parts go together does what its signature says. -/
theorem describes_execute {i : Instruction} (hi : i.isSupported = true)
    (memory : Option Memory) (args : List Value) :
    i.signature.Describes memory args (i.execute memory args).1 where
  of_count hlen := execute_argumentCount hlen
  of_noMemory hlen huses hnone := by
    rw [hnone]
    exact execute_unknownMemory huses hlen
  of_mismatch hlen hmem hargs := by
    rcases execute_typed hi hmem hlen with ⟨hsame, -⟩ | ⟨-, hmismatch⟩
    · exact absurd hsame hargs
    · exact hmismatch
  of_match hmem hargs := by
    have hlen : args.length = i.arity := by
      rw [← List.length_map (f := Value.type), hargs]
      rfl
    rcases execute_typed hi hmem hlen with ⟨-, hsound⟩ | ⟨hno, -⟩
    · exact hsound
    · exact absurd hargs hno

/-- **Type soundness.** Whatever text names an instruction, the text has a
signature, and with any offset the instruction does on any operands, with a memory
or without one, what the signature says: it refuses the wrong number of operands, a
missing memory and wrong types, in this order, and else pushes exactly what the
signature gives, or traps. -/
theorem parse_sound {s : String} {i : Instruction} (h : parse s = .ok i) :
    ∃ sig, Signature.ofMnemonic? s = some sig ∧ sig.operands.length = i.arity
      ∧ ∀ offset memory args,
        sig.Describes memory args ((i.withOffset offset).execute memory args).1 := by
  obtain ⟨hsig, hi⟩ := ofMnemonic_of_mem_table (s, i) (mem_table_of_parse h)
  refine ⟨i.signature, hsig, rfl, ?_⟩
  intro offset memory args
  rw [← i.signature_withOffset offset]
  exact describes_execute (by rwa [isSupported_withOffset]) memory args

/-- A division by zero whose divisor has another type is no trap. -/
theorem parse_sound_division :
    parse "i32.div_s" = .ok (.numeric (.intBinary .w32 (.div .signed)))
      ∧ ((numeric (.intBinary .w32 (.div .signed))).withOffset 0).execute none [.i32 1, .f32 0]
        = (.error (.validation .typeMismatch), none) := by
  have hparse : parse "i32.div_s" = .ok (.numeric (.intBinary .w32 (.div .signed))) := rfl
  obtain ⟨sig, hsig, -, hdescribes⟩ := parse_sound hparse
  have htext : Signature.ofMnemonic? "i32.div_s" = some ⟨[.i32, .i32], some .i32, false⟩ := by
    decide +kernel
  rw [htext] at hsig
  cases hsig
  exact ⟨hparse, Prod.ext ((hdescribes 0 none [.i32 1, .f32 0]).of_mismatch rfl nofun (by decide))
    rfl⟩

end Instruction

end WasmExec
