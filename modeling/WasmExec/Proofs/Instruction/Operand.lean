/-
Operands: what becomes of a value that an instruction takes as one type.

An operand is taken as an integer, as floating point or as an index, and each
of the three either gives the word of the value or is a type mismatch. The
lemmas here say both halves at once, so a proof about an instruction splits each
operand once and has its word, or knows that its type is another.

An instruction that is given operands of its types has nothing to refuse, and is
its operation on their words.
-/
import WasmExec.Numeric

set_option autoImplicit false

namespace WasmExec

namespace Value

/-- A value of integer type is its word, and no other value can be taken as an
integer. -/
theorem asInt_cases (w : Width) (v : Value) :
    (∃ b, v = .int w b ∧ v.asInt w = .ok b)
      ∨ (v.type ≠ .int w ∧ v.asInt w = .error (.validation .typeMismatch)) := by
  match w, v with
  | .w32, .int .w32 b => exact .inl ⟨b, rfl, rfl⟩
  | .w64, .int .w64 b => exact .inl ⟨b, rfl, rfl⟩
  | .w32, .int .w64 b => exact .inr ⟨nofun, rfl⟩
  | .w64, .int .w32 b => exact .inr ⟨nofun, rfl⟩
  | .w32, .float w b => exact .inr ⟨nofun, rfl⟩
  | .w64, .float w b => exact .inr ⟨nofun, rfl⟩

/-- A value of floating-point type is its word, and no other value can be taken
as floating point. -/
theorem asFloat_cases (w : Width) (v : Value) :
    (∃ b, v = .float w b ∧ v.asFloat w = .ok b)
      ∨ (v.type ≠ .float w ∧ v.asFloat w = .error (.validation .typeMismatch)) := by
  match w, v with
  | .w32, .float .w32 b => exact .inl ⟨b, rfl, rfl⟩
  | .w64, .float .w64 b => exact .inl ⟨b, rfl, rfl⟩
  | .w32, .float .w64 b => exact .inr ⟨nofun, rfl⟩
  | .w64, .float .w32 b => exact .inr ⟨nofun, rfl⟩
  | .w32, .int w b => exact .inr ⟨nofun, rfl⟩
  | .w64, .int w b => exact .inr ⟨nofun, rfl⟩

/-- An index is a narrow integer without its sign. -/
theorem asIndex_cases (v : Value) :
    (∃ index, v.type = .int .w32 ∧ v.bits = index.toNat ∧ v.asIndex = .ok index)
      ∨ (v.type ≠ .int .w32 ∧ v.asIndex = .error (.validation .typeMismatch)) := by
  rcases v.asInt_cases .w32 with ⟨b, rfl, hb⟩ | ⟨htype, he⟩
  · exact .inl ⟨UInt32.ofBitVec b, rfl, rfl, rfl⟩
  · exact .inr ⟨htype, by rw [asIndex, he]; rfl⟩

@[simp] theorem asInt_self (w : Width) (b : Word w) : (Value.int w b).asInt w = .ok b := by
  cases w <;> rfl

@[simp] theorem asFloat_self (w : Width) (b : Word w) : (Value.float w b).asFloat w = .ok b := by
  cases w <;> rfl

theorem bits_of_asIndex {v : Value} {index : UInt32} (h : v.asIndex = .ok index) :
    v.bits = index.toNat := by
  rcases v.asIndex_cases with ⟨index', -, hbits, hok⟩ | ⟨-, he⟩
  · rw [hok] at h
    cases h
    exact hbits
  · rw [he] at h
    cases h

end Value

/-! ## Operands of the right types -/

namespace NumOp

variable (w : Width)

theorem apply_intUnary (op : IntUnary) (a : Word w) :
    (NumOp.intUnary w op).apply [.int w a] = .ok (.int w (op.eval a)) := by
  rw [NumOp.apply, Value.asInt_self]
  rfl

theorem apply_intEqz (a : Word w) :
    (NumOp.intEqz w).apply [.int w a] = .ok (.int .w32 (truthWord (a = 0))) := by
  rw [NumOp.apply, Value.asInt_self]
  rfl

theorem apply_intBinary (op : IntBinary) (a b : Word w) :
    (NumOp.intBinary w op).apply [.int w a, .int w b] = (op.eval a b).map (Value.int w) := by
  have hstep : (NumOp.intBinary w op).apply [.int w a, .int w b]
      = (do return Value.int w (← op.eval a b)) := by
    rw [NumOp.apply, Value.asInt_self, Value.asInt_self]
    rfl
  rw [hstep]
  cases op.eval a b <;> rfl

theorem apply_intCompare (op : IntCompare) (a b : Word w) :
    (NumOp.intCompare w op).apply [.int w a, .int w b]
      = .ok (.int .w32 (truthWord (op.eval a b))) := by
  rw [NumOp.apply, Value.asInt_self, Value.asInt_self]
  rfl

theorem apply_floatUnary (op : FloatUnary) (x : Word w) :
    (NumOp.floatUnary w op).apply [.float w x] = .ok (.float w (op.eval x)) := by
  rw [NumOp.apply, Value.asFloat_self]
  rfl

theorem apply_floatBinary (op : FloatBinary) (x y : Word w) :
    (NumOp.floatBinary w op).apply [.float w x, .float w y] = .ok (.float w (op.eval x y)) := by
  rw [NumOp.apply, Value.asFloat_self, Value.asFloat_self]
  rfl

theorem apply_floatCompare (op : FloatCompare) (x y : Word w) :
    (NumOp.floatCompare w op).apply [.float w x, .float w y]
      = .ok (.int .w32 (truthWord (op.eval x y))) := by
  rw [NumOp.apply, Value.asFloat_self, Value.asFloat_self]
  rfl

/-- The instruction gives one exactly if the relation holds. -/
theorem apply_floatCompare_iff (op : FloatCompare) (x y : Word w) :
    (NumOp.floatCompare w op).apply [.float w x, .float w y] = .ok (.int .w32 1)
      ↔ op.eval x y = true := by
  rw [apply_floatCompare, Except.ok.injEq]
  cases op.eval x y <;> decide

end NumOp

end WasmExec
