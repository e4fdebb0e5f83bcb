/-
Instructions and their execution.

An instruction is a numeric one or one of those that touch memory. Executing
it takes a memory, if there is one, and gives both an outcome and the memory
afterwards. The memory is part of the answer even when the outcome is a fault,
because a host goes on with it.

For a memory instruction the checks come in this order: the number of
operands, the presence of a memory, the types of the operands, and the range.
-/
import WasmExec.Numeric
import WasmExec.Memory

set_option autoImplicit false

namespace WasmExec

/-! ## Loads and stores -/

/-- Whether an access of a width can hold a type: an integer fits any access
that is no wider than itself, floating point only its own width. -/
def ValType.admits : ValType → AccessWidth → Bool
  | .int w, width => width.bytes ≤ w.bytes
  | .float w, width => width = w.access

/-- A load. A narrow integer is extended to its type. -/
structure Load where
  type : ValType
  width : AccessWidth
  sign : Signedness
  /-- The constant part of the address. -/
  offset : UInt32
deriving DecidableEq

/-- A store. A narrow one keeps the low bytes of the value. -/
structure Store where
  type : ValType
  width : AccessWidth
  /-- The constant part of the address. -/
  offset : UInt32
deriving DecidableEq

/-- The value in memory, extended to the type of the load. -/
def Load.apply (l : Load) (m : Memory) (address : Value) : Except Fault Value := do
  let ptr ← address.asIndex
  if l.type.admits l.width then
    let word ← m.load ptr l.offset l.width
    return Value.ofWord l.type (l.sign.extend l.type.width.bits word)
  else .error (.validation .unknownOperator)

/-- The memory with the low bytes of a value in it. -/
def Store.apply (s : Store) (m : Memory) (address value : Value) : Except Fault Memory := do
  let ptr ← address.asIndex
  if value.type ≠ s.type then .error (.validation .typeMismatch)
  else if s.type.admits s.width then
    m.store ptr s.offset s.width (BitVec.ofNat s.width.bits value.bits)
  else .error (.validation .unknownOperator)

/-! ## Instructions -/

inductive Instruction where
  | numeric (op : NumOp)
  | load (l : Load)
  | store (s : Store)
  | memorySize
  | memoryGrow
  | memoryFill
  | memoryCopy
deriving DecidableEq

namespace Instruction

/-- The types of the operands, the deepest first. -/
def operands : Instruction → List ValType
  | .numeric op => op.operands
  | .load _ => [.int .w32]
  | .store s => [.int .w32, s.type]
  | .memorySize => []
  | .memoryGrow => [.int .w32]
  | .memoryFill => [.int .w32, .int .w32, .int .w32]
  | .memoryCopy => [.int .w32, .int .w32, .int .w32]

/-- The type of the value that is pushed, if one is. -/
def result : Instruction → Option ValType
  | .numeric op => some op.result
  | .load l => some l.type
  | .store _ => none
  | .memorySize => some (.int .w32)
  | .memoryGrow => some (.int .w32)
  | .memoryFill => none
  | .memoryCopy => none

def arity (i : Instruction) : Nat := i.operands.length

def usesMemory : Instruction → Bool
  | .numeric _ => false
  | _ => true

/-- Sets the constant part of the address of a load or store. Other
instructions have none and stay as they are. -/
def withOffset (offset : UInt32) : Instruction → Instruction
  | .load l => .load { l with offset := offset }
  | .store s => .store { s with offset := offset }
  | i => i

/-! ## Execution -/

/-- Runs a memory instruction on a memory. A step that changes memory gives
the new one; the others give the one they were given. -/
def runOn (i : Instruction) (m : Memory) (args : List Value) :
    Except Fault (Option Value × Memory) :=
  match i, args with
  | .load l, [address] => return (some (← l.apply m address), m)
  | .store s, [address, value] => return (none, ← s.apply m address value)
  | .memorySize, [] => return (some (.int .w32 (BitVec.ofNat 32 m.current)), m)
  | .memoryGrow, [delta] => do
    let (pages, after) := m.grow (← delta.asIndex)
    return (some (.int .w32 pages), after)
  | .memoryFill, [dst, value, count] => do
    let dst ← dst.asIndex
    let value ← value.asInt .w32
    let count ← count.asIndex
    return (none, ← m.fill dst (UInt8.ofNat value.toNat) count)
  | .memoryCopy, [dst, src, count] => do
    let dst ← dst.asIndex
    let src ← src.asIndex
    let count ← count.asIndex
    return (none, ← m.copy dst src count)
  | _, _ => .error (.validation .argumentCount)

/-- **Executes an instruction** on operands that have been taken off the stack,
the deepest first. Gives the value to push, if any, or a fault, and the memory
afterwards. -/
def execute (i : Instruction) (memory : Option Memory) (args : List Value) :
    Except Fault (Option Value) × Option Memory :=
  match i with
  | .numeric op => ((op.apply args).map some, memory)
  | _ =>
    if args.length ≠ i.arity then (.error (.validation .argumentCount), memory)
    else
      match memory with
      | none => (.error (.validation .unknownMemory), none)
      | some m =>
        match i.runOn m args with
        | .ok (pushed, after) => (.ok pushed, some after)
        | .error fault => (.error fault, some m)

end Instruction

end WasmExec
