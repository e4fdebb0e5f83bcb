/-
Why an instruction can fail, and what the failure says.

A fault has two independent parts. Its *kind* tells the host what to do about
it: refuse the request, unwind the running code, refuse the module, or give
up. Its *reason* fixes the text. The text is a function of the reason alone,
so two faults with one reason always read the same and no other file spells a
message.
-/

set_option autoImplicit false

namespace WasmExec

/-! ## Reasons -/

/-- **What went wrong.** Each reason has exactly one wording. -/
inductive Reason where
  /-- The operand list has another length than the instruction takes. -/
  | argumentCount
  /-- More pages were asked for than a 32-bit address space holds. -/
  | memoryTooLarge
  | minimumAboveMaximum
  | typeMismatch
  /-- A memory instruction ran where no memory exists. -/
  | unknownMemory
  /-- The mnemonic, or the combination of its parts, names no instruction. -/
  | unknownOperator
  | divideByZero
  | integerOverflow
  /-- A NaN has no integer part. -/
  | invalidConversion
  | outOfBounds
  | segmentDoesNotFit
  | allocationFailed
deriving DecidableEq

/-- The wording of a reason. -/
def Reason.message : Reason → String
  | .argumentCount => "invalid number of arguments"
  | .memoryTooLarge => "memory size must be at most 65536 pages (4GiB)"
  | .minimumAboveMaximum => "size minimum must not be greater than maximum"
  | .typeMismatch => "type mismatch"
  | .unknownMemory => "unknown memory"
  | .unknownOperator => "unknown operator"
  | .divideByZero => "integer divide by zero"
  | .integerOverflow => "integer overflow"
  | .invalidConversion => "invalid conversion to integer"
  | .outOfBounds => "out of bounds memory access"
  | .segmentDoesNotFit => "data segment does not fit"
  | .allocationFailed => "memory allocation failed"

/-! ## Kinds -/

/-- **Who has to act on a fault.** -/
inductive FaultKind where
  /-- The request can never be accepted as it stands. -/
  | validation
  /-- The running code is aborted; its host goes on. -/
  | trap
  /-- A module does not fit what it is linked with. -/
  | link
  /-- The host has no memory left, and nothing can go on. -/
  | allocation
deriving DecidableEq

/-- The word that a report uses for a kind. -/
def FaultKind.name : FaultKind → String
  | .validation => "Validation"
  | .trap => "Trap"
  | .link => "Link"
  | .allocation => "Allocation"

/-! ## Faults -/

/-- **A fault** is a kind and a reason. -/
structure Fault where
  kind : FaultKind
  reason : Reason
deriving DecidableEq

namespace Fault

def validation (reason : Reason) : Fault := ⟨.validation, reason⟩
def trap (reason : Reason) : Fault := ⟨.trap, reason⟩
def link (reason : Reason) : Fault := ⟨.link, reason⟩

/-- What a reader is told. The kind does not show. -/
def message (f : Fault) : String := f.reason.message

/-- The kind with the message in quotes, for a log that must tell kinds apart.
No message holds a character that would need an escape. -/
def describe (f : Fault) : String := s!"{f.kind.name}(\"{f.message}\")"

def isTrap (f : Fault) : Bool := f.kind = .trap

/-- Only a failed allocation leaves nothing that can go on. -/
def isFatal (f : Fault) : Bool := f.kind = .allocation

end Fault

end WasmExec
