/-
Assertion scripts and their runs.

A script is a list of commands that make a memory, fill it, run instructions
on it and say what they expect. A run judges every command once and goes on
whatever the verdict is. Two rules keep a verdict apart from what a command
does. The memory after a command depends on the instruction and its operands
alone, never on what was expected of it; and an expectation is read only after
the instruction has run, so a malformed one fails its command without undoing
the effect.
-/
import WasmExec.Display
import WasmExec.Mnemonic
import WasmExec.Script.Literal

set_option autoImplicit false

namespace WasmExec

/-! ## Commands -/

/-- An instruction to run, as it is written. -/
structure Invocation where
  op : String
  offset : UInt32
  args : List Literal
deriving DecidableEq

inductive Command where
  /-- Makes a new memory in place of the one before. -/
  | memory (line minimum maximum : UInt32)
  /-- Copies bytes into the memory. -/
  | init (line offset : UInt32) (bytes : List UInt8)
  /-- Runs an instruction that must not fail. -/
  | action (line : UInt32) (call : Invocation)
  /-- Runs an instruction that must give certain values. -/
  | assertReturn (line : UInt32) (call : Invocation) (expected : List Literal)
  /-- Runs an instruction that must trap with a message that starts with a
  text. -/
  | assertTrap (line : UInt32) (call : Invocation) (text : String)
deriving DecidableEq

namespace Command

def line : Command → UInt32
  | .memory line _ _ => line
  | .init line _ _ => line
  | .action line _ => line
  | .assertReturn line _ _ => line
  | .assertTrap line _ _ => line

def kind : Command → String
  | .memory _ _ _ => "memory"
  | .init _ _ _ => "init"
  | .action _ _ => "action"
  | .assertReturn _ _ _ => "assert_return"
  | .assertTrap _ _ _ => "assert_trap"

end Command

/-- A script: a name to report under, and commands. -/
structure Script where
  source : String
  commands : List Command
deriving DecidableEq

/-! ## Complaints -/

/-- **Why a command failed.** -/
inductive Complaint where
  | memoryRefused (fault : Fault)
  | initWithoutMemory
  | initRefused (fault : Fault)
  /-- The mnemonic names no instruction. -/
  | unreadableOp (op : String) (fault : Fault)
  | unreadableLiteral (error : LiteralError)
  | faulted (fault : Fault)
  | resultCount (expected got : Nat)
  | resultType (index : Nat) (expected got : ValType)
  | resultValue (index : Nat) (expected got : Value)
  /-- It trapped with another message. -/
  | trapMessage (expected : String) (fault : Fault)
  /-- It failed, but not by a trap. -/
  | notTrap (expected : String) (fault : Fault)
  /-- It did not fail. -/
  | noTrap (expected : String)
deriving DecidableEq

def Complaint.message : Complaint → String
  | .memoryRefused fault => "memory failed: " ++ fault.message
  | .initWithoutMemory => "init without a memory"
  | .initRefused fault => "init failed: " ++ fault.message
  | .unreadableOp op fault => op ++ ": " ++ fault.message
  | .unreadableLiteral error => error.message
  | .faulted fault => fault.message
  | .resultCount expected got =>
    "result count mismatch: expected " ++ toString expected ++ ", got " ++ toString got
  | .resultType index expected got =>
    "result[" ++ toString index ++ "] type mismatch: expected " ++ expected.name ++ ", got " ++
      got.name
  | .resultValue index expected got =>
    "result[" ++ toString index ++ "] mismatch: expected " ++ expected.display ++ ", got " ++
      got.display
  | .trapMessage expected fault =>
    "message mismatch: expected '" ++ expected ++ "', got '" ++ fault.message ++ "'"
  | .notTrap expected fault =>
    "wrong error type, expected trap '" ++ expected ++ "', got '" ++ fault.message ++ "'"
  | .noTrap expected => "expected trap: '" ++ expected ++ "'"

/-! ## Running an instruction -/

/-- The instruction and the operands of an invocation, both decoded. -/
def Invocation.decode (call : Invocation) : Except Complaint (Instruction × List Value) :=
  match Instruction.parse call.op with
  | .error fault => .error (.unreadableOp call.op fault)
  | .ok instruction =>
    match Literal.values call.args with
    | .error error => .error (.unreadableLiteral error)
    | .ok args => .ok (instruction.withOffset call.offset, args)

/-- What came of an invocation: a complaint if it could not be decoded, else the
outcome of the instruction. -/
abbrev Outcome : Type := Except Complaint (Except Fault (Option Value))

/-- Runs an invocation. One that cannot be decoded leaves the memory alone. -/
def Invocation.run (call : Invocation) (memory : Option Memory) : Outcome × Option Memory :=
  match call.decode with
  | .error complaint => (.error complaint, memory)
  | .ok (instruction, args) =>
    let (outcome, after) := instruction.execute memory args
    (.ok outcome, after)

/-! ## Verdicts -/

/-- The same bits at the same type, or NaNs of the same type. -/
def Value.agreesWith (got expected : Value) : Bool :=
  got.type = expected.type && (got.bits = expected.bits || (got.isNaN && expected.isNaN))

/-- Compares one result with what was expected in its place. -/
def checkResult (index : Nat) (got expected : Value) : Except Complaint Unit :=
  if got.type ≠ expected.type then .error (.resultType index expected.type got.type)
  else if got.agreesWith expected then .ok ()
  else .error (.resultValue index expected got)

/-- Compares the result of an instruction with the expected values. No
instruction gives more than one. -/
def checkResults (got : Option Value) (expected : List Value) : Except Complaint Unit :=
  match got, expected with
  | none, [] => .ok ()
  | some v, [e] => checkResult 0 v e
  | none, _ => .error (.resultCount expected.length 0)
  | some _, _ => .error (.resultCount expected.length 1)

/-- An action passes unless something failed. -/
def judgeAction : Outcome → Except Complaint Unit
  | .error complaint => .error complaint
  | .ok (.error fault) => .error (.faulted fault)
  | .ok (.ok _) => .ok ()

/-- The expected literals are decoded only if the instruction did not fail. -/
def judgeReturn (expected : List Literal) : Outcome → Except Complaint Unit
  | .error complaint => .error complaint
  | .ok (.error fault) => .error (.faulted fault)
  | .ok (.ok got) =>
    match Literal.values expected with
    | .error error => .error (.unreadableLiteral error)
    | .ok values => checkResults got values

/-- A trap passes if its message starts with the expected text. -/
def judgeTrap (text : String) : Outcome → Except Complaint Unit
  | .error complaint => .error complaint
  | .ok (.error fault) =>
    if fault.isTrap then
      if text.toList.isPrefixOf fault.message.toList then .ok ()
      else .error (.trapMessage text fault)
    else .error (.notTrap text fault)
  | .ok (.ok _) => .error (.noTrap text)

/-! ## Runs -/

/-- The verdict on a command, and the memory after it. A command that could not
make a memory leaves the one before. -/
def Command.run (c : Command) (memory : Option Memory) : Except Complaint Unit × Option Memory :=
  match c with
  | .memory _ minimum maximum =>
    match Memory.create minimum maximum with
    | .ok m => (.ok (), some m)
    | .error fault => (.error (.memoryRefused fault), memory)
  | .init _ offset bytes =>
    match memory with
    | none => (.error .initWithoutMemory, none)
    | some m =>
      match m.init offset bytes with
      | .ok after => (.ok (), some after)
      | .error fault => (.error (.initRefused fault), some m)
  | .action _ call =>
    let (outcome, after) := call.run memory
    (judgeAction outcome, after)
  | .assertReturn _ call expected =>
    let (outcome, after) := call.run memory
    (judgeReturn expected outcome, after)
  | .assertTrap _ call text =>
    let (outcome, after) := call.run memory
    (judgeTrap text outcome, after)

/-- The verdicts on a row of commands, in order. -/
def runCommands : Option Memory → List Command → List (Command × Except Complaint Unit)
  | _, [] => []
  | memory, c :: cs =>
    let (verdict, after) := c.run memory
    (c, verdict) :: runCommands after cs

/-- **The report on a run**: how many commands passed, and a line for each that
failed. -/
structure Report where
  passes : Nat
  failures : List String
deriving DecidableEq

def Report.isSuccess (r : Report) : Bool := r.failures.isEmpty

/-- The line for a failed command. -/
def failureLine (source : String) (c : Command) (complaint : Complaint) : String :=
  "[" ++ source ++ ":" ++ toString c.line.toNat ++ "] " ++ c.kind ++ ": " ++ complaint.message

/-- The line for a verdict, if it is a failure. -/
def failureLine? (source : String) : Command × Except Complaint Unit → Option String
  | (_, .ok ()) => none
  | (c, .error complaint) => some (failureLine source c complaint)

/-- Whether a verdict is a pass. -/
def hasPassed : Command × Except Complaint Unit → Bool
  | (_, .ok ()) => true
  | (_, .error _) => false

/-- **Runs a script** from a state without a memory. -/
def Script.run (s : Script) : Report :=
  let verdicts := runCommands none s.commands
  { passes := verdicts.countP hasPassed
    failures := verdicts.filterMap (failureLine? s.source) }

end WasmExec
