/-
The program that evaluates one instruction.

Its arguments are a mnemonic and operands, with options for a memory, the data
segments to copy into it, and the constant part of an address. Everything that
can be wrong is looked at in a fixed order: the mnemonic, the memory, the
segments, the operands, their number, and last the execution. What a debugging
user is told on the way stays on record also when a later step fails.
-/
import WasmExec.CommandLine.Argument
import WasmExec.CommandLine.Options
import WasmExec.Describe
import WasmExec.Display
import WasmExec.Mnemonic
import WasmExec.Text.Quoted

set_option autoImplicit false

namespace WasmExec.CommandLine

/-! ## Requests -/

inductive EvaluateOption where
  | memory
  | init
  | offset
  | debug
  | help
deriving DecidableEq

/-- Behind the mnemonic a dash may start an operand, and once there is one
operand everything is an operand. -/
def evaluateGrammar : Grammar EvaluateOption where
  options := [
    ⟨.memory, 'm', "memory", .value⟩,
    ⟨.init, 'i', "init", .value⟩,
    ⟨.offset, 'o', "offset", .value⟩,
    ⟨.debug, 'd', "debug", .flag⟩,
    ⟨.help, 'h', "help", .help⟩]
  lenientAfter := fun count => count = 1
  rawAfter := fun count => 2 ≤ count

/-- **A request to evaluate**, as it was written. -/
structure Evaluation where
  op : Option String
  operands : List String
  memory : Option String
  segments : List String
  offset : Option UInt32
  debug : Bool
deriving DecidableEq

/-- An offset as an option value. Any sign may be written, so minus zero is
zero. -/
def readOffset? (text : String) : Option UInt32 :=
  match Text.readInt? text.toList with
  | some z => if 0 ≤ z ∧ z < 4294967296 then some (UInt32.ofNat z.toNat) else none
  | none => none

/-- Adds one event to a request. Only segments may be given more than once. -/
def Evaluation.add? (r : Evaluation) : Event EvaluateOption → Option Evaluation
  | .positional text =>
    match r.op with
    | none => some { r with op := some text }
    | some _ => some { r with operands := r.operands ++ [text] }
  | .value .memory text => if r.memory.isSome then none else some { r with memory := some text }
  | .value .init text => some { r with segments := r.segments ++ [text] }
  | .value .offset text =>
    if r.offset.isSome then none
    else (readOffset? text).map fun offset => { r with offset := some offset }
  | .flag .debug => if r.debug then none else some { r with debug := true }
  | _ => none

/-- Adds a row of events, if all can be added. -/
def Evaluation.addAll? (r : Evaluation) : List (Event EvaluateOption) → Option Evaluation
  | [] => some r
  | event :: events => (r.add? event).bind fun r => r.addAll? events

/-! ## Evaluation -/

/-- A line that only a debugging user gets. -/
def Evaluation.note (r : Evaluation) (line : String) : List String :=
  if r.debug then [line] else []

/-- A failed evaluation, after the lines that were printed before. -/
def failed (log : List String) (message : String) : Printed :=
  ⟨1, [], log ++ ["Error: " ++ Text.quoted message]⟩

/-- An evaluation that an argument put an end to. The exit code of an abort is
that of a development or test build, which unwinds before it ends. A release
build does not unwind: there a signal ends the program, which gives no code. -/
def refused (log : List String) (error : ArgumentError) : Printed :=
  if error.isAbort then ⟨101, [], log ++ [error.message]⟩ else failed log error.message

/-- The memory with all segments copied in, in order. -/
def applySegments : Memory → List String → Except ArgumentError Memory
  | m, [] => .ok m
  | m, segment :: segments =>
    match applySegment m segment with
    | .error error => .error error
    | .ok after => applySegments after segments

/-- Executes the instruction and shows the result. -/
def Evaluation.finish (r : Evaluation) (log : List String) (instruction : Instruction)
    (memory : Option Memory) (args : List Value) : Printed :=
  let log := log ++ r.note
    ("Executing " ++ instruction.describe ++ " with " ++ toString args.length ++ " operands")
  let (outcome, after) := instruction.execute memory args
  match outcome with
  | .error fault =>
    failed log ("Execution failed: " ++ fault.message ++ " (" ++ fault.describe ++ ")")
  | .ok pushed =>
    let shown := match pushed with
      | some v => (["Result: " ++ v.format], [])
      | none => ([], r.note "Instruction completed successfully (no result)")
    let size := match after with
      | some m => r.note ("Memory size: " ++ toString m.current ++ " pages (" ++
          toString m.bytes.size ++ " bytes)")
      | none => []
    ⟨0, shown.1, log ++ shown.2 ++ size⟩

/-- Reads the operands and goes on if their number is right. -/
def Evaluation.withMemory (r : Evaluation) (op : String) (log : List String)
    (instruction : Instruction) (memory : Option Memory) : Printed :=
  match r.operands.mapM parseOperand with
  | .error error => refused log error
  | .ok args =>
    if args.length ≠ instruction.arity then
      failed log ("'" ++ op ++ "' expects " ++ toString instruction.arity ++
        " operands, but " ++ toString args.length ++ " provided")
    else r.finish log instruction memory args

/-- **Evaluates a request** whose mnemonic is `op`. -/
def Evaluation.run (r : Evaluation) (op : String) : Printed :=
  match Instruction.parse op with
  | .error fault =>
    failed [] ("Failed to parse instruction '" ++ op ++ "': " ++ fault.message)
  | .ok instruction =>
    let instruction := instruction.withOffset (r.offset.getD 0)
    match r.memory with
    | none =>
      if r.segments.isEmpty then r.withMemory op [] instruction none
      else failed [] "--init requires --memory"
    | some limits =>
      match parseLimits limits with
      | .error error => refused [] error
      | .ok (minimum, maximum) =>
        let log := r.note ("Creating memory: min=" ++ toString minimum.toNat ++ " max=" ++
          toString maximum.toNat ++ " pages")
        match Memory.create minimum maximum with
        | .error fault => failed log ("Failed to create memory: " ++ fault.message)
        | .ok m =>
          match applySegments m r.segments with
          | .error error => refused log error
          | .ok m => r.withMemory op log instruction (some m)

/-- **The program.** -/
def evaluate (args : List String) : Printed :=
  let (events, ending) := evaluateGrammar.scan 0 none args
  match Evaluation.addAll? ⟨none, [], none, [], none, false⟩ events, ending with
  | none, _ => .misuse
  | some _, .misuse => .misuse
  | some _, .help => .help "opcore-eval [OPTIONS] <OP> [ARGS]..."
  | some r, .complete =>
    match r.op with
    | none => .misuse
    | some op => r.run op

end WasmExec.CommandLine
