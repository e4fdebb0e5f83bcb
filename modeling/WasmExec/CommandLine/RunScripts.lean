/-
The program that runs script files.

Each file is run by itself, from a state without a memory. The program goes on
after a file that cannot be read or is no script, and reports all of those at
the end, after the results of the others.
-/
import WasmExec.CommandLine.Options
import WasmExec.Script.Reading

set_option autoImplicit false

namespace WasmExec.CommandLine

/-! ## Requests -/

inductive ScriptOption where
  | verbose
  | quiet
  | help
deriving DecidableEq

/-- Options may stand anywhere between the paths. -/
def scriptGrammar : Grammar ScriptOption where
  options := [
    ⟨.verbose, 'v', "verbose", .flag⟩,
    ⟨.quiet, 'q', "quiet", .flag⟩,
    ⟨.help, 'h', "help", .help⟩]
  lenientAfter := fun _ => false
  rawAfter := fun _ => false

/-- **A request to run files.** -/
structure ScriptRequest where
  paths : List String
  verbose : Bool
  quiet : Bool
deriving DecidableEq

/-- Adds one event to a request. A path is not empty, and a flag is given
once. -/
def ScriptRequest.add? (r : ScriptRequest) : Event ScriptOption → Option ScriptRequest
  | .positional text => if text.isEmpty then none else some { r with paths := r.paths ++ [text] }
  | .flag .verbose => if r.verbose then none else some { r with verbose := true }
  | .flag .quiet => if r.quiet then none else some { r with quiet := true }
  | _ => none

/-- Adds a row of events, if all can be added. -/
def ScriptRequest.addAll? (r : ScriptRequest) : List (Event ScriptOption) → Option ScriptRequest
  | [] => some r
  | event :: events => (r.add? event).bind fun r => r.addAll? events

/-- What an argument row asks for. -/
inductive ScriptCommand where
  | run (request : ScriptRequest)
  | answer (printed : Printed)

/-- Reads the argument row. -/
def parseScriptArgs (args : List String) : ScriptCommand :=
  let (events, ending) := scriptGrammar.scan 0 none args
  match ScriptRequest.addAll? ⟨[], false, false⟩ events, ending with
  | none, _ => .answer .misuse
  | some _, .misuse => .answer .misuse
  | some _, .help => .answer (.help "opcore-script [OPTIONS] [SCRIPT_FILES]...")
  | some r, .complete =>
    if r.paths.isEmpty then
      .answer ⟨1, [], ["Error: No script files specified",
        "Usage: opcore-script <SCRIPT_FILES>..."]⟩
    else .run r

/-! ## Runs -/

/-- **Why a file cannot be read.** -/
inductive ReadFailure where
  | notFound
  | permissionDenied
  /-- A file stands where the path needs a directory. -/
  | notADirectory
  | isADirectory
  /-- A name on the path, or the path, is longer than the system allows. -/
  | nameTooLong
  /-- The bytes are not text. -/
  | notText
  /-- Another reason, in the words of the system. -/
  | other (reason : String)
deriving DecidableEq

/-- The reason in words, with the number of the system error if it is one. -/
def ReadFailure.message : ReadFailure → String
  | .notFound => "No such file or directory (os error 2)"
  | .permissionDenied => "Permission denied (os error 13)"
  | .notADirectory => "Not a directory (os error 20)"
  | .isADirectory => "Is a directory (os error 21)"
  | .nameTooLong => "File name too long (os error 36)"
  | .notText => "stream did not contain valid UTF-8"
  | .other reason => reason

/-- A file: its path, and its text or the reason why it has none. -/
structure ScriptFile where
  path : String
  content : Except ReadFailure String

/-- What came of a file: the report, or a line that says why there is none. A
script without a name of its own is reported under the path. -/
def ScriptFile.run (file : ScriptFile) : Except String Report :=
  match file.content with
  | .error failure => .error ("Failed to read " ++ file.path ++ ": " ++ failure.message)
  | .ok text =>
    match Script.parse? text with
    | none => .error ("Failed to parse " ++ file.path)
    | some script =>
      .ok (Script.run
        { script with source := if script.source.isEmpty then file.path else script.source })

/-- The count of passes and failures, as it is shown for a file and in all. -/
def tally (title : String) (passes failures : Nat) : String :=
  title ++ ": " ++ toString passes ++ " passed, " ++ toString failures ++ " failed"

/-- A count summed over reports. -/
def countAll (count : Report → Nat) : List (ScriptFile × Report) → Nat
  | [] => 0
  | (_, report) :: rest => count report + countAll count rest

/-- The reports among results. -/
def reports (results : List (ScriptFile × Except String Report)) :
    List (ScriptFile × Report) :=
  results.filterMap fun (file, result) =>
    match result with
    | .ok report => some (file, report)
    | .error _ => none

/-- The complaints about files among results. -/
def fileErrors (results : List (ScriptFile × Except String Report)) : List String :=
  results.filterMap fun (_, result) =>
    match result with
    | .ok _ => none
    | .error line => some line

/-- **Runs files** and shows the results. -/
def runScripts (r : ScriptRequest) (files : List ScriptFile) : Printed :=
  let results := files.map fun file => (file, file.run)
  let reports := reports results
  let errors := fileErrors results
  let passes := countAll Report.passes reports
  let failures := countAll (fun report => report.failures.length) reports
  let lines := reports.map fun entry =>
    tally entry.1.path entry.2.passes entry.2.failures.length
  let details := reports.flatMap fun entry => entry.2.failures.map fun line => "  " ++ line
  let total := if 1 < files.length then ["", tally "Total" passes failures] else []
  { exit := if errors.isEmpty && failures = 0 then 0 else 1
    out := if r.quiet then [] else lines ++ total
    err := (if r.verbose then details else []) ++
      (if errors.isEmpty then [] else ["", "Script errors:"] ++ errors) }

end WasmExec.CommandLine
