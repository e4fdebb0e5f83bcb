/-
The command line: `eval` evaluates one instruction, `script` runs files.

Nothing is decided here. The arguments go to one of the two programs, whose
answer is a value, and this file reads the files it asks for and prints it.
-/
import WasmExec.CommandLine.Evaluate
import WasmExec.CommandLine.RunScripts

set_option autoImplicit false

namespace WasmExec.CommandLine

/-- Prints the lines of both channels and gives the exit code. -/
def Printed.print (p : Printed) : IO UInt32 := do
  for line in p.err do IO.eprintln line
  for line in p.out do IO.println line
  return p.exit.toUInt32

/-- Sorts a system error. Error numbers may come negated, as 32-bit words. -/
def ReadFailure.ofSystem : IO.Error → ReadFailure
  | .noFileOrDirectory _ _ _ => .notFound
  | .permissionDenied _ _ _ => .permissionDenied
  | .inappropriateType _ code _ => if code = 20 || code = -20 then .notADirectory else .isADirectory
  | e@(.invalidArgument _ code _) =>
    if code = 36 || code = -36 then .nameTooLong else .other (toString e)
  | e => .other (toString e)

/-- Reads a file. Its bytes have to be text. -/
def ScriptFile.read (path : String) : IO ScriptFile := do
  try
    let bytes ← IO.FS.readBinFile path
    match String.fromUTF8? bytes with
    | some text => return ⟨path, .ok text⟩
    | none => return ⟨path, .error .notText⟩
  catch e =>
    return ⟨path, .error (.ofSystem e)⟩

end WasmExec.CommandLine

open WasmExec.CommandLine

def main (args : List String) : IO UInt32 := do
  match args with
  | "eval" :: rest => (evaluate rest).print
  | "script" :: rest =>
    match parseScriptArgs rest with
    | .answer printed => printed.print
    | .run request => (runScripts request (← request.paths.mapM ScriptFile.read)).print
  | _ => Printed.misuse.print
