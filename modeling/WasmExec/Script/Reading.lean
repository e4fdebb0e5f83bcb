/-
Scripts as JSON documents.

Each record of a script, be it the script, a command or a literal, is an object
with its fields or an array of them. A known field has to be there once and be
of its kind; fields of other names are passed over. Two fields may be left out
of an object: the name of the script, which is then empty, and the offset of an
instruction, which is then zero.

A command has to be kept whole before its kind is known, since the member that
tells the kind may come last. So all that a command holds, fields that are
passed over included, has to be a document that can be kept.
-/
import WasmExec.Json.Document
import WasmExec.Script

set_option autoImplicit false

namespace WasmExec

/-! ## Fields -/

/-- A line number, a page count or an offset. -/
def Json.uint32? (j : Json) : Option UInt32 := (j.natUpTo? 4294967295).map UInt32.ofNat

def Json.byte? (j : Json) : Option UInt8 := (j.natUpTo? 255).map UInt8.ofNat

/-- An offset, which is zero when it is left out. -/
def offset? : Option Json → Option UInt32
  | none => some 0
  | some j => j.uint32?

/-! ## Records -/

def Literal.ofJson? (j : Json) : Option Literal :=
  match j.fields? ["type", "value"] with
  | some [some type, some text] => do
    let type ← type.string?
    let text ← text.string?
    return ⟨type, text⟩
  | _ => none

def literals? (j : Json) : Option (List Literal) := j.list? Literal.ofJson?

/-- The instruction part that three kinds of command share. -/
def Invocation.ofFields? (op : Json) (offset : Option Json) (args : Json) : Option Invocation := do
  let op ← op.string?
  let offset ← offset? offset
  let args ← literals? args
  return ⟨op, offset, args⟩

/-- The kind of a command and the record of its other fields. An array has the
kind in front; an object has it in the member `type`, which no other field is
named after. -/
def Command.split? : Json → Option (String × Json)
  | .object members =>
    match Json.valuesOf "type" members with
    | [tag] => tag.string?.map fun kind => (kind, .object members)
    | _ => none
  | .array (tag :: fields) => tag.string?.map fun kind => (kind, .array fields)
  | _ => none

def memoryCommand? (j : Json) : Option Command :=
  match j.fields? ["line", "min", "max"] with
  | some [some line, some minimum, some maximum] => do
    let line ← line.uint32?
    let minimum ← minimum.uint32?
    let maximum ← maximum.uint32?
    return .memory line minimum maximum
  | _ => none

def initCommand? (j : Json) : Option Command :=
  match j.fields? ["line", "offset", "bytes"] with
  | some [some line, some offset, some bytes] => do
    let line ← line.uint32?
    let offset ← offset.uint32?
    let bytes ← bytes.list? Json.byte?
    return .init line offset bytes
  | _ => none

def actionCommand? (j : Json) : Option Command :=
  match j.fields? ["line", "op", "offset", "args"] with
  | some [some line, some op, offset, some args] => do
    let line ← line.uint32?
    let call ← Invocation.ofFields? op offset args
    return .action line call
  | _ => none

def returnCommand? (j : Json) : Option Command :=
  match j.fields? ["line", "op", "offset", "args", "expected"] with
  | some [some line, some op, offset, some args, some expected] => do
    let line ← line.uint32?
    let call ← Invocation.ofFields? op offset args
    let expected ← literals? expected
    return .assertReturn line call expected
  | _ => none

def trapCommand? (j : Json) : Option Command :=
  match j.fields? ["line", "op", "offset", "args", "text"] with
  | some [some line, some op, offset, some args, some text] => do
    let line ← line.uint32?
    let call ← Invocation.ofFields? op offset args
    let text ← text.string?
    return .assertTrap line call text
  | _ => none

/-- A command, read by its kind. -/
def Command.ofJson? (j : Json) : Option Command :=
  match split? j with
  | some (kind, fields) =>
    if kind = "memory" then memoryCommand? fields
    else if kind = "init" then initCommand? fields
    else if kind = "action" then actionCommand? fields
    else if kind = "assert_return" then returnCommand? fields
    else if kind = "assert_trap" then trapCommand? fields
    else none
  | none => none

/-! ## Scripts -/

/-- The levels of brackets that a list of commands may have, itself
included. -/
def commandRoom : Nat := 126

/-- The commands, if the document that holds them can be kept. -/
def commands? (j : Json) : Option (List Command) :=
  if j.fits commandRoom then j.list? Command.ofJson? else none

/-- Whether all keys of an object have content. An array has none. -/
def Json.keysReadable : Json → Bool
  | .object members => members.all fun member => member.1.isSome
  | _ => true

/-- The script that a document describes. Fields that are passed over at this
level need not be kept, so nothing is asked of their values. -/
def Script.ofJson? (j : Json) : Option Script :=
  if j.keysReadable then
    match j.fields? ["source_filename", "commands"] with
    | some [source, some commands] => do
      let source ← match source with
        | none => some ""
        | some s => s.string?
      let commands ← commands? commands
      return ⟨source, commands⟩
    | _ => none
  else none

/-- **The script that a text describes.** -/
def Script.parse? (text : String) : Option Script := (Json.parse? text).bind ofJson?

end WasmExec
