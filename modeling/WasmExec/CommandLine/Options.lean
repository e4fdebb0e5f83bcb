/-
The grammar of options and positional arguments.

An argument row is read from left to right into a row of events: an option that
was set, an option with its value, or a positional argument. Options are
written `-x` or `--name`; short ones can be joined in one argument, and a value
follows in the next argument, behind an equals sign, or, for a short option,
right behind its letter. `--` makes everything after it positional.

What else a leading dash may mean depends on how many positional arguments came
before, and is the program's choice. At a *lenient* place an argument that is no
known option counts as positional, so that a negative number needs no escape; at
a *raw* place every argument counts as positional.

Reading stops at the first mistake and at a request for help. The events before
it are kept, because a mistake in one of them comes first.
-/

set_option autoImplicit false

namespace WasmExec.CommandLine

/-! ## Grammars -/

/-- What an option does when it is met. -/
inductive OptionKind where
  | flag
  | value
  | help
deriving DecidableEq

/-- An option with its two spellings. -/
structure OptionSpec (α : Type) where
  option : α
  short : Char
  long : String
  kind : OptionKind

/-- **A grammar**: the options, and how arguments that start with a dash are
taken after a number of positional ones. -/
structure Grammar (α : Type) where
  options : List (OptionSpec α)
  lenientAfter : Nat → Bool
  rawAfter : Nat → Bool

inductive Event (α : Type) where
  | flag (option : α)
  | value (option : α) (text : String)
  | positional (text : String)

/-- How the reading of an argument row ended. -/
inductive Ending where
  | complete
  | help
  | misuse
deriving DecidableEq

/-! ## One argument -/

/-- The shape of an argument. -/
inductive Shape where
  | escape
  /-- `--name`, and what follows an equals sign. -/
  | long (name : List Char) (attached : Option (List Char))
  /-- `-` and at least one letter. -/
  | short (letters : List Char)
  | word

/-- Cuts a long option at its first equals sign. -/
def splitEquals (cs : List Char) : Shape :=
  let name := cs.takeWhile (· ≠ '=')
  match cs.dropWhile (· ≠ '=') with
  | [] => .long name none
  | _ :: value => .long name (some value)

/-- A lone dash is a word. -/
def shape (arg : String) : Shape :=
  match arg.toList with
  | ['-', '-'] => .escape
  | '-' :: '-' :: cs => splitEquals cs
  | '-' :: c :: cs => .short (c :: cs)
  | _ => .word

namespace Grammar

variable {α : Type} (g : Grammar α)

def findLong? (name : List Char) : Option (OptionSpec α) :=
  g.options.find? fun spec => spec.long.toList = name

def findShort? (letter : Char) : Option (OptionSpec α) :=
  g.options.find? fun spec => spec.short = letter

/-- Whether an argument of a shape can only be positional where that is
allowed: a long option that is unknown, or letters one of which is. -/
def isForeign : Shape → Bool
  | .long name _ => (g.findLong? name).isNone
  | .short letters => letters.any fun letter => (g.findShort? letter).isNone
  | _ => false

/-! ## Joined letters -/

/-- What the letters of one argument amount to. -/
inductive Letters (α : Type) where
  | events (events : List (Event α))
  /-- The last letter awaits a value. -/
  | awaits (events : List (Event α)) (option : α)
  | ended (events : List (Event α)) (ending : Ending)

/-- Reads joined letters, with the events of those before, the last first. -/
def letters (done : List (Event α)) : List Char → Letters α
  | [] => .events done.reverse
  | letter :: rest =>
    match g.findShort? letter with
    | none => .ended done.reverse .misuse
    | some spec =>
      match spec.kind with
      | .flag => letters (.flag spec.option :: done) rest
      | .help => .ended done.reverse .help
      | .value =>
        match rest with
        | [] => .awaits done.reverse spec.option
        | '=' :: value => .events (.value spec.option (String.ofList value) :: done).reverse
        | value => .events (.value spec.option (String.ofList value) :: done).reverse

/-! ## The argument row -/

/-- Whether an argument can be the value of the option before it. -/
def canBeValue (count : Nat) (arg : String) : Bool :=
  match shape arg with
  | .word => true
  | .escape => false
  | s => g.lenientAfter count && g.isForeign s

/-- Puts events in front of what the rest of the row gives. -/
def prepend (events : List (Event α)) (rest : List (Event α) × Ending) :
    List (Event α) × Ending :=
  (events ++ rest.1, rest.2)

/-- The events of an argument row after `count` positional arguments, where
`awaiting` is the option whose value comes next, if there is one. -/
def scan (count : Nat) (awaiting : Option α) : List String → List (Event α) × Ending
  | [] => ([], if awaiting.isSome then .misuse else .complete)
  | arg :: args =>
    match awaiting with
    | some option =>
      if g.canBeValue count arg then
        prepend [.value option arg] (scan count none args)
      else ([], .misuse)
    | none =>
      let positional := prepend [.positional arg] (scan (count + 1) none args)
      if g.rawAfter count then positional
      else
        match shape arg with
        | .word => positional
        | .escape => (args.map .positional, .complete)
        | .long name attached =>
          match g.findLong? name with
          | none => if g.lenientAfter count then positional else ([], .misuse)
          | some spec =>
            match spec.kind, attached with
            | .value, some value =>
              prepend [.value spec.option (String.ofList value)] (scan count none args)
            | .value, none => scan count (some spec.option) args
            | .flag, none => prepend [.flag spec.option] (scan count none args)
            | .help, none => ([], .help)
            | _, some _ => ([], .misuse)
        | .short cs =>
          if g.lenientAfter count && g.isForeign (.short cs) then positional
          else
            match g.letters [] cs with
            | .events events => prepend events (scan count none args)
            | .awaits events option => prepend events (scan count (some option) args)
            | .ended events ending => (events, ending)

end Grammar

/-! ## What a program prints -/

/-- **The effect of a program**: an exit code and the lines on both
channels. -/
structure Printed where
  exit : UInt8
  out : List String
  err : List String
deriving DecidableEq

/-- The answer to an argument row that follows no rule. -/
def Printed.misuse : Printed := ⟨2, [], []⟩

/-- The answer to a request for help. -/
def Printed.help (usage : String) : Printed := ⟨0, ["Usage: " ++ usage], []⟩

end WasmExec.CommandLine
