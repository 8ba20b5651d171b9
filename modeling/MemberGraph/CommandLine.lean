import MemberGraph.Report.Query

/-!
The command line: `INPUT COMMAND`, with flags anywhere around the two. Arguments are read from the
left, and the first one that does not fit is a usage error.
-/

set_option autoImplicit false

namespace MemberGraph.CommandLine

structure Flags where
  json : Bool := false
  noStubCalls : Bool := false
  noBackwards : Bool := false
  verbose : Bool := false
deriving DecidableEq, Repr

namespace Flags

/-- Sets the flag with a long name. A flag is set once. -/
def setLong? (flags : Flags) : String → Option Flags
  | "--json" => if flags.json then none else some { flags with json := true }
  | "--no-stub-calls" => if flags.noStubCalls then none else some { flags with noStubCalls := true }
  | "--no-backwards" => if flags.noBackwards then none else some { flags with noBackwards := true }
  | "--verbose" => if flags.verbose then none else some { flags with verbose := true }
  | _ => none

def union (left right : Flags) : Flags where
  json := left.json || right.json
  noStubCalls := left.noStubCalls || right.noStubCalls
  noBackwards := left.noBackwards || right.noBackwards
  verbose := left.verbose || right.verbose

def options (flags : Flags) : Options where
  stubExternalCalls := !flags.noStubCalls
  linkBackwards := !flags.noBackwards

end Flags

inductive Argument where
  /-- A pair of dashes, after which all arguments are positional. -/
  | separator
  | long (name : String)
  /-- The letters after a single dash. -/
  | short (letters : List Char)
  | positional (value : String)
deriving DecidableEq, Repr

/-- Tells flags from positional arguments; a single dash is positional. -/
def Argument.ofString (argument : String) : Argument :=
  match argument.toList with
  | ['-', '-'] => .separator
  | '-' :: '-' :: _ => .long argument
  | ['-'] => .positional argument
  | '-' :: letters => .short letters
  | _ => .positional argument

inductive Invocation where
  | version
  | run (input : String) (query : Query) (flags : Flags)
deriving DecidableEq, Repr

/-! ## After the command -/

inductive CommandName where
  | summary | types | member | cycles
deriving DecidableEq, Repr

def CommandName.ofString? : String → Option CommandName
  | "summary" => some .summary
  | "types" => some .types
  | "member" => some .member
  | "cycles" => some .cycles
  | _ => none

structure CommandArguments where
  flags : Flags := {}
  stubs : Bool := false
  name : Option String := none
deriving DecidableEq, Repr

/-- Takes a positional argument: `member` takes one, the other commands none. -/
def takeName? (command : CommandName) (read : CommandArguments) (value : String) :
    Option CommandArguments :=
  if command = .member ∧ read.name.isNone then some { read with name := some value } else none

/-- Sets the flag with a long name; that for stubs belongs to `types`. -/
def takeLong? (command : CommandName) (read : CommandArguments) (name : String) :
    Option CommandArguments :=
  if name = "--stubs" then
    if command = .types ∧ !read.stubs then some { read with stubs := true } else none
  else
    (read.flags.setLong? name).map fun flags => { read with flags }

/-- Sets the flags of short letters; only the one for verbosity has a letter. -/
def takeShort? (read : CommandArguments) : List Char → Option CommandArguments
  | [] => some read
  | 'v' :: letters =>
    match read.flags.setLong? "--verbose" with
    | some flags => takeShort? { read with flags } letters
    | none => none
  | _ :: _ => none

def readAfter? (command : CommandName) (read : CommandArguments) :
    List String → Option CommandArguments
  | [] => some read
  | argument :: rest =>
    match Argument.ofString argument with
    | .separator => rest.foldlM (takeName? command) read
    | .long name =>
      match takeLong? command read name with
      | some read => readAfter? command read rest
      | none => none
    | .short letters =>
      match takeShort? read letters with
      | some read => readAfter? command read rest
      | none => none
    | .positional value =>
      match takeName? command read value with
      | some read => readAfter? command read rest
      | none => none

def query? (command : CommandName) (read : CommandArguments) : Option Query :=
  match command with
  | .summary => some .summary
  | .types => some (.types read.stubs)
  | .member => read.name.map .member
  | .cycles => some .cycles

/-! ## Before the command -/

inductive ShortFlags where
  | set (flags : Flags)
  | version
  | invalid

def readShort (flags : Flags) : List Char → ShortFlags
  | [] => .set flags
  | 'v' :: letters =>
    match flags.setLong? "--verbose" with
    | some flags => readShort flags letters
    | none => .invalid
  | 'V' :: _ => .version
  | _ :: _ => .invalid

/-- Reads the arguments from the start. The input is the first positional argument, and may not be
empty; a positional argument that names a command is the command. -/
def readBefore? (flags : Flags) (input : Option String) : List String → Option Invocation
  | [] => none
  | argument :: rest =>
    match Argument.ofString argument with
    | .separator => none
    | .long "--version" => some .version
    | .long name =>
      match flags.setLong? name with
      | some flags => readBefore? flags input rest
      | none => none
    | .short letters =>
      match readShort flags letters with
      | .set flags => readBefore? flags input rest
      | .version => some .version
      | .invalid => none
    | .positional value =>
      match CommandName.ofString? value with
      | some command => do
        let read ← readAfter? command {} rest
        return .run (← input) (← query? command read) (flags.union read.flags)
      | none =>
        if input.isSome ∨ value.isEmpty then none else readBefore? flags (some value) rest

def parse? (arguments : List String) : Option Invocation := readBefore? {} none arguments

/-! ## Answers -/

/-- What a run leaves behind: an exit code, what it printed, the events to report and, if it failed,
the messages from the outermost cause to the innermost. -/
structure Outcome where
  exitCode : Nat
  output : String := ""
  events : List Event := []
  messages : List String := []
deriving DecidableEq, Repr

def usageError : Outcome where
  exitCode := 2

def versionOutcome : Outcome where
  exitCode := 0
  output := "archdeps 0.1.0\n"

/-- Whether an event is reported: warnings and errors always, all but traces on request. -/
def isReported (flags : Flags) (event : Event) : Bool :=
  match event.level with
  | .trace => false
  | .debug | .info => flags.verbose
  | .warn | .error => true

def answer (path : String) (content : Option String) (query : Query) (flags : Flags) : Outcome :=
  let (loaded, journal) := Project.load path content flags.options
  let events := journal.toList.filter (isReported flags)
  match loaded with
  | .error error => { exitCode := 1, events, messages := error.messages }
  | .ok project =>
    match project.display query flags.json with
    | .error error => { exitCode := 1, events, messages := [error.message] }
    | .ok output => { exitCode := 0, output, events }

def eventLine (event : Event) : String :=
  let fields := event.fields.map fun (name, value) =>
    match value with
    | .text text => " " ++ name ++ "=" ++ text
    | .count count => " " ++ name ++ "=" ++ Nat.repr count
  event.message ++ String.join fields

def Outcome.diagnostics (outcome : Outcome) : List String :=
  let failure := match outcome.messages with
    | [] => []
    | message :: causes => ("Error: " ++ message) :: causes.map ("  caused by: " ++ ·)
  let usage := if outcome.exitCode = 2 then
      ["usage: INPUT summary | types [--stubs] | member NAME | cycles",
        "flags: --json --no-stub-calls --no-backwards --verbose --version"]
    else
      []
  outcome.events.map eventLine ++ failure ++ usage

end MemberGraph.CommandLine
