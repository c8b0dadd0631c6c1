import Script.CallStack
import Script.CommandLine.Word
import Script.Number.Reading
import Script.Report

namespace Script.CommandLine

/-- How much of its own work the program is asked to log. The choice is checked and has no other
effect. -/
inductive LogLevel where
  | error | warn | info | debug | trace
  deriving DecidableEq, Repr

def LogLevel.ofName? : String → Option LogLevel
  | "error" => some .error
  | "warn" => some .warn
  | "info" => some .info
  | "debug" => some .debug
  | "trace" => some .trace
  | _ => none

def colourMode? : String → Option ColourMode
  | "auto" => some .auto
  | "always" => some .always
  | "never" => some .never
  | _ => none

/-- A limit is a count of at least one. -/
def limit? (text : String) : Option Nat :=
  (readCount? text.toList).bind fun n => if n = 0 then none else some n

/-- Directories between colons, none of them empty. -/
def directories? (text : String) : Option (List String) :=
  let paths := text.splitOn ":"
  if paths.contains "" then none else some paths

inductive Command where
  | run (script : String)
  | repl
  | eval (source : String)
  deriving DecidableEq, Repr

inductive Refusal where
  | usage
  | help
  | version
  deriving DecidableEq, Repr

/-- The options given in one place: before the command, or behind it, or by the environment. -/
structure Given where
  limit : Option Nat
  includes : Option (List String)
  colours : Option ColourMode
  logLevel : Option LogLevel
  deriving DecidableEq, Repr

namespace Given

def nothing : Given := ⟨none, none, none, none⟩

/-- Adds an option. Only include paths may be given more than once. -/
def add (g : Given) (switch : Switch) (value : String) : Except Refusal Given :=
  match switch with
  | .recursionLimit =>
    match g.limit, limit? value with
    | none, some n => .ok { g with limit := some n }
    | _, _ => .error .usage
  | .includePath =>
    match directories? value with
    | some paths => .ok { g with includes := some (g.includes.getD [] ++ paths) }
    | none => .error .usage
  | .colour =>
    match g.colours, colourMode? value with
    | none, some mode => .ok { g with colours := some mode }
    | _, _ => .error .usage
  | .logLevel =>
    match g.logLevel, LogLevel.ofName? value with
    | none, some level => .ok { g with logLevel := some level }
    | _, _ => .error .usage

/-- The options of the first place win. -/
def orElse (g h : Given) : Given :=
  ⟨g.limit.or h.limit, g.includes.or h.includes, g.colours.or h.colours, g.logLevel.or h.logLevel⟩

end Given

/-- The options before a command or behind it while they are being read. -/
structure Reader where
  given : Given
  /-- An option that has been named last, with its value if that has come as a word of its own. -/
  pending : Option (Switch × Option String)
  positional : List String

namespace Reader

def start : Reader := ⟨.nothing, none, []⟩

/-- Takes the pending option in. One that still lacks its value is an error. -/
def settle (r : Reader) : Except Refusal Reader :=
  match r.pending with
  | none => .ok r
  | some (switch, some value) => do
    let given ← r.given.add switch value
    .ok { r with given := given, pending := none }
  | some (_, none) => .error .usage

def awaitsValue (r : Reader) : Bool :=
  match r.pending with
  | some (_, none) => true
  | _ => false

/-- Reads an option. `versioned` says whether the version can be asked for here. -/
def readOption (r : Reader) (versioned : Bool) (word : Word) : Except Refusal Reader :=
  match word with
  | .long name value =>
    match Switch.ofLong? name with
    | some switch => do
      let r ← r.settle
      match value with
      | some value =>
        let given ← r.given.add switch value
        .ok { r with given := given }
      | none => .ok { r with pending := some (switch, none) }
    | none => do
      if value.isSome then .error .usage
      else if name = "help" then
        let _ ← r.settle
        .error .help
      else if name = "version" && versioned then
        let _ ← r.settle
        .error .version
      else .error .usage
  | .short ('I' :: rest) => do
    let r ← r.settle
    match rest with
    | [] => .ok { r with pending := some (.includePath, none) }
    | '=' :: value => attached r value
    | value => attached r value
  | .short ('h' :: _) => do
    let _ ← r.settle
    .error .help
  | .short ('V' :: _) => do
    if versioned then
      let _ ← r.settle
      .error .version
    else .error .usage
  | _ => .error .usage
where
  attached (r : Reader) (value : List Char) : Except Refusal Reader := do
    let given ← r.given.add .includePath (String.ofList value)
    .ok { r with given := given }

def supply (r : Reader) (value : String) : Reader :=
  { r with pending := r.pending.map fun (switch, _) => (switch, some value) }

end Reader

inductive Verb where
  | run
  | repl
  | eval
  deriving DecidableEq, Repr

namespace Verb

def ofName? : String → Option Verb
  | "run" => some .run
  | "repl" => some .repl
  | "eval" => some .eval
  | _ => none

def count : Verb → Nat
  | run | eval => 1
  | repl => 0

/-- A script has to be named. -/
def admits (verb : Verb) (word : String) : Bool := verb != run || word != ""

def command? : Verb → List String → Option Command
  | run, [script] => some (.run script)
  | eval, [source] => some (.eval source)
  | repl, [] => some .repl
  | _, _ => none

end Verb

def readCommand (verb : Verb) (r : Reader) : List String → Except Refusal Reader
  | [] => r.settle
  | argument :: rest => do
    match Word.ofArgument argument with
    | .plain text =>
      if r.awaitsValue then readCommand verb (r.supply text) rest
      else
        let r ← r.settle
        if r.positional.length < verb.count && verb.admits text then
          readCommand verb { r with positional := r.positional ++ [text] } rest
        else .error .usage
    | .separator =>
      let r ← r.settle
      if rest.all verb.admits then .ok { r with positional := r.positional ++ rest }
      else .error .usage
    | word =>
      let r ← r.readOption false word
      readCommand verb r rest

/-- Asking for help names a command or nothing. -/
def help : List String → Refusal
  | [] => .help
  | [name] => if (Verb.ofName? name).isSome || name = "help" then .help else .usage
  | _ => .usage

/-- What the arguments ask for: the options before the command, those behind it, and the command.
Without a command there are no options behind it. -/
structure Request where
  before : Given
  behind : Option Given
  command : Command

/-- Reads the arguments up to a command and those behind it. The options of the first place are
settled last. -/
def readArguments (r : Reader) : List String → Except Refusal Request
  | [] => do
    let r ← r.settle
    .ok ⟨r.given, none, .repl⟩
  | argument :: rest => do
    match Word.ofArgument argument with
    | .plain text =>
      if r.awaitsValue then readArguments (r.supply text) rest
      else if text = "help" then .error (help rest)
      else
        match Verb.ofName? text with
        | none => .error .usage
        | some verb =>
          let behind ← readCommand verb .start rest
          match verb.command? behind.positional with
          | none => .error .usage
          | some command =>
            let r ← r.settle
            .ok ⟨r.given, some behind.given, command⟩
    | .separator =>
      let r ← r.settle
      if rest.isEmpty then .ok ⟨r.given, none, .repl⟩ else .error .usage
    | word =>
      let r ← r.readOption true word
      readArguments r rest

/-- The options that the surroundings supply where a place lacks them. A value that makes no sense
is an error only if the place lacks its option. -/
def Given.fromSurroundings (surroundings : String → Option String) (g : Given) :
    Except Refusal Given := do
  let limit ← supply g.limit ((surroundings "LAMINA_RECURSION_LIMIT").map limit?)
  let includes ← supply g.includes ((surroundings "LAMINA_PATH").map directories?)
  .ok { nothing with limit := limit, includes := includes }
where
  supply {α : Type} (given : Option α) (found : Option (Option α)) :
      Except Refusal (Option α) :=
    match given, found with
    | none, some (some value) => .ok (some value)
    | none, some none => .error .usage
    | _, _ => .ok none

structure Invocation where
  command : Command
  recursionLimit : Nat
  includePaths : List String
  colours : ColourMode
  logLevel : Option LogLevel
  deriving DecidableEq, Repr

/-- An option behind the command wins over one before it, and both over the surroundings. -/
def invocation (surroundings : String → Option String) (arguments : List String) :
    Except Refusal Invocation := do
  let request ← readArguments .start arguments
  let found ← request.before.fromSurroundings surroundings
  let foundBehind ← match request.behind with
    | some behind => behind.fromSurroundings surroundings
    | none => .ok .nothing
  let given := ((request.behind.getD .nothing).orElse request.before).orElse
    (foundBehind.orElse found)
  .ok {
    command := request.command
    recursionLimit := given.limit.getD CallStack.defaultLimit
    includePaths := given.includes.getD []
    colours := given.colours.getD .default
    logLevel := given.logLevel }

end Script.CommandLine
