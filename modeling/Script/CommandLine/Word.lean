namespace Script.CommandLine

/-- The options of the command line that take a value. -/
inductive Switch where
  | recursionLimit
  | includePath
  | colour
  | logLevel
  deriving DecidableEq, Repr

def Switch.ofLong? : String → Option Switch
  | "recursion-limit" => some .recursionLimit
  | "include-path" => some .includePath
  | "color" => some .colour
  | "log-level" => some .logLevel
  | _ => none

/-- What the spelling of an argument makes of it. A single hyphen is a plain word. -/
inductive Word where
  | plain (text : String)
  /-- Two hyphens: all that follows is plain. -/
  | separator
  /-- A name behind two hyphens, and what follows an equals sign. -/
  | long (name : String) (value : Option String)
  | short (letters : List Char)
  deriving DecidableEq, Repr

def splitEquals (cs : List Char) : String × Option String :=
  let (name, rest) := cs.span (· != '=')
  match rest with
  | [] => (String.ofList name, none)
  | _ :: value => (String.ofList name, some (String.ofList value))

def Word.ofArgument (argument : String) : Word :=
  match argument.toList with
  | ['-', '-'] => separator
  | '-' :: '-' :: rest => let (name, value) := splitEquals rest; long name value
  | '-' :: letter :: rest => short (letter :: rest)
  | _ => plain argument

end Script.CommandLine
