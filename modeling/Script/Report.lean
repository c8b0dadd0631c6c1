import Script.Error

namespace Script

/-- The escape sequences that colour terminal output. -/
inductive Colour where
  | error
  | warning
  | frame
  | dim
  deriving DecidableEq, Repr

def Colour.start : Colour → String
  | error => "\x1b[1;31m"
  | warning => "\x1b[1;33m"
  | frame => "\x1b[36m"
  | dim => "\x1b[2m"

def Colour.reset : String := "\x1b[0m"

inductive ColourMode where
  | auto
  | always
  | never
  deriving DecidableEq, Repr

namespace ColourMode

def default : ColourMode := auto

/-- An explicit choice holds whatever the output is; otherwise a probe of it decides. -/
def useColours (mode : ColourMode) (probe : Unit → Bool) : Bool :=
  match mode with
  | auto => probe ()
  | always => true
  | never => false

end ColourMode

namespace Report

def paint (colours : Bool) (colour : Colour) (text : String) : String :=
  if colours then colour.start ++ text ++ Colour.reset else text

def error (colours : Bool) (message : String) : String :=
  paint colours .error "error" ++ ": " ++ message ++ "\n"

def warning (colours : Bool) (message : String) : String :=
  paint colours .warning "warning" ++ ": " ++ message ++ "\n"

def frame (colours : Bool) (f : Frame) : String :=
  "  at " ++ paint colours .frame f.function ++ " (" ++ f.file ++ ":" ++ toString f.line ++ ")\n"

/-- An error followed by the calls that were active, outermost first. -/
def trace (colours : Bool) (e : RuntimeError) : String :=
  error colours e.text ++
    (if e.trace.isEmpty then ""
     else paint colours .dim "stack trace (most recent call last):" ++ "\n" ++
       String.join (e.trace.map (frame colours)))

def failure (colours : Bool) : ScriptError → String
  | .diagnostic d => error colours d.text
  | .runtime e => trace colours e

end Report

end Script
