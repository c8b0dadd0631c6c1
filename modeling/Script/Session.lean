import Script.Interpreter.Creation
import Script.Report
import Script.Session.TypedLine
import Script.Text.Blank

namespace Script

/-- What a line typed to an interactive session asks for. -/
inductive Session.Request where
  | quit
  | nothing
  | listVariables
  | listFunctions
  | evaluate (source : String)
  deriving DecidableEq, Repr

/-- Blanks around a line do not count. -/
def Session.Request.ofLine (line : String) : Session.Request :=
  match trimBlank line with
  | ":quit" | ":exit" => quit
  | "" => nothing
  | ":vars" => listVariables
  | ":funcs" => listFunctions
  | source => evaluate source

namespace Session

/-- Evaluates one line and echoes its value, unless that is `null`. An error is reported, and the
session goes on. -/
def evaluateLine (fuel : Nat) (colours : Bool) (line : String) : Run Unit := do
  match ← Run.evaluateSource fuel line with
  | .ok value =>
    if value.isNull then pure ()
    else Run.modify fun m => m.write (value.echo ++ "\n")
  | .error error => Run.modify fun m => m.writeError (Report.failure colours error)

/-- Writes the names of the user functions, one on a line. -/
def listFunctions : Run Unit := Run.modify fun m =>
  m.write (String.join (m.functions.user.keys.map (· ++ "\n")))

def listVariables : Run Unit := Run.modify fun m => m.write m.environment.text

/-- How a session ends: with a request or the end of the input, at a line that is no text, or at one
whose backspaces cut a character. -/
inductive End where
  | finished
  | unreadable (reason : String)
  | broken
  deriving DecidableEq, Repr

/-- Reads and obeys lines until the session ends, so many lines at most. The prompt is written
before each. -/
def interact (fuel : Nat) (colours : Bool) (prompt : String) : Nat → Run End
  | 0 => Run.halt .outOfFuel
  | lines + 1 => do
    Run.modify fun m => m.write prompt
    match ← Run.readLine with
    | .endOfInput | .unread => pure .finished
    | .invalid => pure (.unreadable "stream did not contain valid UTF-8")
    | .line line =>
      match (applyBackspaces line).map Request.ofLine with
      | none => pure .broken
      | some .quit => pure .finished
      | some .nothing => interact fuel colours prompt lines
      | some .listVariables =>
        listVariables
        interact fuel colours prompt lines
      | some .listFunctions =>
        listFunctions
        interact fuel colours prompt lines
      | some (.evaluate source) =>
        evaluateLine fuel colours source
        interact fuel colours prompt lines

end Session

end Script
