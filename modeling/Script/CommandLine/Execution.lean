import Script.CommandLine.Options
import Script.Module.FilePath
import Script.Session

namespace Script.CommandLine

/-- How the program ends: with an exit code, or before it can go on. -/
inductive Ending where
  | exit (code : Nat) (console : Console)
  | halted (reason : Halt) (console : Console)

def versionLine : String := "lamina 0.1.0\n"

/-- Texts about the usage are not written; the exit code tells a mistake from a request. -/
def refuse (console : Console) : Refusal → Ending
  | .usage => .exit 2 console
  | .help => .exit 0 console
  | .version => .exit 0 (console.write versionLine)

/-- The directory of a script, the current one for a bare file name. -/
def scriptDirectory (script : String) : String :=
  match FilePath.parent script with
  | "" => "."
  | directory => directory

def failReading (console : Console) (colours : Bool) (reason : String) : Ending :=
  .exit 1 (console.writeError (Report.error colours ("I/O error: " ++ reason)))

/-- An interpreter without extensions that looks for modules in the given directories. -/
def interpreter (i : Invocation) (fileName : String) (directory : String)
    (read : String → Reading) (console : Console) : Interpreter :=
  .bare ⟨fileName, i.recursionLimit⟩ (.files (directory :: i.includePaths) read) ⟨console, []⟩

def evaluate (fuel : Nat) (colours : Bool) (source : String) (m : Interpreter) : Ending :=
  match Run.evaluateSource fuel source m with
  | .value (.ok _) m => .exit 0 m.world.console
  | .value (.error error) m => .exit 1 (m.world.console.writeError (Report.failure colours error))
  | .error error m => .exit 1 (m.world.console.writeError (Report.trace colours error))
  | .halted reason m => .halted reason m.world.console

/-- The terminals on which no line can be edited. -/
def plainTerminals : List String := ["dumb", "cons25", "emacs"]

/-- What asks for a line. Only on a plain terminal it is written to the output. -/
def prompt (surroundings : String → Option String) : String :=
  match surroundings "TERM" with
  | some terminal => if plainTerminals.contains (terminal.map Char.toLower) then ">> " else ""
  | none => ""

/-- The exit code of a session that cannot go on with a line it has read. -/
def brokenCode : Nat := 101

def perform (fuel : Nat) (i : Invocation) (colours : Bool) (prompt : String)
    (read : String → Reading) (console : Console) : Ending :=
  match i.command with
  | .run script =>
    match read script with
    | .text source =>
      evaluate fuel colours source
        (interpreter i script (scriptDirectory script) read console)
    | .notFound => failReading console colours "No such file or directory (os error 2)"
    | .failed reason => failReading console colours reason
    | .unread => .halted (.awaitsFile script) console
  | .eval source =>
    evaluate fuel colours source (interpreter i Settings.default.fileName "." read console)
  | .repl =>
    match Session.interact fuel colours prompt fuel
        (interpreter i Settings.default.fileName "." read console) with
    | .value .finished m => .exit 0 m.world.console
    | .value (.unreadable reason) m => failReading m.world.console colours reason
    | .value .broken m => .exit brokenCode m.world.console
    | .error error m => .exit 1 (m.world.console.writeError (Report.trace colours error))
    | .halted reason m => .halted reason m.world.console

/-- Whether output to a terminal is coloured, by the surroundings' settings. -/
def terminalColours (surroundings : String → Option String) (terminal : Bool) : Bool :=
  (surroundings "NO_COLOR").isNone && surroundings "TERM" != some "dumb" && terminal

/-- The whole program. `terminal` says whether errors go to a terminal. -/
def execute (fuel : Nat) (arguments : List String) (surroundings : String → Option String)
    (terminal : Bool) (read : String → Reading) (console : Console) : Ending :=
  match invocation surroundings arguments with
  | .error refusal => refuse console refusal
  | .ok i =>
    perform fuel i (i.colours.useColours fun _ => terminalColours surroundings terminal)
      (prompt surroundings) read console

end Script.CommandLine
