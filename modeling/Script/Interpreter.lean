import Script.FunctionTable
import Script.Module.Log
import Script.Module.Source

namespace Script

/-- How an interpreter is set up. The file name stands in the frames of calls made from code that
is no module's. -/
structure Settings where
  fileName : String
  recursionLimit : Nat
  deriving DecidableEq, Repr

def Settings.default : Settings := ⟨"<script>", CallStack.defaultLimit⟩

/-- What all interpreters of a process share: the standard streams, and the extensions that new
interpreters start with. -/
structure World where
  console : Console
  extensions : List Extension

/-- An interpreter between two steps of an evaluation. -/
structure Interpreter where
  settings : Settings
  environment : Environment
  functions : FunctionTable
  calls : CallStack
  modules : ModuleLog
  source : ModuleSource
  /-- The file that calls are made from. -/
  file : String
  /-- Values that host functions keep between their calls. -/
  cells : Array Value
  world : World

namespace Interpreter

def view (m : Interpreter) : View := ⟨m.environment, m.calls, m.file, m.functions.has⟩

def withConsole (m : Interpreter) (console : Console) : Interpreter :=
  { m with world := { m.world with console := console } }

def write (m : Interpreter) (text : String) : Interpreter :=
  m.withConsole (m.world.console.write text)

def writeError (m : Interpreter) (text : String) : Interpreter :=
  m.withConsole (m.world.console.writeError text)

def enterScope (m : Interpreter) : Interpreter := { m with environment := m.environment.push }

def canLeaveScope (m : Interpreter) : Bool := !m.environment.isGlobal

def leaveScope (m : Interpreter) : Interpreter := { m with environment := m.environment.pop }

/-- A call has a scope of its own. -/
def enterCall (frame : Frame) (m : Interpreter) : Interpreter :=
  { m with calls := m.calls.push frame, environment := m.environment.push }

def canLeaveCall (m : Interpreter) : Bool := !m.environment.isGlobal && !m.calls.isEmpty

def leaveCall (m : Interpreter) : Interpreter :=
  { m with calls := m.calls.pop, environment := m.environment.pop }

/-- A module sees the global scope alone. -/
def enterModule (origin : String) (m : Interpreter) : Interpreter :=
  { m with environment := { m.environment with locals := [] }, file := origin }

def leaveModule (locals : List Scope) (file : String) (m : Interpreter) : Interpreter :=
  { m with environment := { m.environment with locals := locals }, file := file }

end Interpreter

end Script
