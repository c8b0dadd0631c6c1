import Script.Interpreter.Evaluation
import Script.Standard

namespace Script

namespace Interpreter

/-- An interpreter with the standard builtins and no extensions, which finds modules below the
current directory by `read`. -/
def bare (settings : Settings) (source : ModuleSource) (world : World) : Interpreter :=
  { settings
    environment := .empty
    functions := Standard.functions
    calls := .empty settings.recursionLimit
    modules := .empty
    source
    file := settings.fileName
    cells := #[]
    world }

end Interpreter

namespace Run

/-- Installs extensions in their order. What an extension reports is not looked at. -/
def installAll (fuel : Nat) : List Extension → Run Unit
  | [] => pure ()
  | extension :: rest => do
    let _ ← attempt (perform fuel extension)
    installAll fuel rest

def pushScope : Run Unit := modify Change.pushScope.apply

/-- Closes the innermost scope, unless it is the global one. -/
def popScope : Run Unit := modify Change.popScope.apply

/-- The value of a variable; the error for an undefined one has no place. -/
def getVariable (name : String) : Run Value := do
  let m ← get
  match m.environment.get? name with
  | some value => pure value
  | none => throw ⟨.undefinedVariable name, none, m.calls.trace⟩

/-- Overwrites a variable; the error for an undefined one has no place. -/
def assignVariable (name : String) (value : Value) : Run Unit := do
  let m ← get
  match m.environment.assign? name value with
  | some _ => modify (Change.assign name value).apply
  | none => throw ⟨.undefinedVariable name, none, m.calls.trace⟩

end Run

namespace Interpreter

def create (fuel : Nat) (settings : Settings) (source : ModuleSource) (world : World)
    (extensions : List Extension) : Outcome Unit :=
  Run.installAll fuel extensions (bare settings source world)

end Interpreter

end Script
