import Script.Console
import Script.Environment
import Script.Error
import Script.Module.Source

namespace Script

inductive Arity where
  | exactly (count : Nat)
  | any
  deriving DecidableEq, Repr

/-- The number of arguments that is wanted where another one is given. -/
def Arity.unmet? : Arity → Nat → Option Nat
  | exactly count, given => if given = count then none else some count
  | any, _ => none

/-- What a host function can see of an interpreter. -/
structure View where
  environment : Environment
  calls : CallStack
  file : String
  hasFunction : String → Bool

/-- What a host function does to the interpreter that runs it, step by step. Each step hands its
answer to the action that follows it. -/
inductive HostAction where
  | finish (result : Except RuntimeError Value)
  | observe (next : View → HostAction)
  | evaluate (source : String) (next : Except ScriptError Value → HostAction)
  | load (module : String) (next : Except ModuleError Unit → HostAction)
  | set (name : String) (value : Value) (next : HostAction)
  | setGlobal (name : String) (value : Value) (next : HostAction)
  | assign (name : String) (value : Value) (next : Bool → HostAction)
  | pushScope (next : HostAction)
  | popScope (next : HostAction)
  | setLimit (limit : Nat) (next : HostAction)
  /-- Looks for modules elsewhere from now on. -/
  | setSource (source : ModuleSource) (next : HostAction)
  | print (text : String) (next : HostAction)
  | readLine (next : InputLine → HostAction)
  | addBuiltin (name : String) (arity : Arity) (call : List Value → HostAction) (next : HostAction)
  /-- Appends an extension to the registry that all interpreters share. -/
  | register (extension next : HostAction)
  /-- Sets up a value of the host's own and names its cell. -/
  | newCell (initial : Value) (next : Nat → HostAction)
  | readCell (cell : Nat) (next : Value → HostAction)
  | writeCell (cell : Nat) (value : Value) (next : HostAction)
  /-- A step that cannot be taken: the function looks for an argument that it was not handed. -/
  | fault

/-- An extension is what it does to an interpreter that it is installed in. -/
abbrev Extension := HostAction

structure Builtin where
  name : String
  arity : Arity
  call : List Value → HostAction

namespace HostAction

def ok (value : Value) : HostAction := finish (.ok value)

/-- Fails with an error whose place is still open. -/
def fail (cause : Cause) : HostAction := finish (.error (.unplaced cause))

def refuse (error : BuiltinError) : HostAction := fail (.builtin error)

def orRefuse (error : BuiltinError) : Option Value → HostAction
  | some value => ok value
  | none => refuse error

/-- Takes an argument out by its position. -/
def argument (position : Nat) (arguments : List Value) (act : Value → HostAction) : HostAction :=
  match arguments[position]? with
  | some x => act x
  | none => fault

def nullary (act : HostAction) (_arguments : List Value) : HostAction := act

def unary (act : Value → HostAction) (arguments : List Value) : HostAction :=
  argument 0 arguments act

def binary (act : Value → Value → HostAction) (arguments : List Value) : HostAction :=
  argument 0 arguments fun x => argument 1 arguments (act x)

@[simp]
theorem binary_pair (act : Value → Value → HostAction) (x y : Value) :
    binary act [x, y] = act x y := rfl

/-- Refuses to act on fewer or more arguments than a function with optional ones takes. -/
def counted (function : String) (least most : Nat) (arguments : List Value) (act : HostAction) :
    HostAction :=
  if arguments.length < least ∨ most < arguments.length then
    refuse (.argumentCount function least most arguments.length)
  else act

/-- Looks a variable up; an undefined one gives an error with the active calls. -/
def getVariable (name : String) (next : Except RuntimeError Value → HostAction) : HostAction :=
  observe fun view => next <|
    match view.environment.get? name with
    | some value => .ok value
    | none => .error ⟨.undefinedVariable name, none, view.calls.trace⟩

/-- Overwrites a variable; an undefined one gives an error with the active calls. -/
def assignVariable (name : String) (value : Value) (next : Except RuntimeError Unit → HostAction) :
    HostAction :=
  assign name value fun done =>
    if done then next (.ok ())
    else observe fun view => next (.error ⟨.undefinedVariable name, none, view.calls.trace⟩)

end HostAction

end Script
