import Script.CallStack
import Script.Diagnostic
import Script.Value.OperationError
import Script.Value.Text

namespace Script

inductive ErrorKind where
  | name
  | stackOverflow
  | runtime
  | controlFlow
  | module
  deriving DecidableEq, Repr

def ErrorKind.label : ErrorKind → String
  | name => "NameError"
  | stackOverflow => "StackOverflow"
  | runtime => "RuntimeError"
  | controlFlow => "ControlFlowError"
  | module => "ModuleError"

inductive BuiltinError where
  | argumentCount (function : String) (least most received : Nat)
  | wrongKind (function wanted : String) (found : Kind)
  | zeroStep
  | notAnInteger (x : Float)
  | unreadable (function text : String)
  | inconvertible (function : String) (found : Kind)
  | absOverflow
  | negativeRoot
  | assertion (message : Option String)
  | raised (text : String)
  | limitNotPositive (limit : Int64)
  | invalidInput

def BuiltinError.message : BuiltinError → String
  | argumentCount function least most received =>
    "`" ++ function ++ "` expected " ++
      (if least = most then toString least else toString least ++ " to " ++ toString most) ++
      " arguments but received " ++ toString received
  | wrongKind function wanted found =>
    "`" ++ function ++ "` expected " ++ wanted ++ " but found " ++ found.label
  | zeroStep => "range step must be non-zero"
  | notAnInteger x => "`int` cannot represent " ++ floatText .plain x
  | unreadable function text => "`" ++ function ++ "` cannot parse " ++ quoted text
  | inconvertible function found => "`" ++ function ++ "` cannot convert " ++ found.label
  | absOverflow => "integer overflow in `abs`"
  | negativeRoot => "`sqrt` expects non-negative input"
  | assertion none => "assertion failed"
  | assertion (some message) => "assertion failed: " ++ message
  | raised text => text
  | limitNotPositive limit => "recursion limit must be positive, got " ++ toString limit.toInt
  | invalidInput => "`input` failed: stream did not contain valid UTF-8"

/-- The statements that leave the construct around them. -/
inductive Jump where
  | return
  | break
  | continue
  deriving DecidableEq, Repr

def Jump.keyword : Jump → String
  | .return => "return"
  | .break => "break"
  | .continue => "continue"

def Jump.construct : Jump → String
  | .return => "function"
  | .break | .continue => "loop"

inductive ModuleFault where
  | notFound (module : String) (searched : List String)
  | unreadable (module reason : String)
  | unparsable (module : String) (diagnostic : Diagnostic)

def ModuleFault.message : ModuleFault → String
  | notFound module _ => "module `" ++ module ++ "` could not be located"
  | unreadable module reason => "failed reading module `" ++ module ++ "`: " ++ reason
  | unparsable module diagnostic =>
    "failed parsing module `" ++ module ++ "`: " ++ diagnostic.text

inductive Cause where
  | undefinedVariable (name : String)
  | undefinedFunction (name : String)
  | recursionLimit (limit : Nat)
  | operation (error : OperationError)
  | assignmentTarget
  | argumentCount (function : String) (expected received : Nat)
  | jumpAtTopLevel (jump : Jump)
  | jumpInFunction (jump : Jump) (function : String)
  | module (fault : ModuleFault)
  | builtin (error : BuiltinError)
  /-- An error that a host function words itself. -/
  | host (kind : ErrorKind) (message : String)

namespace Cause

def kind : Cause → ErrorKind
  | undefinedVariable _ | undefinedFunction _ => .name
  | recursionLimit _ => .stackOverflow
  | operation _ | assignmentTarget | argumentCount _ _ _ | builtin _ => .runtime
  | jumpAtTopLevel _ | jumpInFunction _ _ => .controlFlow
  | module _ => .module
  | host kind _ => kind

def message : Cause → String
  | undefinedVariable name => "undefined variable `" ++ name ++ "`"
  | undefinedFunction name => "undefined function `" ++ name ++ "`"
  | recursionLimit limit => "maximum recursion depth " ++ toString limit ++ " exceeded"
  | operation error => error.message
  | assignmentTarget => "invalid assignment target"
  | argumentCount function expected received =>
    "function `" ++ function ++ "` expected " ++ toString expected ++
      " arguments but received " ++ toString received
  | jumpAtTopLevel jump => "`" ++ jump.keyword ++ "` outside of " ++ jump.construct
  | jumpInFunction jump function =>
    "`" ++ jump.keyword ++ "` outside of loop in function `" ++ function ++ "`"
  | module fault => fault.message
  | builtin error => error.message
  | host _ message => message

end Cause

/-- An error with the place it arose at and the calls that were active there, outermost first. -/
structure RuntimeError where
  cause : Cause
  span : Option Span
  trace : List Frame

namespace RuntimeError

def kind (e : RuntimeError) : ErrorKind := e.cause.kind

def message (e : RuntimeError) : String := e.cause.message

def text (e : RuntimeError) : String := e.kind.label ++ ": " ++ e.message

/-- An error that a builtin reports, its place still to be filled in. -/
def unplaced (cause : Cause) : RuntimeError := ⟨cause, none, []⟩

/-- Fills in the place and the active calls where they are missing. -/
def locate (e : RuntimeError) (span : Span) (trace : List Frame) : RuntimeError :=
  { e with
    span := some (e.span.getD span)
    trace := if e.trace.isEmpty then trace else e.trace }

end RuntimeError

/-- The error of a call that is one too many. -/
def CallStack.overflow (calls : CallStack) (span : Span) : RuntimeError :=
  ⟨.recursionLimit calls.limit, some span, calls.trace⟩

inductive ModuleError where
  | fault (fault : ModuleFault)
  | execution (module : String) (error : RuntimeError)

def ModuleError.message : ModuleError → String
  | fault f => f.message
  | execution module error =>
    "module `" ++ module ++ "` failed during execution: " ++ error.text

inductive ScriptError where
  | diagnostic (diagnostic : Diagnostic)
  | runtime (error : RuntimeError)

def ScriptError.text : ScriptError → String
  | diagnostic d => d.text
  | runtime e => e.text

end Script
