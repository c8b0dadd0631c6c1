import Script.Interpreter.Change

namespace Script

inductive Halt where
  | outOfFuel
  /-- It asks for a line of input that has not arrived. -/
  | awaitsLine
  /-- It asks for a file that has not been read. -/
  | awaitsFile (path : String)
  /-- A step that a sound interpreter never takes: leaving a scope or a call that is not there, or
  calling a host function with arguments that its arity rules out. -/
  | fault
  deriving DecidableEq, Repr

/-- How an evaluation ends, and the state it leaves. -/
inductive Outcome (α : Type) where
  | value (value : α) (state : Interpreter)
  | error (error : RuntimeError) (state : Interpreter)
  | halted (reason : Halt) (state : Interpreter)

/-- An evaluation: what it does in every state. -/
def Run (α : Type) : Type := Interpreter → Outcome α

namespace Outcome

variable {α β : Type}

def state : Outcome α → Interpreter
  | value _ m | error _ m | halted _ m => m

@[inline] protected def bind (o : Outcome α) (next : α → Run β) : Outcome β :=
  match o with
  | value a m => next a m
  | error e m => error e m
  | halted reason m => halted reason m

/-- Turns an error into a value. -/
@[inline] def attempt : Outcome α → Outcome (Except RuntimeError α)
  | value a m => value (.ok a) m
  | error e m => value (.error e) m
  | halted reason m => halted reason m

/-- Undoes at the end what was done at the beginning, whether there is a value or an error, if that
is still possible. -/
@[inline] def close (o : Outcome α) (possible : Interpreter → Bool)
    (undo : Interpreter → Interpreter) : Outcome α :=
  match o with
  | value a m => if possible m then value a (undo m) else halted .fault m
  | error e m => if possible m then error e (undo m) else halted .fault m
  | halted reason m => halted reason m

end Outcome

namespace Run

variable {α β : Type}

@[inline] protected def pure (a : α) : Run α := fun m => .value a m

@[inline] protected def bind (x : Run α) (next : α → Run β) : Run β :=
  fun m => (x m).bind next

@[always_inline]
instance : Monad Run where
  pure := Run.pure
  bind := Run.bind

@[inline] def get : Run Interpreter := fun m => .value m m

@[inline] def modify (change : Interpreter → Interpreter) : Run Unit :=
  fun m => .value () (change m)

def throw (error : RuntimeError) : Run α := fun m => .error error m

def halt (reason : Halt) : Run α := fun m => .halted reason m

@[inline] def attempt (x : Run α) : Run (Except RuntimeError α) := fun m => (x m).attempt

def readLine : Run InputLine := fun m =>
  let (line, console) := m.world.console.readLine
  match line with
  | .unread => .halted .awaitsLine m
  | _ => .value line (m.withConsole console)

def withScope (body : Run α) : Run α := fun m =>
  (body m.enterScope).close Interpreter.canLeaveScope Interpreter.leaveScope

/-- Runs inside a call and a scope of its own, unless there are too many calls. -/
def withCall (frame : Frame) (span : Span) (body : Run α) : Run α := fun m =>
  if m.calls.isFull then .error (m.calls.overflow span) m
  else (body (m.enterCall frame)).close Interpreter.canLeaveCall Interpreter.leaveCall

/-- Runs with the global scope alone, as code of another file. -/
def withModule (origin : String) (body : Run α) : Run α := fun m =>
  let locals := m.environment.locals
  let file := m.file
  (body (m.enterModule origin)).close (fun _ => true) (Interpreter.leaveModule locals file)

end Run

end Script
