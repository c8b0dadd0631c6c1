import Script.Interpreter.Run

namespace Script

/-- How a statement ends that raises no error. -/
inductive Signal where
  /-- Execution goes on; an expression statement gives its value. -/
  | normal (value : Option Value)
  | return (value : Value)
  | break
  | continue

namespace Signal

/-- How a loop ends whose body ended like this, if it does. -/
def leavesLoop? : Signal → Option Signal
  | normal _ | .continue => none
  | .break => some (normal none)
  | .return v => some (.return v)

end Signal

/-- An evaluation that others start, by the type of its result. -/
inductive Job : Type → Type where
  | evaluate (e : Expr) : Job Value
  /-- The values of expressions, from left to right. -/
  | evaluateAll (es : List Expr) : Job (List Value)
  /-- Calls whatever the name stands for now. -/
  | call (name : String) (values : List Value) (span : Span) : Job Value
  /-- Runs the body of a function, found under the name, in a call of its own. -/
  | callUser (name : String) (function : Function) (values : List Value) (span : Span) : Job Value
  /-- Runs the statements of a function up to a `return`. -/
  | runBody (function : String) (stmts : List Stmt) : Job Value
  | perform (action : HostAction) : Job Value
  | execute (stmt : Stmt) : Job Signal
  /-- Runs statements up to the first signal that is not normal. `last` is the value of the last
  expression statement so far. -/
  | executeAll (last : Option Value) (stmts : List Stmt) : Job Signal
  | whileLoop (condition : Expr) (body : List Stmt) : Job Signal
  | endlessLoop (body : List Stmt) : Job Signal
  | forLoop (binding : String) (items : List Value) (body : List Stmt) : Job Signal
  /-- Evaluates the indices of a target from left to right, then writes the value there. -/
  | assignTo (target : Expr) (value : Value) : Job Unit
  /-- Runs the statements of a program or a module. `last` is the value of the last expression
  statement so far, which the program's value is if no other follows. -/
  | runProgram (last : Option Value) (program : Program) : Job Value
  | load (name : String) : Job (Except ModuleError Unit)

/-- What an evaluation does, the evaluations that it starts left open. -/
inductive Plan : Type → Type 1 where
  | pure {α : Type} (a : α) : Plan α
  | bind {α β : Type} (x : Plan β) (next : β → Plan α) : Plan α
  | start {α : Type} (job : Job α) : Plan α
  | get : Plan Interpreter
  | change (c : Change) : Plan Unit
  | readLine : Plan InputLine
  /-- Asks the module source for a module. -/
  | fetch (name : String) : Plan Fetched
  /-- Ends with a new error. -/
  | throw {α : Type} (error : RuntimeError) : Plan α
  /-- Hands on an error that has come from elsewhere. -/
  | pass {α : Type} (error : RuntimeError) : Plan α
  | halt {α : Type} (reason : Halt) : Plan α
  | attempt {α : Type} (x : Plan α) : Plan (Except RuntimeError α)
  | withScope {α : Type} (body : Plan α) : Plan α
  | withCall {α : Type} (frame : Frame) (span : Span) (body : Plan α) : Plan α
  | withModule {α : Type} (origin : String) (body : Plan α) : Plan α

namespace Plan

instance : Monad Plan where
  pure := Plan.pure
  bind := Plan.bind

/-- Carries a plan out, the evaluations that it starts by `job`. -/
def run (job : (β : Type) → Job β → Run β) : {α : Type} → Plan α → Run α
  | _, .pure a, m => .value a m
  | _, .bind x next, m => (x.run job m).bind fun b m => (next b).run job m
  | _, .start j, m => job _ j m
  | _, .get, m => .value m m
  | _, .change c, m => .value () (c.apply m)
  | _, .readLine, m => Run.readLine m
  | _, .fetch name, m => .value (m.source.fetch name) m
  | _, .throw error, m => .error error m
  | _, .pass error, m => .error error m
  | _, .halt reason, m => .halted reason m
  | _, .attempt x, m => Run.attempt (x.run job) m
  | _, .withScope body, m => Run.withScope (body.run job) m
  | _, .withCall frame span body, m => Run.withCall frame span (body.run job) m
  | _, .withModule origin body, m => Run.withModule origin (body.run job) m

end Plan

end Script
