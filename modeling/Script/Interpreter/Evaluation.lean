import Script.Interpreter.Plan
import Script.Program.Parser
import Script.Value.Elements
import Script.Value.Operators

namespace Script

/-- The value that decides `&&` or `||` by its left operand alone. -/
def BinaryOp.shortcut? (op : BinaryOp) (left : Value) : Option Value :=
  match op with
  | .and => if left.truthy then none else some (.bool false)
  | .or => if left.truthy then some (.bool true) else none
  | _ => none

/-- An element or variable to assign to: the variable, and the indices that lead from it to the
element, outermost first, each with the span of its index expression. -/
structure Target where
  name : String
  span : Span
  path : List (Expr × Span)

/-- The place that an expression names; `path` leads on from it. -/
def Expr.targetWith (path : List (Expr × Span)) : Expr → Option Target
  | .name span root => some ⟨root, span, path⟩
  | .index span owner position => owner.targetWith ((position, span) :: path)
  | _ => none

def Expr.target? (e : Expr) : Option Target := e.targetWith []

/-- Replaces the element that a path of indices leads to. Whatever fails names the span of its
index. -/
def Value.replaceAt (value new : Value) :
    List (Value × Span) → Except (OperationError × Span) Value
  | [] => .ok new
  | [(index, span)] => (value.withElement index new).mapError (·, span)
  | (index, span) :: path => do
    let inner ← (value.index index).mapError (·, span)
    let updated ← inner.replaceAt new path
    (value.withElement index updated).mapError (·, span)

namespace Plan

variable {α : Type}

/-- Ends with an error at a place, which carries the calls that are active now. -/
def raise (cause : Cause) (span : Span) : Plan α := do
  let m ← get
  throw ⟨cause, some span, m.calls.trace⟩

/-- The result of an operation on values, its error placed at `span`. -/
def ofOperation (span : Span) : Except OperationError α → Plan α
  | .ok a => pure a
  | .error e => raise (.operation e) span

/-- The result of a host function, its error placed at `span` unless it has a place. -/
def ofHost (span : Span) : Except RuntimeError α → Plan α
  | .ok a => pure a
  | .error e => do throw (e.locate span (← get).calls.trace)

def lookup (name : String) (span : Span) : Plan Value := do
  match (← get).environment.get? name with
  | some value => pure value
  | none => raise (.undefinedVariable name) span

def overwrite (name : String) (value : Value) (span : Span) : Plan Unit := do
  match (← get).environment.assign? name value with
  | some _ => change (.assign name value)
  | none => raise (.undefinedVariable name) span

/-- Writes to a variable, or to the element that a path leads to from it. -/
def store (name : String) (span : Span) (path : List (Value × Span)) (value : Value) :
    Plan Unit := do
  let old ← lookup name span
  match old.replaceAt value path with
  | .ok updated => overwrite name updated span
  | .error (error, span) => raise (.operation error) span

/-- Binds parameters to arguments in the innermost scope. -/
def bindAll : List String → List Value → Plan Unit
  | name :: names, value :: values => do
    change (.declare name value)
    bindAll names values
  | _, _ => pure ()

/-- Enters a module in the log, unless it is there. -/
def markModule (name : String) : Plan Bool := do
  match (← get).modules.mark? name with
  | none => pure false
  | some _ =>
    change (.mark name)
    pure true

def fetchModule (name : String) : Plan (Except ModuleFault ModuleText) := do
  match ← fetch name with
  | .found text => pure (.ok text)
  | .notFound searched => pure (.error (.notFound name searched))
  | .unreadable reason => pure (.error (.unreadable name reason))
  | .unread path => halt (.awaitsFile path)

/-- The program of a module's text, which is kept in the log. -/
def parseModule (name : String) (text : ModuleText) : Plan (Except ModuleFault Program) :=
  match parseProgram text.source with
  | .error diagnostic => pure (.error (.unparsable name diagnostic))
  | .ok program => do
    change (.retain program)
    pure (.ok program)

/-- The value of an expression, or a value in place of one that is missing. -/
def evaluateOr (default : Value) : Option Expr → Plan Value
  | some e => start (.evaluate e)
  | none => pure default

def evaluateSource (text : String) : Plan (Except ScriptError Value) :=
  match parseProgram text with
  | .error diagnostic => pure (.error (.diagnostic diagnostic))
  | .ok program => do
    match ← attempt (start (.runProgram none program)) with
    | .ok value => pure (.ok value)
    | .error error => pure (.error (.runtime error))

def evaluate : Expr → Plan Value
  | .literal _ literal => pure literal.value
  | .name span name => lookup name span
  | .binary span op left right => do
    let x ← start (.evaluate left)
    match op.shortcut? x with
    | some value => pure value
    | none =>
      let y ← start (.evaluate right)
      ofOperation span (Value.binary op x y)
  | .unary span op operand => do
    let x ← start (.evaluate operand)
    ofOperation span (Value.unary op x)
  | .call span function arguments => do
    let values ← start (.evaluateAll arguments)
    start (.call function values span)
  | .array _ elements => do
    let values ← start (.evaluateAll elements)
    pure (.array values)
  | .group _ inner => start (.evaluate inner)
  | .index span target index => do
    let x ← start (.evaluate target)
    let i ← start (.evaluate index)
    ofOperation span (x.index i)

def evaluateAll : List Expr → Plan (List Value)
  | [] => pure []
  | e :: rest => do
    let value ← start (.evaluate e)
    let values ← start (.evaluateAll rest)
    pure (value :: values)

def call (name : String) (values : List Value) (span : Span) : Plan Value := do
  match (← get).functions.resolve name with
  | none => raise (.undefinedFunction name) span
  | some (.user function) => start (.callUser name function values span)
  | some (.builtin builtin) =>
    match builtin.arity.unmet? values.length with
    | some count => raise (.argumentCount builtin.name count values.length) span
    | none =>
      let result ← attempt (start (.perform (builtin.call values)))
      ofHost span result

def callUser (function : Function) (values : List Value) (span : Span) : Plan Value := do
  if values.length = function.parameters.length then
    let file := (← get).file
    withCall ⟨function.name, file, span.line⟩ span do
      bindAll function.parameters values
      start (.runBody function.name function.body)
  else
    raise (.argumentCount function.name function.parameters.length values.length) span

def runBody (function : String) : List Stmt → Plan Value
  | [] => pure .null
  | stmt :: rest => do
    match ← start (.execute stmt) with
    | .normal _ => start (.runBody function rest)
    | .return value => pure value
    | .break => raise (.jumpInFunction .break function) stmt.span
    | .continue => raise (.jumpInFunction .continue function) stmt.span

def perform : HostAction → Plan Value
  | .finish (.ok value) => pure value
  | .finish (.error error) => pass error
  | .observe next => do start (.perform (next (← get).view))
  | .evaluate text next => do
    let result ← evaluateSource text
    start (.perform (next result))
  | .load name next => do
    let result ← start (.load name)
    start (.perform (next result))
  | .set name value next => do
    change (.declare name value)
    start (.perform next)
  | .setGlobal name value next => do
    change (.declareGlobal name value)
    start (.perform next)
  | .assign name value next => do
    match (← get).environment.assign? name value with
    | some _ =>
      change (.assign name value)
      start (.perform (next true))
    | none => start (.perform (next false))
  | .pushScope next => do
    change .pushScope
    start (.perform next)
  | .popScope next => do
    change .popScope
    start (.perform next)
  | .setLimit limit next => do
    change (.setLimit limit)
    start (.perform next)
  | .setSource source next => do
    change (.setSource source)
    start (.perform next)
  | .print text next => do
    change (.print text)
    start (.perform next)
  | .readLine next => do
    let line ← readLine
    start (.perform (next line))
  | .addBuiltin name arity call next => do
    change (.addBuiltin ⟨name, arity, call⟩)
    start (.perform next)
  | .register extension next => do
    change (.register extension)
    start (.perform next)
  | .newCell initial next => do
    let cell := (← get).cells.size
    change (.newCell initial)
    start (.perform (next cell))
  | .readCell cell next => do start (.perform (next ((← get).cells.getD cell .null)))
  | .writeCell cell value next => do
    change (.writeCell cell value)
    start (.perform next)
  | .fault => halt .fault

def execute : Stmt → Plan Signal
  | .var _ name initial => do
    let value ← evaluateOr .null initial
    change (.declare name value)
    pure (.normal none)
  | .define _ name e => do
    let value ← start (.evaluate e)
    change (.declareGlobal name value)
    pure (.normal none)
  | .assign _ target e => do
    let value ← start (.evaluate e)
    start (.assignTo target value)
    pure (.normal none)
  | .function span name parameters body => do
    change (.define ⟨name, parameters, body, span⟩)
    pure (.normal none)
  | .include span name => do
    match ← start (.load name) with
    | .ok () => pure (.normal none)
    | .error (.execution _ error) => pass error
    | .error (.fault fault) => raise (.module fault) span
  | .expr _ e => do
    let value ← start (.evaluate e)
    pure (.normal (some value))
  | .block _ body => withScope (start (.executeAll none body))
  | .ifThen _ condition body => do
    let value ← start (.evaluate condition)
    if value.truthy then withScope (start (.executeAll none body)) else pure (.normal none)
  | .ifElse _ condition body otherwise => do
    let value ← start (.evaluate condition)
    if value.truthy then withScope (start (.executeAll none body))
    else withScope (start (.executeAll none otherwise))
  | .while _ condition body => start (.whileLoop condition body)
  | .loop _ body => start (.endlessLoop body)
  | .for _ binding e body => do
    let value ← start (.evaluate e)
    let items ← ofOperation e.span value.iterate
    start (.forLoop binding items body)
  | .return _ e => do
    let value ← evaluateOr .null e
    pure (.return value)
  | .break _ => pure .break
  | .continue _ => pure .continue

def executeAll (last : Option Value) : List Stmt → Plan Signal
  | [] => pure (.normal last)
  | stmt :: rest => do
    match ← start (.execute stmt) with
    | .normal value => start (.executeAll (value.or last) rest)
    | signal => pure signal

/-- Leaves a loop after its body has ended with a signal, or goes on. -/
def afterBody (signal : Signal) (again : Plan Signal) : Plan Signal :=
  match signal.leavesLoop? with
  | some signal => pure signal
  | none => again

def whileLoop (condition : Expr) (body : List Stmt) : Plan Signal := do
  let value ← start (.evaluate condition)
  if value.truthy then
    let signal ← withScope (start (.executeAll none body))
    afterBody signal (start (.whileLoop condition body))
  else pure (.normal none)

def endlessLoop (body : List Stmt) : Plan Signal := do
  let signal ← withScope (start (.executeAll none body))
  afterBody signal (start (.endlessLoop body))

def forLoop (binding : String) (items : List Value) (body : List Stmt) : Plan Signal :=
  match items with
  | [] => pure (.normal none)
  | item :: rest => do
    let signal ← withScope do
      change (.declare binding item)
      start (.executeAll none body)
    afterBody signal (start (.forLoop binding rest body))

def assignTo (target : Expr) (value : Value) : Plan Unit :=
  match target.target? with
  | none => raise .assignmentTarget target.span
  | some place => do
    let indices ← start (.evaluateAll (place.path.map Prod.fst))
    store place.name place.span (indices.zip (place.path.map Prod.snd)) value

def runProgram (last : Option Value) : Program → Plan Value
  | [] => pure (last.getD .null)
  | stmt :: rest => do
    match ← start (.execute stmt) with
    | .normal value => start (.runProgram (value.or last) rest)
    | .return _ => raise (.jumpAtTopLevel .return) stmt.span
    | .break => raise (.jumpAtTopLevel .break) stmt.span
    | .continue => raise (.jumpAtTopLevel .continue) stmt.span

/-- Loads a module unless that has been tried before. Its name is entered first of all, so a module
that includes itself is not loaded again. -/
def load (name : String) : Plan (Except ModuleError Unit) := do
  if ← markModule name then
    match ← fetchModule name with
    | .error fault => pure (.error (.fault fault))
    | .ok text =>
      match ← parseModule name text with
      | .error fault => pure (.error (.fault fault))
      | .ok program =>
        match ← attempt (withModule text.origin (start (.runProgram none program))) with
        | .ok _ => pure (.ok ())
        | .error error => pure (.error (.execution name error))
  else pure (.ok ())

end Plan

def Job.plan : {α : Type} → Job α → Plan α
  | _, .evaluate e => Plan.evaluate e
  | _, .evaluateAll es => Plan.evaluateAll es
  | _, .call name values span => Plan.call name values span
  | _, .callUser _ function values span => Plan.callUser function values span
  | _, .runBody function stmts => Plan.runBody function stmts
  | _, .perform action => Plan.perform action
  | _, .execute stmt => Plan.execute stmt
  | _, .executeAll last stmts => Plan.executeAll last stmts
  | _, .whileLoop condition body => Plan.whileLoop condition body
  | _, .endlessLoop body => Plan.endlessLoop body
  | _, .forLoop binding items body => Plan.forLoop binding items body
  | _, .assignTo target value => Plan.assignTo target value
  | _, .runProgram last program => Plan.runProgram last program
  | _, .load name => Plan.load name

/-- Does a job. Each job that another one starts spends one unit of fuel. -/
def Job.run : Nat → {α : Type} → Job α → Run α
  | 0, _, _ => Run.halt .outOfFuel
  | fuel + 1, _, job => job.plan.run fun _ j => Job.run fuel j

namespace Run

def declare (name : String) (value : Value) : Run Unit := modify (Change.declare name value).apply

def declareGlobal (name : String) (value : Value) : Run Unit :=
  modify (Change.declareGlobal name value).apply

def evaluate (fuel : Nat) (e : Expr) : Run Value := (Job.evaluate e).run fuel

def execute (fuel : Nat) (stmt : Stmt) : Run Signal := (Job.execute stmt).run fuel

def perform (fuel : Nat) (action : HostAction) : Run Value := (Job.perform action).run fuel

def runProgram (fuel : Nat) (program : Program) : Run Value :=
  (Job.runProgram none program).run fuel

def load (fuel : Nat) (name : String) : Run (Except ModuleError Unit) :=
  (Job.load name).run fuel

def evaluateSource (fuel : Nat) (text : String) : Run (Except ScriptError Value) :=
  (Plan.evaluateSource text).run fun _ j => Job.run fuel j

end Run

end Script
