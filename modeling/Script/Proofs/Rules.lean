import Script.Interpreter.Evaluation
import Script.Proofs.Code
import Script.Proofs.Plain

namespace Script

theorem Run.readLine_cases (m : Interpreter) :
    readLine m = .halted .awaitsLine m ∨
      ∃ line console, line ≠ .unread ∧ m.world.console.readLine = (line, console) ∧
        readLine m = .value line (m.withConsole console) := by
  rcases hr : m.world.console.readLine with ⟨line, console⟩
  cases line with
  | unread => exact .inl (by simp [readLine, hr])
  | _ => exact .inr ⟨_, console, by simp, rfl, by simp [readLine, hr]⟩

/-- What evaluations are held to: the code that they may run, the variables and functions that may
occur in it, and what they may look at. -/
structure Rules where
  code : Code
  /-- Of the names of variables that may be read and overwritten. -/
  name : String → Prop
  /-- Of the names that may be bound. -/
  binds : String → Prop
  function : Function → Prop
  acts : HostAction → Prop
  /-- Whether the recursion limit may be looked at and set. -/
  limits : Prop
  /-- Holds of the states that are come to. -/
  Inv : Interpreter → Prop
  /-- Whether an evaluation has to go on alike in two states. -/
  Twins : Interpreter → Interpreter → Prop

namespace Rules

variable (R : Rules)

/-- Whether a job may be started. -/
def Admits {α : Type} : Job α → Prop
  | .evaluate e => R.code.expr e
  | .evaluateAll es => ∀ e ∈ es, R.code.expr e
  | .callUser _ f _ _ => R.function f
  | .runBody _ stmts => ∀ s ∈ stmts, R.code.body s
  | .perform action => R.acts action
  | .execute s => R.code.stmt s
  | .executeAll _ stmts | .endlessLoop stmts => ∀ s ∈ stmts, R.code.stmt s
  | .whileLoop condition body => R.code.expr condition ∧ ∀ s ∈ body, R.code.stmt s
  | .forLoop binding _ body => R.binds binding ∧ ∀ s ∈ body, R.code.stmt s
  | .assignTo target _ => R.code.expr target
  | .runProgram _ program => ∀ s ∈ program, R.code.top s
  | .call .. | .load _ => True

/-- Whether the plan of a job can keep to the rules. What is asked of functions and host functions
here is more than has to hold where they are called. -/
def Covers {α : Type} : Job α → Prop
  | .callUser _ f _ _ => (∀ name ∈ f.parameters, R.binds name) ∧ ∀ s ∈ f.body, R.code.body s
  | .perform action => action.Modest R.limits R.limits
  | .load _ => False
  | j => R.Admits j

/-- Whether a change may be made. -/
def Allows : Change → Prop
  | .declare name _ | .declareGlobal name _ => R.binds name
  | .assign name _ => R.name name
  | .define f => R.function f
  | .setLimit _ => R.limits
  | .print _ => True
  | _ => False

/-- What is the same in states in which evaluations go on alike. -/
structure Alike (m m' : Interpreter) : Prop where
  calls : ∃ limit, m'.calls = { m.calls with limit := limit }
  limit : R.limits → m'.calls = m.calls
  file : m'.file = m.file
  functions : m'.functions = m.functions
  get? : ∀ name, R.name name → m'.environment.get? name = m.environment.get? name

/-- What has to be shown of rules for all evaluations to keep to them. -/
structure Lawful : Prop where
  read : ∀ {span name}, R.code.expr (.name span name) → R.name name
  var : ∀ {span name initial}, R.code.stmt (.var span name initial) → R.binds name
  define : ∀ {span name e}, R.code.stmt (.define span name e) → R.binds name
  binding : ∀ {span name e body}, R.code.stmt (.for span name e body) → R.binds name
  function : ∀ {span name parameters body},
    R.code.stmt (.function span name parameters body) → R.function ⟨name, parameters, body, span⟩
  user : ∀ {m name f}, R.Inv m → m.functions.resolve name = some (.user f) → R.function f
  builtin : ∀ {m name b values}, R.Inv m → m.functions.resolve name = some (.builtin b) →
    b.arity.unmet? (List.length values) = none → R.acts (b.call values)
  modest : ∀ {action}, action.Modest R.limits R.limits → R.acts action
  alike : ∀ {m m'}, R.Twins m m' → R.Alike m m'

variable {R} in
theorem Alike.trace {m m' : Interpreter} (alike : R.Alike m m') :
    m'.calls.trace = m.calls.trace := by
  obtain ⟨limit, calls⟩ := alike.calls
  rw [calls]
  rfl

end Rules

namespace Plan

/-- Whether a plan keeps to rules in states in which their invariant holds: it goes on alike in
twins, and it starts and changes only what it may. -/
inductive KeepsTo (R : Rules) : {α : Type} → Plan α → Prop where
  | pure {α : Type} (a : α) : KeepsTo R (Plan.pure a)
  | bind {α β : Type} {x : Plan β} {next : β → Plan α} :
    KeepsTo R x → (∀ b, KeepsTo R (next b)) → KeepsTo R (x.bind next)
  | get_bind {α : Type} {next : Interpreter → Plan α} :
    (∀ m m', R.Twins m m' → next m' = next m) → (∀ m, R.Inv m → KeepsTo R (next m)) →
      KeepsTo R (get.bind next)
  | start {α : Type} {j : Job α} : R.Admits j → KeepsTo R (Plan.start j)
  | change {c : Change} : R.Allows c → KeepsTo R (Plan.change c)
  /-- A line of input is read for a host function. -/
  | readLine {next : InputLine → HostAction} :
    (∀ line, line ≠ .unread → R.acts (next line)) →
      KeepsTo R (Plan.readLine.bind fun line => Plan.start (.perform (next line)))
  | throw {α : Type} (error : RuntimeError) : KeepsTo R (Plan.throw error : Plan α)
  | pass {α : Type} (error : RuntimeError) : KeepsTo R (Plan.pass error : Plan α)
  | attempt {α : Type} {x : Plan α} : KeepsTo R x → KeepsTo R x.attempt
  | withScope {α : Type} {body : Plan α} : KeepsTo R body → KeepsTo R body.withScope
  | withCall {α : Type} (frame : Frame) (span : Span) {body : Plan α} :
    KeepsTo R body → KeepsTo R (Plan.withCall frame span body)

end Plan

namespace Rules.Lawful

open Plan

variable {R : Rules} {α β : Type}

theorem start_bind {j : Job β} {next : β → Plan α} (hj : R.Admits j)
    (hn : ∀ b, (next b).KeepsTo R) : (Plan.start j >>= next).KeepsTo R :=
  .bind (.start hj) hn

theorem change_bind {c : Change} {next : Unit → Plan α} (hc : R.Allows c)
    (hn : (next ()).KeepsTo R) : (Plan.change c >>= next).KeepsTo R :=
  .bind (.change hc) fun _ => hn

variable (L : R.Lawful)
include L

theorem raise (cause : Cause) (span : Span) : (Plan.raise cause span : Plan α).KeepsTo R :=
  .get_bind (fun _ _ twins => by rw [(L.alike twins).trace]) fun _ _ => .throw _

theorem ofOperation (span : Span) (result : Except OperationError α) :
    (Plan.ofOperation span result).KeepsTo R := by
  cases result with
  | ok a => exact .pure a
  | error e => exact L.raise _ span

theorem ofHost (span : Span) (result : Except RuntimeError α) :
    (Plan.ofHost span result).KeepsTo R := by
  cases result with
  | ok a => exact .pure a
  | error e => exact .get_bind (fun _ _ twins => by rw [(L.alike twins).trace]) fun _ _ => .throw _

theorem lookup {name : String} (hn : R.name name) (span : Span) :
    (Plan.lookup name span).KeepsTo R := by
  refine .get_bind (fun m m' twins => ?_) fun m _ => ?_
  · rw [(L.alike twins).get? name hn]
  · split
    · exact .pure _
    · exact L.raise _ span

theorem overwrite {name : String} (hn : R.name name) (value : Value) (span : Span) :
    (Plan.overwrite name value span).KeepsTo R := by
  refine .get_bind (fun m m' twins => ?_) fun m _ => ?_
  · have same : (m'.environment.assign? name value).isSome =
        (m.environment.assign? name value).isSome := by
      simp only [Environment.isSome_assign?, Environment.has, (L.alike twins).get? name hn]
    cases h : m.environment.assign? name value <;>
      cases h' : m'.environment.assign? name value <;> simp_all
  · split
    · exact .change hn
    · exact L.raise _ span

theorem store {name : String} (hn : R.name name) (span : Span) (path : List (Value × Span))
    (value : Value) : (Plan.store name span path value).KeepsTo R := by
  refine .bind (L.lookup hn span) fun old => ?_
  split
  · exact L.overwrite hn _ span
  · exact L.raise _ _

omit L in
theorem bindAll {names : List String} (hn : ∀ name ∈ names, R.binds name) (values : List Value) :
    (Plan.bindAll names values).KeepsTo R := by
  induction names generalizing values with
  | nil => exact .pure ()
  | cons name names ih =>
    cases values with
    | nil => exact .pure ()
    | cons value values =>
      refine change_bind ?_ (ih (fun other ho => hn other (by simp [ho])) values)
      exact hn name (by simp)

omit L in
theorem evaluateOr (default : Value) {e : Option Expr} (he : ∀ x ∈ e.toList, R.code.expr x) :
    (Plan.evaluateOr default e).KeepsTo R := by
  cases e with
  | none => exact .pure default
  | some e => exact .start (he e (by simp))

omit L in
theorem block {stmts : List Stmt} (hs : ∀ s ∈ stmts, R.code.stmt s) :
    (Plan.withScope (Plan.start (.executeAll none stmts))).KeepsTo R :=
  .withScope (.start hs)

omit L in
theorem afterBody (signal : Signal) {again : Plan Signal} (ha : again.KeepsTo R) :
    (Plan.afterBody signal again).KeepsTo R := by
  unfold Plan.afterBody
  split
  · exact .pure _
  · exact ha

theorem evaluate {e : Expr} (he : R.code.expr e) : (Plan.evaluate e).KeepsTo R := by
  have child {x} (hx : x ∈ e.children) := R.code.expr_children he hx
  cases e with
  | literal span value => exact .pure _
  | name span name => exact L.lookup (L.read he) span
  | binary span op left right =>
    refine start_bind (child (x := left) (by simp [Expr.children])) fun x => ?_
    split
    · exact .pure _
    · refine start_bind (child (x := right) (by simp [Expr.children])) fun y => ?_
      exact L.ofOperation span _
  | unary span op operand =>
    refine start_bind (child (x := operand) (by simp [Expr.children])) fun x => ?_
    exact L.ofOperation span _
  | call span function arguments =>
    exact start_bind (fun x hx => child hx) fun values => .start trivial
  | array span elements => exact start_bind (fun x hx => child hx) fun values => .pure _
  | group span inner => exact .start (child (x := inner) (by simp [Expr.children]))
  | index span target position =>
    refine start_bind (child (x := target) (by simp [Expr.children])) fun x => ?_
    refine start_bind (child (x := position) (by simp [Expr.children])) fun y => ?_
    exact L.ofOperation span _

omit L in
theorem evaluateAll {es : List Expr} (he : ∀ e ∈ es, R.code.expr e) :
    (Plan.evaluateAll es).KeepsTo R := by
  cases es with
  | nil => exact .pure []
  | cons e rest =>
    refine start_bind (he e (by simp)) fun value => ?_
    exact start_bind (fun x hx => he x (by simp [hx])) fun values => .pure _

theorem call (name : String) (values : List Value) (span : Span) :
    (Plan.call name values span).KeepsTo R := by
  refine .get_bind (fun m m' twins => ?_) fun m inv => ?_
  · rw [(L.alike twins).functions]
  split
  · exact L.raise _ span
  next hr => exact .start (L.user inv hr)
  next hr =>
    split
    · exact L.raise _ span
    next hu => exact .bind (.attempt (.start (L.builtin inv hr hu))) fun result => L.ofHost span _

theorem callUser {f : Function} (parameters : ∀ name ∈ f.parameters, R.binds name)
    (body : ∀ s ∈ f.body, R.code.body s) (values : List Value) (span : Span) :
    (Plan.callUser f values span).KeepsTo R := by
  unfold Plan.callUser
  split
  · refine .get_bind (fun m m' twins => ?_) fun m _ => .withCall _ span ?_
    · rw [(L.alike twins).file]
    · exact .bind (bindAll parameters _) fun _ => .start body
  · exact L.raise _ span

theorem runBody (function : String) {stmts : List Stmt} (hs : ∀ s ∈ stmts, R.code.body s) :
    (Plan.runBody function stmts).KeepsTo R := by
  cases stmts with
  | nil => exact .pure _
  | cons s rest =>
    refine start_bind (R.code.body_stmt (hs s (by simp))) fun signal => ?_
    cases signal with
    | normal value => exact .start fun t ht => hs t (by simp [ht])
    | «return» value => exact .pure value
    | «break» => exact L.raise _ _
    | «continue» => exact L.raise _ _

theorem perform {action : HostAction} (modest : action.Modest R.limits R.limits) :
    (Plan.perform action).KeepsTo R := by
  cases modest with
  | ok value => exact .pure value
  | refuse error => exact .pass _
  | @observe next same hn =>
    refine .get_bind (fun m m' twins => ?_) fun m _ => .start (L.modest (hn m.calls))
    have alike : next m'.calls = next m.calls := by
      rcases same with limits | same
      · rw [(L.alike twins).limit limits]
      · obtain ⟨limit, calls⟩ := (L.alike twins).calls
        rw [calls, same]
    exact congrArg (fun action => Plan.start (.perform action)) alike
  | setLimit allowed limit hn => exact change_bind allowed (.start (L.modest hn))
  | print text hn => exact change_bind trivial (.start (L.modest hn))
  | readLine hn => exact .readLine fun line hl => L.modest (hn line hl)

theorem execute {s : Stmt} (hs : R.code.stmt s) : (Plan.execute s).KeepsTo R := by
  have exprs {e} (he : e ∈ s.exprs) := R.code.stmt_exprs hs he
  have children {t} (ht : t ∈ s.children) := R.code.stmt_children hs ht
  cases s with
  | var span name initial =>
    refine .bind (evaluateOr _ fun x hx => exprs hx) fun value => ?_
    exact change_bind (L.var hs) (.pure _)
  | define span name e =>
    refine start_bind (exprs (e := e) (by simp [Stmt.exprs])) fun value => ?_
    exact change_bind (L.define hs) (.pure _)
  | assign span target e =>
    refine start_bind (exprs (e := e) (by simp [Stmt.exprs])) fun value => ?_
    exact start_bind (exprs (e := target) (by simp [Stmt.exprs])) fun _ => .pure _
  | function span name parameters body => exact change_bind (L.function hs) (.pure _)
  | «include» span name =>
    refine start_bind trivial fun result => ?_
    rcases result with (fault | ⟨_, e⟩) | _
    · exact L.raise _ span
    · exact .pass e
    · exact .pure _
  | expr span e => exact start_bind (exprs (e := e) (by simp [Stmt.exprs])) fun value => .pure _
  | block span body => exact block fun t ht => children ht
  | ifThen span condition body =>
    refine start_bind (exprs (e := condition) (by simp [Stmt.exprs])) fun value => ?_
    split
    · exact block fun t ht => children ht
    · exact .pure _
  | ifElse span condition body otherwise =>
    refine start_bind (exprs (e := condition) (by simp [Stmt.exprs])) fun value => ?_
    split
    · exact block fun t ht => children (by simp [Stmt.children, ht])
    · exact block fun t ht => children (by simp [Stmt.children, ht])
  | «while» span condition body =>
    exact .start ⟨exprs (e := condition) (by simp [Stmt.exprs]), fun t ht => children ht⟩
  | loop span body => exact .start fun t ht => children ht
  | «for» span binding e body =>
    refine start_bind (exprs (e := e) (by simp [Stmt.exprs])) fun value => ?_
    exact .bind (L.ofOperation _ _) fun items => .start ⟨L.binding hs, fun t ht => children ht⟩
  | «return» span e => exact .bind (evaluateOr _ fun x hx => exprs hx) fun value => .pure _
  | «break» | «continue» => exact .pure _

omit L in
theorem executeAll (last : Option Value) {stmts : List Stmt} (hs : ∀ s ∈ stmts, R.code.stmt s) :
    (Plan.executeAll last stmts).KeepsTo R := by
  cases stmts with
  | nil => exact .pure _
  | cons s rest =>
    refine start_bind (hs s (by simp)) fun signal => ?_
    split
    · exact .start fun t ht => hs t (by simp [ht])
    · exact .pure _

omit L in
theorem whileLoop {condition : Expr} {body : List Stmt} (hc : R.code.expr condition)
    (hb : ∀ s ∈ body, R.code.stmt s) : (Plan.whileLoop condition body).KeepsTo R := by
  refine start_bind hc fun value => ?_
  split
  · exact .bind (block hb) fun signal => afterBody signal (.start ⟨hc, hb⟩)
  · exact .pure _

omit L in
theorem endlessLoop {body : List Stmt} (hb : ∀ s ∈ body, R.code.stmt s) :
    (Plan.endlessLoop body).KeepsTo R :=
  .bind (block hb) fun signal => afterBody signal (.start hb)

omit L in
theorem forLoop {binding : String} (items : List Value) {body : List Stmt} (hn : R.binds binding)
    (hb : ∀ s ∈ body, R.code.stmt s) : (Plan.forLoop binding items body).KeepsTo R := by
  cases items with
  | nil => exact .pure _
  | cons item rest =>
    refine .bind (.withScope (change_bind hn (.start hb))) fun signal => ?_
    exact afterBody signal (.start ⟨hn, hb⟩)

theorem assignTo {target : Expr} (ht : R.code.expr target) (value : Value) :
    (Plan.assignTo target value).KeepsTo R := by
  unfold Plan.assignTo
  split
  · exact L.raise _ _
  next place hp =>
    obtain ⟨span, root⟩ := R.code.exists_root ht hp
    refine start_bind ?_ fun indices => L.store (L.read root) _ _ _
    intro e he
    obtain ⟨p, hp', rfl⟩ := List.mem_map.mp he
    exact R.code.targetWith ht (by simp) hp p hp'

theorem runProgram (last : Option Value) {program : Program} (hp : ∀ s ∈ program, R.code.top s) :
    (Plan.runProgram last program).KeepsTo R := by
  cases program with
  | nil => exact .pure _
  | cons s rest =>
    refine start_bind (R.code.top_stmt (hp s (by simp))) fun signal => ?_
    cases signal with
    | normal value => exact .start fun t ht => hp t (by simp [ht])
    | «return» value => exact L.raise _ _
    | «break» => exact L.raise _ _
    | «continue» => exact L.raise _ _

theorem plan {j : Job α} (covers : R.Covers j) : j.plan.KeepsTo R := by
  cases j with
  | evaluate e => exact L.evaluate covers
  | evaluateAll es => exact evaluateAll covers
  | call name values span => exact L.call name values span
  | callUser name f values span => exact L.callUser covers.1 covers.2 values span
  | runBody function stmts => exact L.runBody function covers
  | perform action => exact L.perform covers
  | execute s => exact L.execute covers
  | executeAll last stmts => exact executeAll last covers
  | whileLoop condition body => exact whileLoop covers.1 covers.2
  | endlessLoop body => exact endlessLoop covers
  | forLoop binding items body => exact forLoop items covers.1 covers.2
  | assignTo target value => exact L.assignTo covers value
  | runProgram last program => exact L.runProgram last covers
  | load name => exact covers.elim

end Rules.Lawful

end Script
