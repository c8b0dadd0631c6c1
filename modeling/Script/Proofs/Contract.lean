import Script.Proofs.Ensures

namespace Script

/-- Whether evaluations make a change by themselves, and not only at the wish of host functions.
The definition of a function is not among these, nor what happens on the way to a module. -/
def Change.IsOwn : Change → Prop
  | declare .. | declareGlobal .. | assign .. => True
  | _ => False

/-- Whether host functions can make a change. Functions of programs are not theirs to define, and
modules are loaded for them. -/
def Change.ByHost : Change → Prop
  | define _ | mark _ | retain _ => False
  | _ => True

/-- Whether evaluations raise an error of this cause by themselves, wherever they are. -/
def Cause.IsOwn : Cause → Prop
  | recursionLimit _ | jumpAtTopLevel _ | jumpInFunction .. | builtin _ | host .. => False
  | _ => True

theorem Cause.IsOwn.kind_ne {cause : Cause} (h : cause.IsOwn) :
    cause.kind ≠ .controlFlow ∧ cause.kind ≠ .stackOverflow := by
  cases cause with
  | recursionLimit | jumpAtTopLevel | jumpInFunction | builtin | host => exact h.elim
  | _ => simp [kind]

/-- The program of a module that was found and can be parsed. -/
def Fetched.program? : Fetched → Option Program
  | found text => (parseProgram text.source).toOption
  | notFound _ | unreadable _ | unread _ => none

namespace Job

/-- Whether a job may give a value. -/
def Yields : {α : Type} → Job α → α → Prop
  | _, execute stmt, signal => signal.From (stmt.jumps ·)
  | _, executeAll _ stmts, signal => signal.From (Stmt.anyJumps · stmts)
  | _, whileLoop _ body, signal | _, endlessLoop body, signal | _, forLoop _ _ body, signal =>
    signal.From (Stmt.loopJumps body)
  | _, _, _ => True

/-- Whether nothing is to be said of a job but what holds of all. -/
def IsPlain {α : Type} : Job α → Prop
  | perform _ | callUser .. | load _ => False
  | _ => True

/-- Whether a job may be asked for from outside. The others are parts of calls. -/
def IsRun {α : Type} : Job α → Prop
  | perform _ | callUser .. => False
  | _ => True

end Job

/-- What evaluations rely on and keep. A ghost is what is known of the surroundings of an
evaluation. -/
structure Contract where
  Ghost : Type
  code : Ghost → Code
  /-- Holds where an evaluation starts, and where it ends with a value. -/
  Inv : Ghost → Interpreter → History → Prop
  /-- Holds where an evaluation ends with an error. -/
  Fail : Ghost → RuntimeError → Interpreter → History → Prop
  /-- Holds where a host function ends with an error of its own. -/
  HostFail : Ghost → RuntimeError → Interpreter → History → Prop
  Stop : Halt → History → Prop
  Raises : Cause → Prop
  /-- Whether a host function that was called under the first ghost may go on like this under the
  second one. -/
  Acts : Ghost → Ghost → HostAction → Interpreter → Prop

namespace Contract

variable (C : Contract)

/-- Whether what holds inside a stretch gives what has to hold behind it. -/
structure Closes (inner outer : C.Ghost) (possible : Interpreter → Bool)
    (undo : Interpreter → Interpreter) (events : History) : Prop where
  value : ∀ m h, C.Inv inner m h → possible m → C.Inv outer (undo m) (h ++ events)
  error : ∀ e m h, C.Fail inner e m h → possible m → C.Fail outer e (undo m) (h ++ events)
  possible_of_inv : ∀ m h, C.Inv inner m h → possible m ∨ C.Stop .fault h
  possible_of_fail : ∀ e m h, C.Fail inner e m h → possible m ∨ C.Stop .fault h

variable {C} in
theorem Closes.of_stop {inner outer : C.Ghost} {possible : Interpreter → Bool}
    {undo : Interpreter → Interpreter} {events : History}
    (value : ∀ m h, C.Inv inner m h → C.Inv outer (undo m) (h ++ events))
    (error : ∀ e m h, C.Fail inner e m h → C.Fail outer e (undo m) (h ++ events))
    (stop_of_inv : ∀ m h, C.Inv inner m h → C.Stop .fault h)
    (stop_of_fail : ∀ e m h, C.Fail inner e m h → C.Stop .fault h) :
    C.Closes inner outer possible undo events where
  value m h inv _ := value m h inv
  error e m h failed _ := error e m h failed
  possible_of_inv m h inv := .inr (stop_of_inv m h inv)
  possible_of_fail e m h failed := .inr (stop_of_fail e m h failed)

/-- Whether a host function may make a change and go on like this. -/
def Proceeds (i : C.Ghost) (c : Change) (next : HostAction) (m : Interpreter) (h : History) :
    Prop :=
  ∃ k, C.Inv k (c.apply m) (h ++ [.changed c]) ∧ C.Acts i k next (c.apply m)

/-- What a step of a host function that was called under `i` has to keep under `k`. -/
def Step (i k : C.Ghost) (m : Interpreter) (h : History) : HostAction → Prop
  | .finish (.ok _) => C.Inv i m h
  | .finish (.error e) => C.HostFail i e m h
  | .observe next => C.Acts i k (next m.view) m
  | .evaluate text next =>
    (∀ program, parseProgram text = .ok program → ∀ s ∈ program, (C.code k).top s) ∧
      (∀ e m h, C.Fail k e m h → C.Inv k m h) ∧
        ∀ result m h, C.Inv k m h → C.Acts i k (next result) m
  | .load _ next =>
    (∀ e m h, C.Fail k e m h → C.Inv k m h) ∧
      ∀ result m h, C.Inv k m h → C.Acts i k (next result) m
  | .set name value next => C.Proceeds i (.declare name value) next m h
  | .setGlobal name value next => C.Proceeds i (.declareGlobal name value) next m h
  | .assign name value next =>
    match m.environment.assign? name value with
    | some _ => C.Proceeds i (.assign name value) (next true) m h
    | none => C.Acts i k (next false) m
  | .pushScope next => C.Proceeds i .pushScope next m h
  | .popScope next => C.Proceeds i .popScope next m h
  | .setLimit limit next => C.Proceeds i (.setLimit limit) next m h
  | .setSource source next => C.Proceeds i (.setSource source) next m h
  | .print text next => C.Proceeds i (.print text) next m h
  | .readLine next => ∀ line console, m.world.console.readLine = (line, console) → line ≠ .unread →
    ∃ k', C.Inv k' (m.withConsole console) h ∧ C.Acts i k' (next line) (m.withConsole console)
  | .addBuiltin name arity call next => C.Proceeds i (.addBuiltin ⟨name, arity, call⟩) next m h
  | .register extension next => C.Proceeds i (.register extension) next m h
  | .newCell initial next => C.Proceeds i (.newCell initial) (next m.cells.size) m h
  | .readCell cell next => C.Acts i k (next (m.cells.getD cell .null)) m
  | .writeCell cell value next => C.Proceeds i (.writeCell cell value) next m h
  | .fault => C.Stop .fault h

variable {C} in
/-- A contract that lets host functions go on anyhow has to be kept by whatever they do. -/
theorem step_of_any {i k : C.Ghost} {m : Interpreter} {h : History} {action : HostAction}
    (acts : ∀ {k action m}, C.Acts i k action m) (code : ∀ s, (C.code k).top s)
    (settled : ∀ e m h, C.Fail k e m h → C.Inv k m h)
    (changed : ∀ {c : Change}, c.ByHost → C.Inv k (c.apply m) (h ++ [.changed c]))
    (read : ∀ console, C.Inv k (m.withConsole console) h) (done : C.Inv i m h)
    (failed : ∀ e, C.HostFail i e m h) (stopped : C.Stop .fault h) : C.Step i k m h action := by
  cases action with
  | finish result =>
    cases result with
    | ok value => exact done
    | error e => exact failed e
  | observe | readCell => exact acts
  | evaluate => exact ⟨fun _ _ s _ => code s, settled, fun _ _ _ _ => acts⟩
  | load => exact ⟨settled, fun _ _ _ _ => acts⟩
  | assign name value next =>
    simp only [Step]
    split
    · exact ⟨k, changed (c := .assign name value) trivial, acts⟩
    · exact acts
  | readLine => exact fun _ console _ _ => ⟨k, read console, acts⟩
  | fault => exact stopped
  | _ => exact ⟨k, changed trivial, acts⟩

/-- Whether a job that is a step of a host function is one that the function may go on with. -/
def Licensed {α : Type} (k : C.Ghost) (m : Interpreter) : Job α → Prop
  | .perform action => ∃ i, C.Acts i k action m
  | _ => True

/-- What has to be shown of a contract, step by step, for all evaluations to keep it. -/
structure Kept : Prop where
  started : ∀ {α : Type} {i m h} (job : Job α), C.Licensed i m job → C.Inv i m h →
    C.Inv i m (h ++ [.started job m.calls])
  changed : ∀ {i m h c}, c.IsOwn → C.Inv i m h → C.Inv i (c.apply m) (h ++ [.changed c])
  defined : ∀ {i m h f}, (∀ s ∈ f.body, (C.code i).body s) → C.Inv i m h →
    C.Inv i ((Change.define f).apply m) (h ++ [.changed (.define f)])
  raises : ∀ {cause}, cause.IsOwn → C.Raises cause
  raisesTop : ∀ {i s jump}, (C.code i).top s → s.jumps jump → C.Raises (.jumpAtTopLevel jump)
  raisesBody : ∀ {i s jump} (name), (C.code i).body s → s.jumps jump → jump ≠ .return →
    C.Raises (.jumpInFunction jump name)
  thrown : ∀ {i m h cause} (span), C.Raises cause → C.Inv i m h →
    C.Fail i ⟨cause, some span, m.calls.trace⟩ m
      (h ++ [.thrown ⟨cause, some span, m.calls.trace⟩ m.calls])
  located : ∀ {i e m h} (span), C.HostFail i e m h →
    C.Fail i (e.locate span m.calls.trace) m
      (h ++ [.thrown (e.locate span m.calls.trace) m.calls])
  overflowed : ∀ {i m h} (span), C.Inv i m h → m.calls.isFull →
    C.Fail i (m.calls.overflow span) m (h ++ [.thrown (m.calls.overflow span) m.calls])
  scope : ∀ {i m h}, C.Inv i m h → ∃ k, C.code k = C.code i ∧ C.Inv k m.enterScope h ∧
    C.Closes k i Interpreter.canLeaveScope Interpreter.leaveScope []
  call : ∀ {i m h name f span arguments} (values), C.Inv i m h →
    (C.code i).expr (.call span name arguments) → m.functions.resolve name = some (.user f) →
    ¬m.calls.isFull →
    ∃ k, (∀ s ∈ f.body, (C.code k).body s) ∧
      C.Inv k (m.enterCall ⟨f.name, m.file, span.line⟩)
        (h ++ [.started (.callUser name f values span) m.calls,
          .entered ⟨f.name, m.file, span.line⟩]) ∧
      C.Closes k i Interpreter.canLeaveCall Interpreter.leaveCall [.left]
  /-- A module is asked for that cannot be run. -/
  missed : ∀ {i m h name log result}, C.Inv i m h → m.modules.mark? name = some log →
    m.source.fetch name = result → result.program? = none → (∀ path, result ≠ .unread path) →
    C.Inv i ((Change.mark name).apply m) (h ++ [.changed (.mark name), .fetched name result])
  awaited : ∀ {i m h name log path}, C.Inv i m h → m.modules.mark? name = some log →
    m.source.fetch name = .unread path →
    C.Stop (.awaitsFile path) (h ++ [.changed (.mark name), .fetched name (.unread path)])
  module : ∀ {i m h name log text program}, C.Inv i m h → m.modules.mark? name = some log →
    m.source.fetch name = .found text → parseProgram text.source = .ok program →
    ∃ k, (∀ s ∈ program, (C.code k).top s) ∧
      C.Inv k (((Change.retain program).apply ((Change.mark name).apply m)).enterModule text.origin)
        (h ++ [.changed (.mark name), .fetched name (.found text), .changed (.retain program),
          .began text.origin]) ∧
      C.Closes k i (fun _ => true) (Interpreter.leaveModule m.environment.locals m.file) [.ended]
  builtin : ∀ {i m h name b span arguments values}, C.Inv i m h →
    (C.code i).expr (.call span name arguments) → m.functions.resolve name = some (.builtin b) →
    b.arity.unmet? (List.length values) = none → C.Acts i i (b.call values) m
  step : ∀ {i k m h action}, C.Acts i k action m → C.Inv k m h → C.Step i k m h action
  halted : ∀ {i m h reason}, reason ≠ .fault → C.Inv i m h → C.Stop reason h

/-- What holds where a job is started. -/
def Pre {α : Type} (i : C.Ghost) : Job α → Interpreter → History → Prop
  | .perform action, m, h => ∃ k, C.Acts i k action m ∧ C.Inv k m h
  | .callUser name f values span, m, h =>
    C.Inv i m h ∧ (C.code i).Admits (.callUser name f values span) ∧
      m.functions.resolve name = some (.user f)
  | job, m, h => C.Inv i m h ∧ (C.code i).Admits job

/-- What holds where a plan ends, with `P` for its value. -/
abbrev gives {α : Type} (i : C.Ghost) (P : α → Prop) : Post α :=
  ⟨fun a m h => P a ∧ C.Inv i m h, C.Fail i, C.Stop⟩

/-- What holds where a module has been loaded. The failed execution of a module is a value of its
loading, which never ends with an error. -/
def Loaded (i : C.Ghost) : Except ModuleError Unit → Interpreter → History → Prop
  | .error (.execution _ e), m, h => C.Fail i e m h
  | _, m, h => C.Inv i m h

/-- What holds where a source text has been evaluated, which never ends with an error either. -/
def Evaluated (i : C.Ghost) : Except ScriptError Value → Interpreter → History → Prop
  | .error (.runtime e), m, h => C.Fail i e m h
  | _, m, h => C.Inv i m h

def post : {α : Type} → C.Ghost → Job α → Post α
  | _, i, .perform _ => ⟨fun _ => C.Inv i, C.HostFail i, C.Stop⟩
  | _, i, .load _ => ⟨C.Loaded i, fun _ _ _ => False, C.Stop⟩
  | _, i, job => C.gives i job.Yields

/-- Whether jobs are done as the contract wants. -/
def Meets (job : Recorder) : Prop :=
  ∀ (i : C.Ghost) {β : Type} (j : Job β) (m : Interpreter) (h : History),
    C.Pre i j m h → (C.post i j).Holds (job β j m h)

end Contract

end Script
