import Script.Proofs.Balance
import Script.Proofs.Isolation
import Script.Proofs.Survival

namespace Script

/-- Whether a host function closes no scopes but those that it has opened itself, of which there
are this many so far. Builtins that it adds have to do the same. -/
def HostAction.PopsOwn : HostAction → Nat → Prop
  | finish _, _ => True
  | observe next, opened => ∀ view, (next view).PopsOwn opened
  | evaluate _ next, opened => ∀ result, (next result).PopsOwn opened
  | load _ next, opened => ∀ result, (next result).PopsOwn opened
  | assign _ _ next, opened => ∀ done, (next done).PopsOwn opened
  | pushScope next, opened => next.PopsOwn (opened + 1)
  | popScope next, opened => 0 < opened ∧ next.PopsOwn (opened - 1)
  | readLine next, opened => ∀ line, line ≠ .unread → (next line).PopsOwn opened
  | addBuiltin _ arity call next, opened =>
    (∀ values, arity.unmet? (List.length values) = none → (call values).PopsOwn 0) ∧
      next.PopsOwn opened
  | newCell _ next, opened => ∀ cell, (next cell).PopsOwn opened
  | readCell _ next, opened => ∀ value, (next value).PopsOwn opened
  | set _ _ next, opened | setGlobal _ _ next, opened | setLimit _ next, opened
  | setSource _ next, opened | print _ next, opened | register _ next, opened
  | writeCell _ _ next, opened => next.PopsOwn opened
  | fault, _ => False

def Builtin.PopsOwn (b : Builtin) : Prop :=
  ∀ values, b.arity.unmet? (List.length values) = none → (b.call values).PopsOwn 0

theorem HostAction.Plain.popsOwn {action : HostAction} (h : action.Plain) (opened : Nat) :
    action.PopsOwn opened := by
  induction h with
  | ok | refuse => trivial
  | observe hn ih => exact fun view => ih view
  | setLimit limit hn ih => exact ih
  | print text hn ih => exact ih
  | readLine hn ih => exact fun line hl => ih line hl

theorem Standard.popsOwn_of_mem {b : Builtin} (hb : b ∈ Standard.builtins) : b.PopsOwn :=
  fun _ hv => (Standard.plain_of_mem hb hv).popsOwn 0

/-- The numbers of scopes that host functions have opened and not closed, in the running module and
in each of those that it has interrupted, after an event. -/
def Event.count (left : List Nat) : Event → List Nat
  | changed .pushScope => left.modifyHead (· + 1)
  | changed .popScope => left.modifyHead (· - 1)
  | began _ => 0 :: left
  | ended => left.tail
  | _ => left

namespace History

def counts (h : History) : List Nat := h.foldl Event.count [0]

def leftBehind (h : History) : Nat := h.counts.headD 0

theorem counts_append (h events : History) :
    counts (h ++ events) = events.foldl Event.count h.counts := List.foldl_append

end History

/-- Where an evaluation has begun: the number of local scopes, without those that host functions
have left behind, the scopes that have been opened by host functions which are still running, the
counts of the modules that are interrupted, and the active calls. -/
structure Ground where
  base : Nat
  opened : Nat
  outer : List Nat
  calls : List Frame

/-- The ground of a stretch with a scope of its own. -/
def Ground.inScope (g : Ground) : Ground := { g with base := g.base + 1 }

def Ground.inCall (g : Ground) (frame : Frame) : Ground :=
  { g with base := g.base + 1, calls := g.calls ++ [frame] }

/-- The ground of a module, which finds no local scopes. -/
def Ground.inModule (g : Ground) (left : Nat) : Ground :=
  { g with base := 0, opened := 0, outer := left :: g.outer }

/-- What holds between two steps of evaluations. -/
structure Interpreter.Leaves (g : Ground) (m : Interpreter) (h : History) : Prop where
  scopes : ∃ n, h.counts = n :: g.outer ∧ g.opened ≤ n ∧ m.environment.locals.length = g.base + n
  calls : m.calls.trace = g.calls
  host : m.OffersOnly Builtin.PopsOwn

namespace Interpreter.Leaves

variable {g : Ground} {m m' : Interpreter} {h : History}

theorem note (l : m.Leaves g h) {events : History}
    (quiet : ∀ left, events.foldl Event.count left = left)
    (depth : m'.environment.depth = m.environment.depth) (calls : m'.calls.trace = m.calls.trace)
    (host : m'.OffersOnly Builtin.PopsOwn) : m'.Leaves g (h ++ events) := by
  obtain ⟨n, counts, opened, length⟩ := l.scopes
  refine ⟨⟨n, ?_, opened, ?_⟩, calls.trans l.calls, host⟩
  · rw [History.counts_append, quiet, counts]
  · exact (Nat.succ.inj depth).trans length

theorem note_eq (l : m.Leaves g h) {events : History}
    (quiet : ∀ left, events.foldl Event.count left = left) : m.Leaves g (h ++ events) :=
  l.note quiet rfl rfl l.host

theorem enterScope (l : m.Leaves g h) : m.enterScope.Leaves g.inScope h := by
  obtain ⟨n, counts, opened, length⟩ := l.scopes
  refine ⟨⟨n, counts, opened, ?_⟩, l.calls, l.host.of_eq rfl⟩
  change m.environment.locals.length + 1 = g.base + 1 + n
  omega

theorem enterCall (l : m.Leaves g h) (frame : Frame) :
    (m.enterCall frame).Leaves (g.inCall frame) h := by
  obtain ⟨n, counts, opened, length⟩ := l.scopes
  refine ⟨⟨n, counts, opened, ?_⟩, ?_, l.host.of_eq rfl⟩
  · change m.environment.locals.length + 1 = g.base + 1 + n
    omega
  · simp only [Interpreter.enterCall, CallStack.trace_push, l.calls, Ground.inCall]

theorem pop_scopes {n : Nat} (length : m.environment.locals.length = g.base + 1 + n) :
    ¬m.environment.isGlobal ∧ m.environment.pop.locals.length = g.base + n := by
  have tail : m.environment.pop.locals.length = m.environment.locals.length - 1 :=
    List.length_tail
  rw [isGlobal_iff, Environment.depth]
  omega

theorem leaveScope (l : m.Leaves g.inScope h) : m.canLeaveScope ∧ m.leaveScope.Leaves g h := by
  obtain ⟨n, counts, opened, length⟩ := l.scopes
  obtain ⟨inside, popped⟩ := pop_scopes length
  refine ⟨by simpa [canLeaveScope] using inside, ⟨n, counts, opened, popped⟩, l.calls, ?_⟩
  exact l.host.of_eq rfl

theorem leaveCall {frame : Frame} (l : m.Leaves (g.inCall frame) h) :
    m.canLeaveCall ∧ m.leaveCall.Leaves g h := by
  obtain ⟨n, counts, opened, length⟩ := l.scopes
  obtain ⟨inside, popped⟩ := pop_scopes length
  have calls : m.calls.trace = g.calls ++ [frame] := l.calls
  have called : ¬m.calls.isEmpty := CallStack.not_isEmpty_of_trace calls
  refine ⟨by simp [canLeaveCall, inside, called], ⟨n, counts, opened, popped⟩, ?_, ?_⟩
  · simp only [Interpreter.leaveCall, CallStack.trace_pop, calls, List.dropLast_concat]
  · exact l.host.of_eq rfl

end Interpreter.Leaves

namespace Contract

/-- Evaluations close the scopes that they open, and leave open those that host functions do. -/
abbrev leaving : Contract where
  Ghost := Ground
  code _ := .all
  Inv g m h := m.Leaves g h
  Fail g _ m h := m.Leaves g h
  HostFail g _ m h := m.Leaves g h
  Stop reason _ := reason ≠ .fault
  Raises _ := True
  Acts outer inner action _ :=
    ∃ opened, inner = { outer with opened := outer.opened + opened } ∧ action.PopsOwn opened

variable {g : Ground} {m : Interpreter} {h : History}

theorem leaving_proceeds {opened : Nat} {c : Change} {next : HostAction}
    (l : m.Leaves { g with opened := g.opened + opened } h)
    (quiet : ∀ left, Event.count left (.changed c) = left)
    (depth : (c.apply m).environment.depth = m.environment.depth)
    (host : (c.apply m).OffersOnly Builtin.PopsOwn) (hn : next.PopsOwn opened) :
    leaving.Proceeds g c next m h :=
  ⟨_, l.note quiet depth (Interpreter.trace_apply c) host, opened, rfl, hn⟩

theorem leaving_step {k : Ground} {action : HostAction} (acts : leaving.Acts g k action m)
    (l : m.Leaves k h) : leaving.Step g k m h action := by
  obtain ⟨opened, rfl, own⟩ := acts
  cases action with
  | finish result =>
    obtain ⟨n, counts, le, length⟩ := l.scopes
    have done : m.Leaves g h := ⟨⟨n, counts, Nat.le_of_add_right_le le, length⟩, l.calls, l.host⟩
    cases result with
    | ok value => exact done
    | error e => exact done
  | observe next => exact ⟨opened, rfl, own m.view⟩
  | evaluate text next =>
    exact ⟨fun _ _ _ _ => trivial, fun _ _ _ failed => failed,
      fun result m' _ _ => ⟨opened, rfl, own result⟩⟩
  | load name next =>
    exact ⟨fun _ _ _ failed => failed, fun result m' _ _ => ⟨opened, rfl, own result⟩⟩
  | assign name value next =>
    simp only [Step]
    split
    next updated found =>
      refine leaving_proceeds l (fun _ => rfl) ?_ (l.host.apply (by simp)) (own true)
      exact congrArg Shape.scopes
        (Interpreter.shape_apply_of_isOwn (c := .assign name value) trivial)
    next => exact ⟨opened, rfl, own false⟩
  | set name value next =>
    refine leaving_proceeds l (fun _ => rfl) ?_ (l.host.apply (by simp)) own
    exact Environment.depth_set _ _ _
  | setGlobal name value next =>
    exact leaving_proceeds l (fun _ => rfl) rfl (l.host.apply (by simp)) own
  | pushScope next =>
    obtain ⟨n, counts, le, length⟩ := l.scopes
    have le : g.opened + opened ≤ n := le
    have length : m.environment.locals.length = g.base + n := length
    have pushed : (Change.pushScope.apply m).environment.locals.length = g.base + (n + 1) :=
      congrArg (· + 1) length
    refine ⟨{ g with opened := g.opened + (opened + 1) }, ⟨⟨n + 1, ?_, ?_, pushed⟩, ?_, ?_⟩,
      opened + 1, rfl, own⟩
    · rw [History.counts_append, counts]
      rfl
    · change g.opened + (opened + 1) ≤ n + 1
      omega
    · exact l.calls
    · exact l.host.apply (by simp)
  | popScope next =>
    obtain ⟨some_opened, own⟩ := own
    obtain ⟨n, counts, le, length⟩ := l.scopes
    have le : g.opened + opened ≤ n := le
    have length : m.environment.locals.length = g.base + n := length
    have popped : (Change.popScope.apply m).environment.locals.length = g.base + (n - 1) := by
      have tail : (Change.popScope.apply m).environment.locals.length =
          m.environment.locals.length - 1 := List.length_tail
      omega
    refine ⟨{ g with opened := g.opened + (opened - 1) }, ⟨⟨n - 1, ?_, ?_, popped⟩, ?_, ?_⟩,
      opened - 1, rfl, own⟩
    · rw [History.counts_append, counts]
      rfl
    · change g.opened + (opened - 1) ≤ n - 1
      omega
    · exact l.calls
    · exact l.host.apply (by simp)
  | readLine next =>
    refine fun line console _ hl => ⟨_, ?_, opened, rfl, own line hl⟩
    exact ⟨l.scopes, l.calls, l.host.of_eq rfl⟩
  | addBuiltin name arity call next =>
    have added : Builtin.PopsOwn ⟨name, arity, call⟩ := own.1
    exact leaving_proceeds l (fun _ => rfl) rfl (l.host.addBuiltin added) own.2
  | newCell initial next =>
    exact leaving_proceeds l (fun _ => rfl) rfl (l.host.apply (by simp)) (own _)
  | readCell cell next => exact ⟨opened, rfl, own _⟩
  | fault => exact own.elim
  | _ => exact leaving_proceeds l (fun _ => rfl) rfl (l.host.apply (by simp)) own

theorem leaving_closes {inner outer : Ground} {possible : Interpreter → Bool}
    {undo : Interpreter → Interpreter} {events : History}
    (leave : ∀ (m : Interpreter) h, m.Leaves inner h →
      possible m ∧ (undo m).Leaves outer (h ++ events)) :
    leaving.Closes inner outer possible undo events where
  value m h inv _ := (leave m h inv).2
  error _ m h failed _ := (leave m h failed).2
  possible_of_inv m h inv := .inl (leave m h inv).1
  possible_of_fail _ m h failed := .inl (leave m h failed).1

theorem leaving_kept : leaving.Kept where
  started _ _ l := l.note_eq fun _ => rfl
  changed {_ m _ c} own l := by
    refine l.note ?_ ?_ (Interpreter.trace_apply c) (l.host.apply own.keepsHost.ne_addBuiltin)
    · cases c with
      | declare | declareGlobal | assign => exact fun _ => rfl
      | _ => exact own.elim
    · exact congrArg Shape.scopes (Interpreter.shape_apply_of_isOwn own)
  defined _ l := l.note (fun _ => rfl) rfl rfl (l.host.apply (by simp))
  raises _ := trivial
  raisesTop _ _ := trivial
  raisesBody _ _ _ _ := trivial
  thrown _ _ l := l.note_eq fun _ => rfl
  located _ l := l.note_eq fun _ => rfl
  overflowed _ l _ := l.note_eq fun _ => rfl
  scope {g _ _} l :=
    ⟨g.inScope, rfl, l.enterScope, leaving_closes fun _ _ inner =>
      ⟨inner.leaveScope.1, inner.leaveScope.2.note_eq fun _ => rfl⟩⟩
  call {g _ _ _ _ _ _} values l _ _ _ :=
    ⟨g.inCall _, fun _ _ => trivial, (l.enterCall _).note_eq fun _ => rfl,
      leaving_closes fun _ _ inner =>
        ⟨inner.leaveCall.1, inner.leaveCall.2.note_eq fun _ => rfl⟩⟩
  missed l _ _ _ _ := l.note (fun _ => rfl) rfl rfl (l.host.of_eq rfl)
  awaited _ _ _ := by simp
  module {g m h name log text program} l _ _ _ := by
    obtain ⟨n, counts, opened, length⟩ := l.scopes
    refine ⟨g.inModule n, fun _ _ => trivial, ⟨⟨0, ?_, Nat.le_refl 0, rfl⟩, ?_, ?_⟩, ?_⟩
    · rw [History.counts_append, counts]
      rfl
    · exact l.calls
    · exact l.host.of_eq rfl
    · refine leaving_closes fun m' h' inner => ⟨rfl, ⟨n, ?_, opened, length⟩, ?_, ?_⟩
      · obtain ⟨_, counts, -, -⟩ := inner.scopes
        rw [History.counts_append, counts]
        rfl
      · exact inner.calls
      · exact inner.host.of_eq rfl
  builtin l _ hr hv := ⟨0, rfl, l.host.of_resolve hr _ hv⟩
  step acts l := leaving_step acts l
  halted hr _ := hr

end Contract

namespace Environment

theorem has_iff (e : Environment) (x : String) : e.has x ↔ ∃ scope ∈ e.scopes, scope.has x := by
  rw [has, get?_eq_findSome?, List.findSome?_isSome_iff]
  simp [bindings, Dictionary.has]

/-- How the scopes are at the end of a stretch with one of its own, from those found at its
beginning and those at the end of its body, when `n` scopes have been left open in it. -/
structure Strands (found inner after : Environment) (n : Nat) : Prop where
  scopes : after.scopes = inner.scopes.dropLast
  inner_depth : inner.depth = found.depth + 1 + n
  depth : after.depth = found.depth + n
  /-- With none of them, all is closed that has been opened. -/
  restored : n = 0 → ∀ x, after.has x ↔ ∃ scope ∈ inner.scopes.take found.depth, scope.has x
  /-- With some of them, the stretch's own scope is not closed. -/
  stranded : n ≠ 0 → ∀ x scope, inner.scopes[found.depth]? = some scope → scope.has x → after.has x

theorem strands_pop {found inner : Environment} {n : Nat}
    (deep : inner.depth = found.depth + 1 + n) : found.Strands inner inner.pop n := by
  have positive := one_le_depth found
  have inside : ¬inner.isGlobal := not_isGlobal_of_depth (by omega)
  have length : inner.scopes.length = found.depth + 1 + n := deep ▸ length_scopes inner
  have popped := depth_pop inside
  refine ⟨scopes_pop inside, deep, by omega, fun none_left x => ?_, ?_⟩
  · rw [has_iff, scopes_pop inside, List.dropLast_eq_take, length]
    simp [none_left]
  · intro some_left x scope opened bound
    have stays : inner.scopes.dropLast[found.depth]? = some scope := by
      rw [List.getElem?_dropLast, if_pos (by omega), opened]
    rw [has_iff, scopes_pop inside]
    exact ⟨scope, List.mem_of_getElem? stays, bound⟩

end Environment

/-- The stretches of an evaluation that have a scope of their own. -/
inductive Stretch : Type → Type where
  /-- A block, be it the body of a branch or one turn of a `while` or an endless loop. -/
  | block (stmts : List Stmt) : Stretch Signal
  /-- One turn of a loop over items. -/
  | iteration (binding : String) (item : Value) (stmts : List Stmt) : Stretch Signal
  | call (function : Function) (values : List Value) (frame : Frame) (span : Span) : Stretch Value

namespace Stretch

variable {α : Type}

/-- What is done inside of the scope. -/
def body : {α : Type} → Stretch α → Plan α
  | _, block stmts => .start (.executeAll none stmts)
  | _, iteration binding item stmts => do
    .change (.declare binding item)
    .start (.executeAll none stmts)
  | _, call function values _ _ => do
    Plan.bindAll function.parameters values
    .start (.runBody function.name function.body)

def plan : {α : Type} → Stretch α → Plan α
  | _, s@(call _ _ frame span) => .withCall frame span s.body
  | _, s => .withScope s.body

/-- The scopes that evaluations open are those of such stretches. -/
theorem plan_eq :
    (∀ span stmts, Plan.execute (.block span stmts) = (block stmts).plan) ∧
    (∀ span condition stmts, Plan.execute (.ifThen span condition stmts) = do
      let value ← Plan.start (.evaluate condition)
      if value.truthy then (block stmts).plan else pure (.normal none)) ∧
    (∀ span condition stmts otherwise,
      Plan.execute (.ifElse span condition stmts otherwise) = do
        let value ← Plan.start (.evaluate condition)
        if value.truthy then (block stmts).plan else (block otherwise).plan) ∧
    (∀ condition stmts, Plan.whileLoop condition stmts = do
      let value ← Plan.start (.evaluate condition)
      if value.truthy then
        let signal ← (block stmts).plan
        Plan.afterBody signal (.start (.whileLoop condition stmts))
      else pure (.normal none)) ∧
    (∀ stmts, Plan.endlessLoop stmts = do
      let signal ← (block stmts).plan
      Plan.afterBody signal (.start (.endlessLoop stmts))) ∧
    (∀ binding item rest stmts, Plan.forLoop binding (item :: rest) stmts = do
      let signal ← (iteration binding item stmts).plan
      Plan.afterBody signal (.start (.forLoop binding rest stmts))) ∧
    ∀ f values span, values.length = f.parameters.length →
      Plan.callUser f values span = (do
        let m ← Plan.get
        (call f values ⟨f.name, m.file, span.line⟩ span).plan) := by
  refine ⟨fun _ _ => rfl, fun _ _ _ => rfl, fun _ _ _ _ => rfl, fun _ _ => rfl, fun _ => rfl,
    fun _ _ _ _ => rfl, fun f values span given => ?_⟩
  rw [Plan.callUser, if_pos given]
  rfl

/-- The state in which the body is begun. No scope is opened for a call that is one too many. -/
def enter? (m : Interpreter) : Stretch α → Option Interpreter
  | call _ _ frame _ => if m.calls.isFull then none else some (m.enterCall frame)
  | _ => some m.enterScope

def close (o : Outcome α) : Stretch α → Outcome α
  | call .. => o.close Interpreter.canLeaveCall Interpreter.leaveCall
  | _ => o.close Interpreter.canLeaveScope Interpreter.leaveScope

def ground (g : Ground) : Stretch α → Ground
  | call _ _ frame _ => g.inCall frame
  | _ => g.inScope

variable {s : Stretch α} {g : Ground} {m began inner : Interpreter} {h : History}

theorem base_ground : (s.ground g).base = g.base + 1 := by cases s <;> rfl

theorem run_plan (job : Runner) (entered : s.enter? m = some began) :
    s.plan.run job m = s.close (s.body.run job began) := by
  cases s with
  | block | iteration =>
    obtain rfl := Option.some.inj entered
    rfl
  | call function values frame span =>
    by_cases full : m.calls.isFull
    · simp [enter?, full] at entered
    · have opened : m.enterCall frame = began := by simpa [enter?, full] using entered
      simp only [plan, Plan.run, Run.withCall, if_neg full, opened, close]

theorem leaves_enter (l : m.Leaves g h) (entered : s.enter? m = some began) :
    began.Leaves (s.ground g) h := by
  cases s with
  | block | iteration =>
    obtain rfl := Option.some.inj entered
    exact l.enterScope
  | call function values frame span =>
    by_cases full : m.calls.isFull
    · simp [enter?, full] at entered
    · have opened : m.enterCall frame = began := by simpa [enter?, full] using entered
      exact opened ▸ l.enterCall frame

theorem exists_close (l : inner.Leaves (s.ground g) h) :
    ∃ after, after.environment = inner.environment.pop ∧ after.Leaves g h ∧
      (∀ a, s.close (.value a inner) = .value a after) ∧
      ∀ e, s.close (.error e inner) = .error e after := by
  cases s with
  | block | iteration =>
    obtain ⟨possible, left⟩ := l.leaveScope
    exact ⟨inner.leaveScope, rfl, left, fun a => by simp [close, Outcome.close, possible],
      fun e => by simp [close, Outcome.close, possible]⟩
  | call =>
    obtain ⟨possible, left⟩ := l.leaveCall
    exact ⟨inner.leaveCall, rfl, left, fun a => by simp [close, Outcome.close, possible],
      fun e => by simp [close, Outcome.close, possible]⟩

theorem ensures_body (s : Stretch α) (fuel : Nat) (l : m.Leaves g h) :
    s.body.Ensures (fun _ j => Job.record fuel j) (Contract.leaving.gives g fun _ => True) m h := by
  have meets := Contract.leaving_kept.meets fuel
  cases s with
  | block stmts =>
    exact meets.start l (Code.all_admits (.executeAll none stmts)) fun _ _ _ _ l => ⟨trivial, l⟩
  | iteration binding item stmts =>
    refine Plan.ensures_change_bind ?_
    refine meets.start (Contract.leaving_kept.changed (c := .declare binding item) trivial l)
      (Code.all_admits (.executeAll none stmts)) fun _ _ _ _ l => ⟨trivial, l⟩
  | call function values frame span =>
    refine Plan.ensures_bind (Contract.leaving_kept.bindAll _ _ (fun m h l => ?_) l)
    exact meets.start l (Code.all_admits (.runBody function.name function.body))
      fun _ _ _ _ l => ⟨trivial, l⟩

/-- A stretch ends as its body does, and its end takes away one scope. -/
theorem ends_close {o : Outcome α}
    (ended : (Contract.leaving.gives (s.ground g) fun _ => True).Holds (o, h)) :
    (s.close o).value? = o.value? ∧ (s.close o).error? = o.error? ∧
      (∀ m', s.close o ≠ .halted .fault m') ∧
      ∀ inner after, o.left? = some inner → (s.close o).left? = some after →
        after.environment = inner.environment.pop ∧ inner.Leaves (s.ground g) h := by
  cases o with
  | value a inner =>
    obtain ⟨after, popped, -, value, -⟩ := exists_close ended.2
    rw [value]
    refine ⟨rfl, rfl, nofun, fun _ _ hi ha => ?_⟩
    obtain rfl := Option.some.inj hi
    obtain rfl := Option.some.inj ha
    exact ⟨popped, ended.2⟩
  | error e inner =>
    obtain ⟨after, popped, -, -, error⟩ := exists_close ended
    rw [error]
    refine ⟨rfl, rfl, nofun, fun _ _ hi ha => ?_⟩
    obtain rfl := Option.some.inj hi
    obtain rfl := Option.some.inj ha
    exact ⟨popped, ended⟩
  | halted reason inner =>
    have halts : s.close (.halted reason inner) = .halted reason inner := by cases s <;> rfl
    rw [halts]
    refine ⟨rfl, rfl, fun m' same => ?_, nofun⟩
    cases same
    exact ended rfl

end Stretch

/-- What a stretch of an evaluation leaves behind. It ends as its body does, and its end closes the
innermost scope, whichever that is. So the scopes that host functions have opened in its course and
not closed are not closed either: as many of those there are, as many scopes there are more than
before, and the stretch's own scope is among them, with the names that it binds, unless there are
none. A module takes all of them away. -/
theorem scopes_left_behind {α : Type} (s : Stretch α) (fuel : Nat) (m began : Interpreter)
    (entered : s.enter? m = some began) (host : m.OffersOnly Builtin.PopsOwn) :
    let inside := s.body.record (fun _ j => Job.record fuel j) began []
    let o := s.plan.run (Job.runner fuel) m
    o.value? = inside.1.value? ∧ o.error? = inside.1.error? ∧ (∀ m', o ≠ .halted .fault m') ∧
    (∀ inner after, inside.1.left? = some inner → o.left? = some after →
      (after.environment.depth = m.environment.depth ↔ inside.2.leftBehind = 0) ∧
      m.environment.Strands inner.environment after.environment inside.2.leftBehind) ∧
    ∀ name after, (Run.load fuel name m).left? = some after →
      after.environment.locals = m.environment.locals := by
  intro inside o
  have found : m.Leaves ⟨m.environment.locals.length, 0, [], m.calls.trace⟩ [] :=
    ⟨⟨0, rfl, Nat.le_refl 0, rfl⟩, rfl, host⟩
  have ended := Stretch.ends_close (s.ensures_body fuel (s.leaves_enter found entered))
  have runs : o = s.close inside.1 := by
    rw [Plan.record_outcome fun _ j m h => Job.record_outcome fuel j m h]
    exact s.run_plan _ entered
  rw [← runs] at ended
  obtain ⟨value, error, sound, ends⟩ := ended
  refine ⟨value, error, sound, fun inner after hi ha => ?_, fun _ _ => Run.locals_of_load⟩
  obtain ⟨popped, l⟩ := ends inner after hi ha
  obtain ⟨n, counts, -, length⟩ := l.scopes
  have left : inside.2.leftBehind = n := by rw [History.leftBehind, counts]; rfl
  have strands : m.environment.Strands inner.environment after.environment n := by
    rw [popped]
    refine Environment.strands_pop ?_
    rw [Stretch.base_ground] at length
    simp only [Environment.depth] at length ⊢
    omega
  have depth := strands.depth
  rw [left]
  exact ⟨by omega, strands⟩

/-- A builtin that opens a scope and leaves it open. -/
def Builtin.openScope : Builtin where
  name := "open_scope"
  arity := .exactly 0
  call _ := .pushScope (.ok .null)

def Interpreter.opening : Interpreter := (Change.addBuiltin .openScope).apply .fresh

/-- Opens a scope by the builtin. -/
def Stmt.openScope : Stmt := .expr ⟨0, 1, 1⟩ (.call ⟨0, 1, 1⟩ "open_scope" [])

/-- A call of a function that opens a scope by the builtin and returns its argument. -/
def Stretch.opening : Stretch Value :=
  .call ⟨"f", ["n"], [.openScope, .return ⟨0, 1, 1⟩ (some (.name ⟨0, 1, 1⟩ "n"))], ⟨0, 1, 1⟩⟩
    [.int 1] ⟨"f", "<script>", 1⟩ ⟨0, 1, 1⟩

theorem scopes_left_behind_call : ∃ after : Interpreter,
    (Stretch.opening.plan.run (Job.runner 20) .opening).left? = some after ∧
    Interpreter.opening.environment.depth = 1 ∧ after.environment.depth = 2 ∧
    after.environment.has "n" := by
  let began := Interpreter.opening.enterCall ⟨"f", "<script>", 1⟩
  let inside := Stretch.opening.body.record (fun _ j => Job.record 20 j) began []
  have ends : (Stretch.opening.plan.run (Job.runner 20) .opening).left?.isSome ∧
      inside.2.leftBehind = 1 ∧
      (inside.1.left?.bind fun m => (m.environment.scopes[1]?).map (·.has "n")) = some true := by
    decide +kernel
  obtain ⟨done, one, names⟩ := ends
  obtain ⟨after, left⟩ := Option.isSome_iff_exists.mp done
  obtain ⟨inner, ended, names⟩ := Option.bind_eq_some_iff.mp names
  obtain ⟨scope, opened, bound⟩ := Option.map_eq_some_iff.mp names
  have host : Interpreter.opening.OffersOnly Builtin.PopsOwn :=
    .addBuiltin (Interpreter.offersOnly_fresh.imp fun _ => Standard.popsOwn_of_mem)
      fun _ _ => trivial
  obtain ⟨-, -, -, ends, -⟩ := scopes_left_behind .opening 20 .opening began rfl host
  have strands := (ends inner after ended left).2
  refine ⟨after, left, rfl, ?_, ?_⟩
  · rw [strands.depth, one]
    rfl
  · exact strands.stranded (by rw [one]; decide) "n" scope opened bound

/-- A block that declares a variable and opens a scope by the builtin. -/
def Stmt.opening : Stmt :=
  .block ⟨0, 1, 1⟩ [.var ⟨0, 1, 1⟩ "a" (some (.literal ⟨0, 1, 1⟩ (.int 1))), .openScope]

/-- The end of a block does not always close the scope that has been opened for it. -/
theorem block_left_open : ∃ after : Interpreter,
    (Run.execute 20 .opening .opening).left? = some after ∧
    Interpreter.opening.environment.depth = 1 ∧ after.environment.depth = 2 ∧
    Interpreter.opening.environment.has "a" = false ∧
    (after.environment.get? "a").bind Value.int? = some 1 := by
  have ends : (Run.execute 20 .opening .opening).left?.map (fun m =>
      (m.environment.depth, (m.environment.get? "a").bind Value.int?)) = some (2, some 1) := by
    decide +kernel
  obtain ⟨after, left, state⟩ := Option.map_eq_some_iff.mp ends
  obtain ⟨depth, read⟩ := Prod.mk.inj state
  exact ⟨after, left, rfl, depth, rfl, read⟩

end Script
