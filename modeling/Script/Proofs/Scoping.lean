import Script.Proofs.Isolation
import Script.Proofs.Rules

namespace Script

namespace Environment

/-- The names that each scope binds, the global scope first, in the order in which they were
entered. -/
def names (e : Environment) : List (List String) := e.scopes.map Dictionary.keys

/-- The same of the scopes above the global one, innermost first. -/
def localNames (e : Environment) : List (List String) := e.locals.map Dictionary.keys

theorem names_eq (e : Environment) : e.names = e.globals.keys :: e.localNames.reverse := by
  simp [names, scopes, localNames]

/-- Whether no scope has lost a name, and at most the global scope has got new ones. -/
structure Retains (e e' : Environment) : Prop where
  globals : e.globals.keys <+: e'.globals.keys
  locals : e'.localNames = e.localNames

/-- Whether the innermost list has at most been appended to. -/
inductive Grown : List (List String) → List (List String) → Prop where
  | nil : Grown [] []
  | cons {inner inner' : List String} (outer : List (List String)) (grown : inner <+: inner') :
    Grown (inner :: outer) (inner' :: outer)

theorem Grown.refl (scopes : List (List String)) : Grown scopes scopes := by
  cases scopes with
  | nil => exact .nil
  | cons inner outer => exact .cons outer List.prefix_rfl

theorem Grown.trans {a b c : List (List String)} (h : Grown a b) (h' : Grown b c) : Grown a c := by
  cases h with
  | nil => exact h'
  | cons outer grown =>
    cases h' with
    | cons _ more => exact .cons outer (grown.trans more)

theorem Grown.tail {a b : List (List String)} (h : Grown a b) : b.tail = a.tail := by
  cases h <;> rfl

/-- Whether no scope has lost a name, and at most the global and the innermost one have got new
ones. -/
structure Extends (e e' : Environment) : Prop where
  globals : e.globals.keys <+: e'.globals.keys
  locals : Grown e.localNames e'.localNames

variable {e e' e'' : Environment}

theorem Retains.refl (e : Environment) : e.Retains e := ⟨List.prefix_rfl, rfl⟩

theorem Retains.trans (h : e.Retains e') (h' : e'.Retains e'') : e.Retains e'' :=
  ⟨h.globals.trans h'.globals, h'.locals.trans h.locals⟩

theorem Retains.extends (h : e.Retains e') : e.Extends e' :=
  ⟨h.globals, h.locals ▸ .refl _⟩

theorem Extends.refl (e : Environment) : e.Extends e := (Retains.refl e).extends

theorem Extends.trans (h : e.Extends e') (h' : e'.Extends e'') : e.Extends e'' :=
  ⟨h.globals.trans h'.globals, h.locals.trans h'.locals⟩

theorem extends_set (e : Environment) (name : String) (value : Value) :
    e.Extends (e.set name value) := by
  rcases e with ⟨globals, _ | ⟨scope, outer⟩⟩
  · exact ⟨Dictionary.keys_prefix_insert _ _ _, .nil⟩
  · exact ⟨List.prefix_rfl, .cons _ (Dictionary.keys_prefix_insert _ _ _)⟩

theorem retains_setGlobal (e : Environment) (name : String) (value : Value) :
    e.Retains (e.setGlobal name value) := ⟨Dictionary.keys_prefix_insert _ _ _, rfl⟩

theorem keys_of_overwrite? {scopes updated : List Scope} {name : String} {value : Value}
    (h : overwrite? scopes name value = some updated) :
    updated.map Dictionary.keys = scopes.map Dictionary.keys := by
  induction scopes generalizing updated with
  | nil => simp [overwrite?] at h
  | cons scope outer ih =>
    unfold overwrite? at h
    split at h
    next bound =>
      obtain rfl := Option.some.inj h
      simp [Dictionary.keys_insert, bound]
    next =>
      obtain ⟨rest, hr, rfl⟩ := Option.map_eq_some_iff.mp h
      simp [ih hr]

theorem retains_assign? {name : String} {value : Value} (h : e.assign? name value = some e') :
    e.Retains e' := by
  unfold assign? at h
  split at h
  next locals hl =>
    obtain rfl := Option.some.inj h
    exact ⟨List.prefix_rfl, keys_of_overwrite? hl⟩
  next =>
    split at h
    · obtain rfl := Option.some.inj h
      exact retains_setGlobal e name value
    · cases h

theorem Extends.pop (h : e.push.Extends e') : e.Retains e'.pop :=
  ⟨h.globals, (List.map_tail).trans h.locals.tail⟩

theorem Extends.restore (h : Extends { e with locals := [] } e') :
    e.Retains { e' with locals := e.locals } := ⟨h.globals, rfl⟩

end Environment

/-- Whether an interpreter with standard builtins has at most extended an environment that it was
found with. -/
structure Interpreter.Extends (found : Environment) (m : Interpreter) : Prop where
  environment : found.Extends m.environment
  host : m.OffersOnly (· ∈ Standard.builtins)

theorem Change.retains_assign (name : String) (value : Value) (m : Interpreter) :
    m.environment.Retains ((assign name value).apply m).environment := by
  cases ha : m.environment.assign? name value with
  | none => simpa [apply, ha] using Environment.Retains.refl _
  | some updated => simpa [apply, ha] using Environment.retains_assign? ha

theorem Change.IsOwn.extends {c : Change} (own : c.IsOwn) (m : Interpreter) :
    m.environment.Extends (c.apply m).environment := by
  cases c with
  | declare name value => exact Environment.extends_set _ name value
  | declareGlobal name value => exact (Environment.retains_setGlobal _ name value).extends
  | assign name value => exact (retains_assign name value m).extends
  | _ => exact own.elim

namespace Contract

/-- Evaluations lose no names, and bind new ones in the global and the innermost scope only. -/
abbrev scoping : Contract where
  Ghost := Environment
  code _ := .all
  Inv found m _ := m.Extends found
  Fail found _ m _ := m.Extends found
  HostFail found _ m _ := m.Extends found
  Stop _ _ := True
  Raises _ := True
  Acts outer inner action _ := inner = outer ∧ action.Plain

theorem scoping_closes {found inner : Environment} {m : Interpreter} (hm : m.Extends found)
    {possible : Interpreter → Bool} {undo : Interpreter → Interpreter} {events : History}
    (retains : ∀ m' : Interpreter, inner.Extends m'.environment →
      m.environment.Retains (undo m').environment)
    (functions : ∀ m', (undo m').functions = m'.functions) :
    scoping.Closes inner found possible undo events := by
  have left {m' : Interpreter} (inv : m'.Extends inner) : (undo m').Extends found :=
    ⟨hm.environment.trans (retains m' inv.environment).extends, inv.host.of_eq (functions m')⟩
  exact .of_stop (fun _ _ => left) (fun _ _ _ => left) (fun _ _ _ => trivial) fun _ _ _ _ => trivial

theorem scoping_kept : scoping.Kept where
  started _ _ inv := inv
  changed {_ m _ _} own inv :=
    ⟨inv.environment.trans (own.extends m), inv.host.apply own.keepsHost.ne_addBuiltin⟩
  defined _ inv := ⟨inv.environment, inv.host.apply (by simp)⟩
  raises _ := trivial
  raisesTop _ _ := trivial
  raisesBody _ _ _ _ := trivial
  thrown _ _ inv := inv
  located _ inv := inv
  overflowed _ inv _ := inv
  scope {_ m _} inv :=
    ⟨m.environment.push, rfl, ⟨.refl _, inv.host⟩,
      scoping_closes inv (fun _ grown => grown.pop) fun _ => rfl⟩
  call {_ m _ _ _ _ _} values inv _ _ _ :=
    ⟨m.environment.push, fun _ _ => trivial, ⟨.refl _, inv.host⟩,
      scoping_closes inv (fun _ grown => grown.pop) fun _ => rfl⟩
  missed inv _ _ _ _ := ⟨inv.environment, inv.host⟩
  awaited _ _ _ := trivial
  module {_ m _ _ _ _ _} inv _ _ _ :=
    ⟨{ m.environment with locals := [] }, fun _ _ => trivial, ⟨.refl _, inv.host⟩,
      scoping_closes inv (fun _ grown => grown.restore) fun _ => rfl⟩
  builtin inv _ hr hv := ⟨rfl, Standard.plain_of_mem (inv.host.of_resolve hr) hv⟩
  step acts inv := by
    obtain ⟨rfl, plain⟩ := acts
    refine step_of_plain plain inv (fun plain => ⟨rfl, plain⟩) (fun {c} hc => ?_) (fun _ => ?_)
      fun _ => inv
    · cases c with
      | setLimit | print => exact ⟨inv.environment, inv.host⟩
      | _ => exact hc.elim
    · exact ⟨inv.environment, inv.host⟩
  halted _ _ := trivial

end Contract

section Statements

variable {α : Type} {found : Environment} {m m' : Interpreter} {h : History}

theorem Outcome.extends_of_left? {o : Outcome α}
    (ho : Post.Holds ⟨fun _ m _ => m.Extends found, fun _ m _ => m.Extends found, fun _ _ => True⟩
      (o, h)) (left : o.left? = some m) : m.Extends found := by
  cases o with
  | value a m' | error e m' =>
    obtain rfl := Option.some.inj left
    exact ho
  | halted => cases left

theorem Job.extends (fuel : Nat) {j : Job α} (run : j.IsRun)
    (host : m.OffersOnly (· ∈ Standard.builtins)) (left : (j.run fuel m).left? = some m') :
    m'.Extends m.environment := by
  have pre : Contract.scoping.Pre m.environment j m [] :=
    Contract.pre_of_isRun run ⟨.refl _, host⟩ (Code.all_admits j)
  have ended := Contract.post_of_isRun run (Contract.scoping_kept.run fuel j pre)
  refine Outcome.extends_of_left? (ended.mono ?_ (fun _ _ _ hf => hf) fun _ _ _ => trivial) left
  rintro a m h (inv | ⟨e, failed⟩)
  · exact inv
  · exact failed

theorem Plan.extends_body (fuel : Nat) {name : String} {parameters : List String}
    {values : List Value} {body : List Stmt} (host : m.OffersOnly (· ∈ Standard.builtins))
    (left : ((bindAll parameters values >>= fun _ => start (.runBody name body)).run
      (Job.runner fuel) m).left? = some m') : m'.Extends m.environment := by
  have ensured : (bindAll parameters values >>= fun _ => start (.runBody name body)).Ensures
      (fun _ j => Job.record fuel j) (Contract.scoping.gives m.environment fun _ => True) m [] := by
    refine ensures_bind (Contract.scoping_kept.bindAll _ _ (fun m h inv => ?_) ⟨.refl _, host⟩)
    exact (Contract.scoping_kept.meets fuel).start inv (Code.all_admits (.runBody name body))
      fun _ _ _ _ inv => ⟨trivial, inv⟩
  rw [← record_outcome (fun _ j m h => Job.record_outcome fuel j m h) _ m []] at left
  exact Outcome.extends_of_left?
    (ensured.mono (fun _ _ _ hq => hq.2) (fun _ _ _ hf => hf) fun _ _ hs => hs) left

end Statements

/-- Whether an evaluation between two states with standard builtins has left the names of all
local scopes alone. -/
structure Interpreter.Retains (m m' : Interpreter) : Prop where
  environment : m.environment.Retains m'.environment
  host : m'.OffersOnly (· ∈ Standard.builtins)

/-- The parts of a program in which there are no statements. -/
def Code.expressions : Code where
  expr _ := True
  stmt _ := False
  top _ := False
  body _ := False
  expr_children _ _ := trivial
  stmt_exprs _ _ := trivial
  stmt_children := False.elim
  function_body := False.elim
  top_stmt := False.elim
  body_stmt := False.elim

namespace Rules

abbrev expressions : Rules where
  code := .expressions
  name _ := True
  binds _ := False
  function _ := True
  acts action := action.Modest True True
  limits := True
  Inv m := m.OffersOnly (· ∈ Standard.builtins)
  Twins m m' := m' = m

theorem expressions_lawful : expressions.Lawful where
  read _ := trivial
  var := False.elim
  define := False.elim
  binding := False.elim
  function := False.elim
  user _ _ := trivial
  builtin host hr hv :=
    (Standard.modest_of_mem (host.of_resolve hr) hv).imp (fun _ => trivial) fun _ => trivial
  modest modest := modest
  alike := by
    rintro m _ rfl
    exact ⟨⟨_, rfl⟩, fun _ => rfl, rfl, rfl, fun _ _ => rfl⟩

end Rules

section Expressions

variable {α : Type} {job : Runner} {m m' : Interpreter}

theorem Interpreter.Retains.refl (host : m.OffersOnly (· ∈ Standard.builtins)) : m.Retains m :=
  ⟨.refl _, host⟩

/-- Whether jobs in which there are no statements leave the names of all local scopes alone. -/
def Runner.Retains (job : Runner) : Prop :=
  ∀ (β : Type) (j : Job β) (m m' : Interpreter), Rules.expressions.Admits j →
    m.OffersOnly (· ∈ Standard.builtins) → (job β j m).left? = some m' → m.Retains m'

theorem Interpreter.Retains.apply {c : Change} (allowed : Rules.expressions.Allows c)
    (host : m.OffersOnly (· ∈ Standard.builtins)) : m.Retains (c.apply m) := by
  cases c with
  | assign name value => exact ⟨Change.retains_assign name value m, host⟩
  | define | setLimit | print => exact ⟨.refl _, host⟩
  | _ => exact False.elim allowed

theorem Plan.KeepsTo.retains {x : Plan α} (keeps : x.KeepsTo .expressions) (jobs : job.Retains)
    (host : m.OffersOnly (· ∈ Standard.builtins)) (left : (x.run job m).left? = some m') :
    m.Retains m' := by
  induction keeps generalizing m m' with
  | pure | throw | pass =>
    obtain rfl := Option.some.inj left
    exact .refl host
  | @bind _ _ x next _ _ ihx ihn =>
    cases hx : x.run job m with
    | value b inner =>
      have first : m.Retains inner := ihx host (by rw [hx]; rfl)
      have second := ihn b first.host (by simpa [run, hx, Outcome.bind] using left)
      exact ⟨first.environment.trans second.environment, second.host⟩
    | error e inner =>
      have ended : inner = m' := by simpa [run, hx, Outcome.bind, Outcome.left?] using left
      exact ihx host (by rw [hx, ← ended]; rfl)
    | halted => simp [run, hx, Outcome.bind, Outcome.left?] at left
  | get_bind _ _ ih => exact ih m host host left
  | start admits => exact jobs _ _ m m' admits host left
  | change allowed =>
    obtain rfl := Option.some.inj left
    exact .apply allowed host
  | @readLine next acts =>
    rcases Run.readLine_cases m with awaits | ⟨line, console, read, -, gives⟩
    · simp [run, awaits, Outcome.bind, Outcome.left?] at left
    · simp only [run, gives, Outcome.bind] at left
      have kept :=
        jobs _ (.perform (next line)) (m.withConsole console) m' (acts line read) host left
      exact ⟨kept.environment, kept.host⟩
  | @attempt _ x _ ih =>
    refine ih host ?_
    simp only [run, Run.attempt] at left
    cases hx : x.run job m with
    | halted => simp [hx, Outcome.attempt, Outcome.left?] at left
    | _ => simpa [hx, Outcome.attempt, Outcome.left?] using left
  | withScope _ ih =>
    obtain ⟨inner, ended, rfl⟩ := Outcome.left?_close left
    have kept := ih (m := m.enterScope) host ended
    exact ⟨kept.environment.extends.pop, kept.host⟩
  | withCall frame span _ ih =>
    simp only [run, Run.withCall] at left
    split at left
    · obtain rfl := Option.some.inj left
      exact .refl host
    · obtain ⟨inner, ended, rfl⟩ := Outcome.left?_close left
      have kept := ih (m := m.enterCall frame) host ended
      exact ⟨kept.environment.extends.pop, kept.host⟩

theorem Plan.retains_callUser {fuel : Nat} {f : Function} {values : List Value} {span : Span}
    (host : m.OffersOnly (· ∈ Standard.builtins))
    (left : ((callUser f values span).run (Job.runner fuel) m).left? = some m') : m.Retains m' := by
  unfold callUser at left
  split at left
  · change (Run.withCall _ span (run _ (bindAll f.parameters values >>= fun _ =>
      start (.runBody f.name f.body))) m).left? = some m' at left
    unfold Run.withCall at left
    split at left
    · obtain rfl := Option.some.inj left
      exact .refl host
    · obtain ⟨inner, ended, rfl⟩ := Outcome.left?_close left
      have grown := extends_body (m := m.enterCall _) fuel host ended
      exact ⟨grown.environment.pop, grown.host⟩
  · obtain rfl := Option.some.inj left
    exact .refl host

theorem Job.retains (fuel : Nat) : Runner.Retains (Job.runner fuel) := by
  induction fuel with
  | zero => exact fun β j m m' _ _ left => by cases left
  | succ fuel ih =>
    intro β j m m' admits host left
    have keeps (covers : Rules.expressions.Covers j) : m.Retains m' :=
      (Rules.expressions_lawful.plan covers).retains ih host left
    cases j with
    | callUser name f values span => exact Plan.retains_callUser host left
    | load name =>
      have grown := Job.extends (j := .load name) (fuel + 1) trivial host left
      have locals : m'.environment.locals = m.environment.locals := Run.locals_of_load left
      exact ⟨⟨grown.environment.globals, congrArg (List.map Dictionary.keys) locals⟩, grown.host⟩
    | _ => exact keeps admits

end Expressions

namespace Environment

variable {e e' : Environment}

theorem Grown.length {a b : List (List String)} (h : Grown a b) : b.length = a.length := by
  cases h <;> rfl

theorem Extends.depth (h : e.Extends e') : e'.depth = e.depth := by
  have length := h.locals.length
  simpa [Environment.depth, localNames] using length

theorem Extends.names_at (h : e.Extends e') {i : Nat} {names : List String}
    (hi : e.names[i]? = some names) :
    ∃ names', e'.names[i]? = some names' ∧ names <+: names' ∧
      (0 < i → i + 1 < e.depth → names' = names) := by
  have locals := h.locals
  have depth : e.depth = e.localNames.length + 1 := by simp [Environment.depth, localNames]
  rw [depth]
  rw [names_eq] at hi ⊢
  cases i with
  | zero =>
    obtain rfl := Option.some.inj hi
    exact ⟨_, rfl, h.globals, fun positive => absurd positive (Nat.lt_irrefl 0)⟩
  | succ i =>
    simp only [List.getElem?_cons_succ] at hi ⊢
    generalize e.localNames = a at hi locals ⊢
    generalize e'.localNames = b at locals ⊢
    cases locals with
    | nil => simp at hi
    | @cons inner inner' outer grown =>
      simp only [List.reverse_cons] at hi ⊢
      rcases Nat.lt_or_ge i outer.length with below | above
      · rw [List.getElem?_append_left (by simpa using below)] at hi ⊢
        exact ⟨names, hi, List.prefix_rfl, fun _ _ => rfl⟩
      · rw [List.getElem?_append_right (by simpa using above), List.length_reverse] at hi ⊢
        rw [List.getElem?_singleton] at hi ⊢
        split at hi
        next innermost =>
          obtain rfl := Option.some.inj hi
          refine ⟨inner', if_pos innermost, grown, fun _ below => ?_⟩
          simp only [List.length_cons] at below
          omega
        next => cases hi

end Environment

/-- With standard builtins, no statement loses a name from a scope, binds one in a scope that is
neither the global nor the innermost one, or leaves a scope behind, whether it ends with an error or
without one. An expression binds no names but global ones. -/
theorem scope_names_kept (fuel : Nat) (m : Interpreter)
    (host : m.OffersOnly (· ∈ Standard.builtins)) :
    (∀ stmt after, (Run.execute fuel stmt m).left? = some after →
      after.environment.depth = m.environment.depth ∧
      ∀ (i : Nat) (names : List String), m.environment.names[i]? = some names →
        ∃ names', after.environment.names[i]? = some names' ∧ names <+: names' ∧
          (0 < i → i + 1 < m.environment.depth → names' = names)) ∧
    ∀ e after, (Run.evaluate fuel e m).left? = some after →
      after.environment.depth = m.environment.depth ∧
      m.environment.globals.keys <+: after.environment.globals.keys ∧
      ∀ i, 0 < i → after.environment.names[i]? = m.environment.names[i]? := by
  constructor
  · intro stmt after left
    have grown := (Job.extends (j := .execute stmt) fuel trivial host left).environment
    exact ⟨grown.depth, fun i names hi => grown.names_at hi⟩
  · intro e after left
    have kept := (Job.retains fuel _ (.evaluate e) m after trivial host left).environment
    refine ⟨kept.extends.depth, kept.globals, fun i positive => ?_⟩
    obtain ⟨i, rfl⟩ : ∃ k, i = k + 1 := ⟨i - 1, by omega⟩
    simp only [Environment.names_eq, kept.locals, List.getElem?_cons_succ]

/-- An interpreter inside two scopes, with a function that binds variables and then includes a
module that fails, since it does not see the variables of those scopes. -/
def Interpreter.inScopes : Interpreter :=
  { fresh with
    environment := ⟨[("g", .int 1)], [[("c", .int 4)], [("a", .int 2), ("b", .int 3)]]⟩
    functions := fresh.functions.addUser "f"
      ⟨"f", ["a"], [.var ⟨0, 1, 1⟩ "t" none, .define ⟨1, 2, 1⟩ "h" (.name ⟨2, 3, 1⟩ "c"),
        .include ⟨3, 4, 1⟩ "lib"], ⟨0, 1, 1⟩⟩
    source := .table [("lib", "var k = h\nvar l = b")] }

def Expr.failingCall : Expr := .call ⟨0, 1, 1⟩ "f" [.literal ⟨1, 2, 1⟩ (.int 5)]

/-- The declaration of a variable inside a block, whose value fails. -/
def Stmt.failingBlock : Stmt :=
  .block ⟨0, 1, 1⟩ [.var ⟨0, 1, 1⟩ "b" none, .expr ⟨1, 2, 1⟩ .failingCall]

theorem scope_names_kept_inScopes : ∃ after after',
    (Run.execute 40 .failingBlock .inScopes).left? = some after ∧
    (Run.evaluate 40 .failingCall .inScopes).left? = some after' ∧
    after.environment.globals.keys = ["g", "h", "k"] ∧
    after.environment.names[1]? = some ["a", "b"] ∧ after.environment.depth = 3 ∧
    after'.environment.names[2]? = some ["c"] := by
  have ends : (Run.execute 40 .failingBlock .inScopes).left?.map
      (fun m => m.environment.globals.keys) = some ["g", "h", "k"] ∧
      (Run.evaluate 40 .failingCall .inScopes).left?.isSome := by
    decide +kernel
  obtain ⟨after, left, globals⟩ := Option.map_eq_some_iff.mp ends.1
  obtain ⟨after', left'⟩ := Option.isSome_iff_exists.mp ends.2
  have host : Interpreter.inScopes.OffersOnly (· ∈ Standard.builtins) :=
    Interpreter.offersOnly_fresh
  obtain ⟨statements, expressions⟩ := scope_names_kept 40 .inScopes host
  obtain ⟨depth, kept⟩ := statements .failingBlock after left
  obtain ⟨names, found, -, same⟩ := kept 1 ["a", "b"] rfl
  obtain rfl := same (by decide) (by decide)
  exact ⟨after, after', left, left', globals, found, depth,
    (expressions .failingCall after' left').2.2 2 (by decide)⟩

end Script
