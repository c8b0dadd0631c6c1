import Mathlib.Data.List.InsertIdx
import Script.Proofs.Isolation
import Script.Proofs.OwnSteps
import Script.Proofs.Rules

namespace Script

namespace Environment

variable (e : Environment) (k : Nat)

/-- The environment with one more scope, which binds nothing and has `k` others above it. -/
def insertScope : Environment := { e with locals := e.locals.insertIdx k [] }

theorem isGlobal_insertScope : (e.insertScope (k + 1)).isGlobal = e.isGlobal := by
  rcases e with ⟨globals, _ | ⟨scope, outer⟩⟩ <;> rfl

theorem pop_insertScope (inside : ¬e.isGlobal) :
    (e.insertScope (k + 1)).pop = e.pop.insertScope k := by
  rcases e with ⟨globals, _ | ⟨scope, outer⟩⟩
  · exact absurd rfl inside
  · rfl

theorem set_insertScope (name : String) (value : Value) :
    (e.insertScope (k + 1)).set name value = (e.set name value).insertScope (k + 1) := by
  rcases e with ⟨globals, _ | ⟨scope, outer⟩⟩ <;> rfl

theorem find?_insertIdx (scopes : List Scope) (name : String) :
    find? (scopes.insertIdx k []) name = find? scopes name := by
  induction scopes generalizing k with
  | nil => cases k <;> rfl
  | cons scope outer ih =>
    cases k with
    | zero => rfl
    | succ k => simp only [List.insertIdx_succ_cons, find?, ih]

theorem get?_insertScope (name : String) : (e.insertScope k).get? name = e.get? name := by
  simp only [get?, insertScope, find?_insertIdx]

theorem overwrite?_insertIdx (scopes : List Scope) (name : String) (value : Value) :
    overwrite? (scopes.insertIdx k []) name value =
      (overwrite? scopes name value).map (·.insertIdx k []) := by
  have skipped (scopes : List Scope) :
      overwrite? ([] :: scopes) name value = (overwrite? scopes name value).map ([] :: ·) := rfl
  induction scopes generalizing k with
  | nil => cases k <;> rfl
  | cons scope outer ih =>
    cases k with
    | zero => exact skipped _
    | succ k =>
      simp only [List.insertIdx_succ_cons, overwrite?, ih]
      split
      · rfl
      · cases overwrite? outer name value <;> rfl

theorem assign?_insertScope (name : String) (value : Value) :
    (e.insertScope k).assign? name value =
      (e.assign? name value).map (·.insertScope k) := by
  simp only [assign?, insertScope, overwrite?_insertIdx]
  cases overwrite? e.locals name value with
  | some locals => rfl
  | none =>
    simp only [Option.map_none]
    by_cases bound : e.globals.has name
    · rw [if_pos bound]
      exact if_pos bound
    · rw [if_neg bound]
      exact if_neg bound

end Environment

/-- The same interpreter with a scope inserted that binds nothing and has `k` others above it. -/
def Interpreter.insertScope (m : Interpreter) (k : Nat) : Interpreter :=
  { m with environment := m.environment.insertScope k }

/-- Whether a job declares variables in scopes of its own at most. -/
def Job.Contained {α : Type} (j : Job α) : Prop := ∀ s ∈ j.statements, ¬s.declares

theorem Job.Contained.of_statements {α : Type} {j : Job α} (h : j.statements = []) :
    j.Contained := by
  simp [Contained, h]

/-- What is asked of evaluations to see nothing of the scopes but the values of variables. -/
abbrev Rules.scopeless : Rules where
  code := .all
  name _ := True
  binds _ := True
  function _ := True
  acts action := action.Modest True True
  limits := True
  Inv m := m.OffersOnly (· ∈ Standard.builtins)
  Twins m m' := ∃ k, m' = m.insertScope k

theorem Rules.scopeless_lawful : scopeless.Lawful where
  read _ := trivial
  var _ := trivial
  define _ := trivial
  binding _ := trivial
  function _ := trivial
  user _ _ := trivial
  builtin host hr hv :=
    (Standard.modest_of_mem (host.of_resolve hr) hv).imp (fun _ => trivial) fun _ => trivial
  modest modest := modest
  alike := by
    rintro m _ ⟨k, rfl⟩
    exact ⟨⟨_, rfl⟩, fun _ => rfl, rfl, rfl, fun name _ => m.environment.get?_insertScope k name⟩

/-- Whether a plan declares variables in scopes of its own at most. -/
def Plan.Contained {α : Type} (x : Plan α) : Prop :=
  ∃ (change : Bool → Change → Prop) (stmts : List Stmt),
    (∀ name value, ¬change false (.declare name value)) ∧ (∀ s ∈ stmts, ¬s.declares) ∧
      x.Makes change stmts false

namespace Plan.Contained

variable {α β : Type}

theorem bind_left {x : Plan β} {next : β → Plan α} (h : (x.bind next).Contained) :
    x.Contained := by
  obtain ⟨change, stmts, undeclaring, sheltered, makes⟩ := h
  exact ⟨change, stmts, undeclaring, sheltered, makes.1⟩

theorem bind_right {x : Plan β} {next : β → Plan α} (h : (x.bind next).Contained) (b : β) :
    (next b).Contained := by
  obtain ⟨change, stmts, undeclaring, sheltered, makes⟩ := h
  exact ⟨change, stmts, undeclaring, sheltered, makes.2 b⟩

theorem start {j : Job α} (h : (Plan.start j).Contained) : j.Contained := by
  obtain ⟨change, stmts, undeclaring, sheltered, makes⟩ := h
  exact fun s hs => sheltered s (makes.resolve_left Bool.false_ne_true hs)

theorem change {c : Change} (h : (Plan.change c).Contained) (name : String) (value : Value) :
    c ≠ .declare name value := by
  obtain ⟨change, stmts, undeclaring, sheltered, makes⟩ := h
  rintro rfl
  exact undeclaring name value makes

end Plan.Contained

theorem Plan.contained_block {α : Type} (j : Job α) : (withScope (start j)).Contained :=
  ⟨fun _ _ => False, [], nofun, nofun, makes_block j⟩

theorem Plan.contained_perform {action : HostAction} (plain : action.Plain) :
    (perform action).Contained := by
  refine ⟨fun _ c => ∀ name value, c ≠ .declare name value, [], ?_, nofun, ?_⟩
  · exact fun name value differs => differs name value rfl
  cases plain with
  | ok value | refuse error => trivial
  | observe hn => exact makes_get_bind fun m => makes_start rfl
  | setLimit limit hn => exact makes_change_bind nofun (makes_start rfl)
  | print text hn => exact makes_change_bind nofun (makes_start rfl)
  | readLine hn => exact makes_bind trivial fun line => makes_start rfl

theorem Job.Contained.plan {α : Type} {j : Job α} (contained : j.Contained)
    (covers : Rules.scopeless.Covers j) : j.plan.Contained := by
  cases host : j.action? with
  | none =>
    refine ⟨j.MayMake, j.statements, fun name value makes => ?_, contained, j.makes host⟩
    obtain ⟨s, hs, declares⟩ := makes.resolve_left Bool.false_ne_true
    exact contained s hs declares
  | some action =>
    cases j with
    | perform action => exact Plan.contained_perform covers.plain
    | _ => cases host

namespace Outcome

variable {α β : Type} {first second : Outcome α}

/-- Whether two evaluations end in the same way and with the same result, the second one in the
state that `view` makes of that of the first one. Of the states of evaluations that have stopped,
the local scopes are not compared. -/
inductive MapsTo (view : Interpreter → Interpreter) : Outcome α → Outcome α → Prop where
  | value (a : α) (m : Interpreter) : MapsTo view (.value a m) (.value a (view m))
  | error (e : RuntimeError) (m : Interpreter) : MapsTo view (.error e m) (.error e (view m))
  | halted (reason : Halt) {m m' : Interpreter} (same : m.SameGlobally m') :
    MapsTo view (.halted reason m) (.halted reason m')

/-- Whether an evaluation, begun with standard builtins, has gone the same way with a scope
inserted. -/
structure Repeats (k : Nat) (first second : Outcome α) : Prop where
  mapped : first.MapsTo (·.insertScope k) second
  host : ∀ after, first.left? = some after → after.OffersOnly (· ∈ Standard.builtins)

namespace Repeats

variable {k : Nat} {m : Interpreter}

theorem value (a : α) (k : Nat) (host : m.OffersOnly (· ∈ Standard.builtins)) :
    Repeats k (.value a m) (.value a (m.insertScope k)) :=
  ⟨.value a m, fun _ left => Option.some.inj left ▸ host⟩

theorem error (e : RuntimeError) (k : Nat) (host : m.OffersOnly (· ∈ Standard.builtins)) :
    Repeats k (.error e m : Outcome α) (.error e (m.insertScope k)) :=
  ⟨.error e m, fun _ left => Option.some.inj left ▸ host⟩

theorem halted (reason : Halt) (k : Nat) {m m' : Interpreter} (same : m.SameGlobally m') :
    Repeats k (.halted reason m : Outcome α) (.halted reason m') :=
  ⟨.halted reason same, fun _ left => by cases left⟩

theorem attempt (h : first.Repeats k second) : first.attempt.Repeats k second.attempt := by
  obtain ⟨mapped, host⟩ := h
  cases mapped with
  | value a m => exact .value _ k (host m rfl)
  | error e m => exact .value _ k (host m rfl)
  | halted reason same => exact .halted reason k same

theorem bind {first second : Outcome β} (h : first.Repeats k second) {next next' : β → Run α}
    (hn : ∀ b m, first = .value b m → m.OffersOnly (· ∈ Standard.builtins) →
      (next b m).Repeats k (next' b (m.insertScope k))) :
    (first.bind next).Repeats k (second.bind next') := by
  obtain ⟨mapped, host⟩ := h
  cases mapped with
  | value b m => exact hn b m rfl (host m rfl)
  | error e m => exact .error e k (host m rfl)
  | halted reason same => exact .halted reason k same

theorem close (h : first.Repeats (k + 1) second) {possible : Interpreter → Bool}
    {undo : Interpreter → Interpreter}
    (hp : ∀ m : Interpreter, possible (m.insertScope (k + 1)) = possible m)
    (hu : ∀ m : Interpreter, possible m → undo (m.insertScope (k + 1)) = (undo m).insertScope k)
    (functions : ∀ m : Interpreter, (undo m).functions = m.functions) :
    (first.close possible undo).Repeats k (second.close possible undo) := by
  obtain ⟨mapped, host⟩ := h
  cases mapped with
  | value a m =>
    simp only [Outcome.close, hp]
    split
    next left =>
      rw [hu m left]
      exact .value a k ((host m rfl).of_eq (functions m))
    next => exact .halted .fault k rfl
  | error e m =>
    simp only [Outcome.close, hp]
    split
    next left =>
      rw [hu m left]
      exact .error e k ((host m rfl).of_eq (functions m))
    next => exact .halted .fault k rfl
  | halted reason same => exact .halted reason k same

theorem ofModule {o : Outcome Value}
    (host : ∀ after, o.left? = some after → after.OffersOnly (· ∈ Standard.builtins))
    (locals : List Scope) (file name : String) (k : Nat) :
    ((o.close (fun _ => true) (Interpreter.leaveModule locals file)).ofLoad name).Repeats k
      ((o.close (fun _ => true) (Interpreter.leaveModule (locals.insertIdx k []) file)).ofLoad
        name) := by
  cases o with
  | value a m => exact .value _ k ((host m rfl).of_eq rfl)
  | error e m => exact .value _ k ((host m rfl).of_eq rfl)
  | halted reason m => exact .halted reason k rfl

end Repeats

end Outcome

section Simulation

variable {α : Type} {job : Runner} {m : Interpreter} {k : Nat}

/-- Whether jobs that declare no variables in a scope go the same way with another one on top. -/
def Runner.Repeats (job : Runner) : Prop :=
  ∀ (β : Type) (j : Job β) (m : Interpreter) (k : Nat), Rules.scopeless.Admits j →
    (k = 0 → j.Contained) → m.OffersOnly (· ∈ Standard.builtins) →
      (job β j m).Repeats k (job β j (m.insertScope k))

/-- A change goes on alike below other scopes, and one that declares nothing also at the top. -/
theorem Change.apply_insertScope {c : Change} (allowed : Rules.scopeless.Allows c)
    (hk : k = 0 → ∀ name value, c ≠ .declare name value) (m : Interpreter) :
    c.apply (m.insertScope k) = (c.apply m).insertScope k := by
  cases c with
  | declare name value =>
    cases k with
    | zero => exact absurd rfl (hk rfl name value)
    | succ k => simp only [apply, Interpreter.insertScope, Environment.set_insertScope]
  | assign name value =>
    simp only [apply, Interpreter.insertScope, Environment.assign?_insertScope]
    cases m.environment.assign? name value <;> rfl
  | declareGlobal | define | setLimit | print => rfl
  | _ => exact False.elim allowed

theorem Run.repeats_readLine (host : m.OffersOnly (· ∈ Standard.builtins)) (k : Nat) :
    (readLine m).Repeats k (readLine (m.insertScope k)) := by
  have world : (m.insertScope k).world = m.world := rfl
  simp only [readLine, world]
  rcases m.world.console.readLine with ⟨line, console⟩
  cases line with
  | unread => exact .halted .awaitsLine k rfl
  | _ => exact .value _ k (host.of_eq rfl)

theorem Plan.KeepsTo.repeats {x : Plan α} (keeps : x.KeepsTo .scopeless) (jobs : job.Repeats)
    (contained : k = 0 → x.Contained)
    (host : m.OffersOnly (· ∈ Standard.builtins)) :
    (x.run job m).Repeats k (x.run job (m.insertScope k)) := by
  induction keeps generalizing m k with
  | pure a => exact .value a k host
  | throw e | pass e => exact .error e k host
  | bind _ _ ihx ihn =>
    refine (ihx (fun hk => (contained hk).bind_left) host).bind fun b inner _ host => ?_
    exact ihn b (fun hk => (contained hk).bind_right b) host
  | get_bind alike _ ih =>
    have second := ih m host (fun hk => (contained hk).bind_right m) host
    simpa only [run, Outcome.bind, alike m _ ⟨k, rfl⟩] using second
  | start admits => exact jobs _ _ m k admits (fun hk => (contained hk).start) host
  | @change c allowed =>
    simp only [run, Change.apply_insertScope allowed (fun hk => (contained hk).change) m]
    refine .value () k (host.apply ?_)
    rintro b rfl
    exact allowed
  | @readLine next acts =>
    refine (Run.repeats_readLine host k).bind fun line inner gives host => ?_
    have read : line ≠ .unread := by
      rcases Run.readLine_cases m with awaits | ⟨other, console, read, -, other_gives⟩
      · rw [awaits] at gives
        cases gives
      · rw [other_gives] at gives
        cases gives
        exact read
    exact jobs _ (.perform (next line)) inner k (acts line read) (fun _ => .of_statements rfl) host
  | attempt _ ih => exact (ih contained host).attempt
  | withScope _ ih =>
    have inner := ih (m := m.enterScope) (k := k + 1) (by omega) (host.of_eq rfl)
    refine inner.close (fun m => ?_) (fun m left => ?_) fun m => rfl
    · simp only [Interpreter.canLeaveScope, Interpreter.insertScope,
        Environment.isGlobal_insertScope]
    · have inside : ¬m.environment.isGlobal := by simpa [Interpreter.canLeaveScope] using left
      simp only [Interpreter.leaveScope, Interpreter.insertScope,
        Environment.pop_insertScope _ _ inside]
  | withCall frame span _ ih =>
    simp only [run, Run.withCall, show (m.insertScope k).calls = m.calls from rfl]
    split
    · exact .error _ k host
    · have inner := ih (m := m.enterCall frame) (k := k + 1) (by omega) (host.of_eq rfl)
      refine inner.close (fun m => ?_) (fun m left => ?_) fun m => rfl
      · simp only [Interpreter.canLeaveCall, Interpreter.insertScope,
          Environment.isGlobal_insertScope]
      · have inside : ¬m.environment.isGlobal := by
          simp only [Interpreter.canLeaveCall, Bool.and_eq_true] at left
          simpa using left.1
        simp only [Interpreter.leaveCall, Interpreter.insertScope,
          Environment.pop_insertScope _ _ inside]

variable {fuel : Nat}

theorem Run.repeats_load (jobs : Runner.Repeats (Job.runner fuel))
    (host : m.OffersOnly (· ∈ Standard.builtins)) (name : String) (k : Nat) :
    (load (fuel + 1) name m).Repeats k (load (fuel + 1) name (m.insertScope k)) := by
  by_cases h : name ∈ m.modules.loaded
  · rw [load_of_mem h, load_of_mem (m := m.insertScope k) h]
    exact .value _ k host
  have marked : ((Change.mark name).apply m).OffersOnly (· ∈ Standard.builtins) := host.of_eq rfl
  rw [load_of_fresh fuel h, load_of_fresh (m := m.insertScope k) fuel h,
    show (m.insertScope k).source = m.source from rfl]
  cases fetched : m.source.fetch name with
  | found text =>
    cases parsed : parseProgram text.source with
    | error diagnostic =>
      simp only [parsed]
      exact .value _ k marked
    | ok program =>
      simp only [parsed]
      let began : Interpreter :=
        ((Change.retain program).apply ((Change.mark name).apply m)).enterModule text.origin
      have ran := jobs _ (.runProgram none program) began 1 (fun _ _ => trivial) (by omega)
        (host.of_eq rfl)
      exact .ofModule ran.host m.environment.locals m.file name k
  | notFound | unreadable => exact .value _ k marked
  | unread path => exact .halted _ k rfl

theorem Job.repeats (fuel : Nat) : Runner.Repeats (Job.runner fuel) := by
  induction fuel with
  | zero => exact fun β j m k _ _ _ => .halted .outOfFuel k rfl
  | succ fuel ih =>
    intro β j m k admits contained host
    have repeats (covers : Rules.scopeless.Covers j) :
        (j.run (fuel + 1) m).Repeats k (j.run (fuel + 1) (m.insertScope k)) :=
      (Rules.scopeless_lawful.plan covers).repeats ih (fun hk => (contained hk).plan covers) host
    cases j with
    | callUser name f values span => exact repeats ⟨fun _ _ => trivial, fun _ _ => trivial⟩
    | load name => exact Run.repeats_load ih host name k
    | _ => exact repeats admits

end Simulation

end Script
