import Script.Proofs.Fuel
import Script.Proofs.Rules

namespace Script

/-- The same interpreter with other extensions in front of those that are registered. -/
def Interpreter.behind (front : List Extension) (m : Interpreter) : Interpreter :=
  { m with world := { m.world with extensions := front ++ m.world.extensions } }

/-- The same outcome in a state that is seen otherwise. -/
def Outcome.mapState {α : Type} (view : Interpreter → Interpreter) : Outcome α → Outcome α
  | value a m => value a (view m)
  | error e m => error e (view m)
  | halted reason m => halted reason (view m)

namespace Plan

/-- Whether a plan goes on alike in states that differ in nothing but the registry. -/
inductive IgnoresRegistry : {α : Type} → Plan α → Prop where
  | pure {α : Type} (a : α) : IgnoresRegistry (Plan.pure a)
  | bind {α β : Type} {x : Plan β} {next : β → Plan α} :
    IgnoresRegistry x → (∀ b, IgnoresRegistry (next b)) → IgnoresRegistry (x.bind next)
  | get_bind {α : Type} {next : Interpreter → Plan α} :
    (∀ front m, next (m.behind front) = next m) → (∀ m, IgnoresRegistry (next m)) →
      IgnoresRegistry (get.bind next)
  | start {α : Type} (job : Job α) : IgnoresRegistry (Plan.start job)
  | change (c : Change) : IgnoresRegistry (Plan.change c)
  | readLine : IgnoresRegistry Plan.readLine
  | fetch (name : String) : IgnoresRegistry (Plan.fetch name)
  | throw {α : Type} (error : RuntimeError) : IgnoresRegistry (Plan.throw error : Plan α)
  | pass {α : Type} (error : RuntimeError) : IgnoresRegistry (Plan.pass error : Plan α)
  | halt {α : Type} (reason : Halt) : IgnoresRegistry (Plan.halt reason : Plan α)
  | attempt {α : Type} {x : Plan α} : IgnoresRegistry x → IgnoresRegistry x.attempt
  | withScope {α : Type} {body : Plan α} : IgnoresRegistry body → IgnoresRegistry body.withScope
  | withCall {α : Type} (frame : Frame) (span : Span) {body : Plan α} :
    IgnoresRegistry body → IgnoresRegistry (Plan.withCall frame span body)
  | withModule {α : Type} (origin : String) {body : Plan α} :
    IgnoresRegistry body → IgnoresRegistry (Plan.withModule origin body)

end Plan

/-- What is asked of evaluations to be the same with every registry. -/
abbrev Rules.ignoringRegistry : Rules where
  code := .all
  name _ := True
  binds _ := True
  function _ := True
  acts _ := True
  limits := True
  Inv _ := True
  Twins m m' := ∃ front, m' = m.behind front

theorem Rules.ignoringRegistry_lawful : Rules.ignoringRegistry.Lawful where
  read _ := trivial
  var _ := trivial
  define _ := trivial
  binding _ := trivial
  function _ := trivial
  user _ _ := trivial
  builtin _ _ _ := trivial
  modest _ := trivial
  alike := by
    rintro m _ ⟨front, rfl⟩
    exact ⟨⟨m.calls.limit, rfl⟩, fun _ => rfl, rfl, rfl, fun _ _ => rfl⟩

namespace Plan

theorem KeepsTo.ignoresRegistry {α : Type} {x : Plan α}
    (keeps : x.KeepsTo Rules.ignoringRegistry) :
    x.IgnoresRegistry := by
  induction keeps with
  | pure a => exact .pure a
  | bind _ _ ihx ihn => exact .bind ihx ihn
  | get_bind alike _ ih =>
    exact .get_bind (fun front m => alike _ _ ⟨front, rfl⟩) fun m => ih m trivial
  | start => exact .start _
  | change => exact .change _
  | readLine => exact .bind .readLine fun line => .start _
  | throw error => exact .throw error
  | pass error => exact .pass error
  | attempt _ ih => exact .attempt ih
  | withScope _ ih => exact .withScope ih
  | withCall frame span _ ih => exact .withCall frame span ih

namespace IgnoresRegistry

theorem change_start {α : Type} (c : Change) (j : Job α) :
    (Plan.change c >>= fun _ => Plan.start j).IgnoresRegistry := .bind (.change c) fun _ => .start j

theorem perform (action : HostAction) : (Plan.perform action).IgnoresRegistry := by
  cases action with
  | finish result => cases result with
    | ok value => exact .pure value
    | error e => exact .pass e
  | observe next | readCell cell next => exact .get_bind (fun _ _ => rfl) fun m => .start _
  | evaluate text next =>
    refine .bind ?_ fun result => .start _
    unfold evaluateSource
    split
    · exact .pure _
    · refine .bind (.attempt (.start _)) fun result => ?_
      split <;> exact .pure _
  | load name next => exact .bind (.start _) fun result => .start _
  | assign name value next =>
    refine .get_bind (fun _ _ => rfl) fun m => ?_
    split
    · exact change_start _ _
    · exact .start _
  | readLine next => exact .bind .readLine fun line => .start _
  | newCell initial next => exact .get_bind (fun _ _ => rfl) fun m => change_start _ _
  | fault => exact .halt _
  | _ => exact change_start _ _

theorem load (name : String) : (Plan.load name).IgnoresRegistry := by
  refine .bind (.get_bind (fun _ _ => rfl) fun m => ?_) fun fresh => ?_
  · split
    · exact .pure false
    · exact .bind (.change _) fun _ => .pure true
  split
  · refine .bind (.bind (.fetch name) fun result => ?_) fun fetched => ?_
    · cases result <;> first | exact .halt _ | exact .pure _
    split
    · exact .pure _
    next text =>
      refine .bind ?_ fun parsed => ?_
      · unfold parseModule
        split
        · exact .pure _
        · exact .bind (.change _) fun _ => .pure _
      · split
        · exact .pure _
        · refine .bind (.attempt (.withModule _ (.start _))) fun result => ?_
          cases result <;> exact .pure _
  · exact .pure _

end IgnoresRegistry

end Plan

variable {α : Type}

theorem Job.plan_ignoresRegistry (j : Job α) : j.plan.IgnoresRegistry := by
  have keeps (covers : Rules.ignoringRegistry.Covers j) : j.plan.IgnoresRegistry :=
    (Rules.ignoringRegistry_lawful.plan covers).ignoresRegistry
  cases j with
  | load name => exact .load name
  | perform action => exact .perform action
  | callUser => exact keeps ⟨fun _ _ => trivial, fun _ _ => trivial⟩
  | whileLoop | forLoop => exact keeps ⟨trivial, fun _ _ => trivial⟩
  | evaluateAll | runBody | executeAll | endlessLoop | runProgram => exact keeps fun _ _ => trivial
  | _ => exact keeps trivial

/-- Whether what is done in a state is done alike with other extensions in front. -/
def Run.IgnoresRegistry (x : Run α) : Prop :=
  ∀ (front : List Extension) (m : Interpreter),
    x (m.behind front) = (x m).mapState (·.behind front)

theorem Outcome.state_mapState (view : Interpreter → Interpreter) (o : Outcome α) :
    (o.mapState view).state = view o.state := by
  cases o <;> rfl

theorem Outcome.mapState_bind {β : Type} {view : Interpreter → Interpreter} (o : Outcome β)
    {next : β → Run α} (hn : ∀ b m, next b (view m) = (next b m).mapState view) :
    (o.mapState view).bind next = (o.bind next).mapState view := by
  cases o with
  | value b m => exact hn b m
  | error e m => rfl
  | halted reason m => rfl

theorem Outcome.mapState_close {view undo : Interpreter → Interpreter}
    {possible : Interpreter → Bool} (o : Outcome α)
    (hp : ∀ m, possible (view m) = possible m) (hu : ∀ m, undo (view m) = view (undo m)) :
    (o.mapState view).close possible undo = (o.close possible undo).mapState view := by
  cases o with
  | value a m | error e m =>
    simp only [mapState, close, hp, hu]
    split <;> rfl
  | halted reason m => rfl

theorem Change.apply_behind (c : Change) (front : List Extension) (m : Interpreter) :
    c.apply (m.behind front) = (c.apply m).behind front := by
  cases c with
  | register extension =>
    simp only [apply, Interpreter.behind, List.append_assoc]
  | _ => rfl

theorem Run.readLine_ignoresRegistry : readLine.IgnoresRegistry := by
  intro front m
  have console : (m.behind front).world.console = m.world.console := rfl
  simp only [readLine, console]
  rcases m.world.console.readLine with ⟨line, console⟩
  cases line <;> rfl

theorem Plan.IgnoresRegistry.run {x : Plan α} (ignores : x.IgnoresRegistry) {job : Runner}
    (jobs : ∀ (β : Type) (j : Job β), (job β j).IgnoresRegistry) :
    (x.run job).IgnoresRegistry := by
  intro front m
  induction ignores generalizing m with
  | bind _ _ ihx ihn =>
    simp only [Plan.run, ihx m]
    exact Outcome.mapState_bind _ fun b m => ihn b m
  | get_bind alike _ ih =>
    simp only [Plan.run, Outcome.bind, alike]
    exact ih m m
  | start j => exact jobs _ j front m
  | change c =>
    simp only [Plan.run, Change.apply_behind]
    rfl
  | readLine => exact Run.readLine_ignoresRegistry front m
  | attempt _ ih =>
    simp only [Plan.run, Run.attempt, ih m]
    generalize Plan.run job _ m = o
    cases o <;> rfl
  | withScope _ ih =>
    have entered : (m.behind front).enterScope = m.enterScope.behind front := rfl
    simp only [Plan.run, Run.withScope, entered, ih]
    exact Outcome.mapState_close _ (fun _ => rfl) fun _ => rfl
  | withCall frame span _ ih =>
    have calls : (m.behind front).calls = m.calls := rfl
    have entered : (m.behind front).enterCall frame = (m.enterCall frame).behind front := rfl
    simp only [Plan.run, Run.withCall, calls, entered, ih]
    split
    · rfl
    · exact Outcome.mapState_close _ (fun _ => rfl) fun _ => rfl
  | withModule origin _ ih =>
    have entered : (m.behind front).enterModule origin = (m.enterModule origin).behind front := rfl
    simp only [Plan.run, Run.withModule, entered, ih]
    exact Outcome.mapState_close _ (fun _ => rfl) fun _ => rfl
  | _ => rfl

/-- A job does the same with every registry, and adds the same extensions to it. -/
theorem Job.run_ignoresRegistry (fuel : Nat) (j : Job α) : (j.run fuel).IgnoresRegistry := by
  induction fuel generalizing α with
  | zero => exact fun front m => rfl
  | succ fuel ih => exact j.plan_ignoresRegistry.run fun _ j => ih j

end Script
