import Script.Proofs.Rules

namespace Script

namespace Interpreter

/-- The same interpreter but for its recursion limit, and for the one it was set up with. -/
def withLimits (initial limit : Nat) (m : Interpreter) : Interpreter :=
  { m with
    settings := { m.settings with recursionLimit := initial }
    calls := { m.calls with limit := limit } }

end Interpreter

namespace Plan

/-- Whether what a plan does is the same under every recursion limit: it goes on alike in states
that differ in nothing else, and it does not set the limit. -/
inductive Unaware : {α : Type} → Plan α → Prop where
  | pure {α : Type} (a : α) : Unaware (Plan.pure a)
  | bind {α β : Type} {x : Plan β} {next : β → Plan α} :
    Unaware x → (∀ b, Unaware (next b)) → Unaware (x.bind next)
  | get_bind {α : Type} {next : Interpreter → Plan α} :
    (∀ initial limit m, next (m.withLimits initial limit) = next m) → (∀ m, Unaware (next m)) →
      Unaware (get.bind next)
  | start {α : Type} (job : Job α) : Unaware (Plan.start job)
  | change {c : Change} : (∀ limit, c ≠ .setLimit limit) → Unaware (Plan.change c)
  | readLine : Unaware Plan.readLine
  | fetch (name : String) : Unaware (Plan.fetch name)
  | throw {α : Type} (error : RuntimeError) : Unaware (Plan.throw error : Plan α)
  | pass {α : Type} (error : RuntimeError) : Unaware (Plan.pass error : Plan α)
  | halt {α : Type} (reason : Halt) : Unaware (Plan.halt reason : Plan α)
  | attempt {α : Type} {x : Plan α} : Unaware x → Unaware x.attempt
  | withScope {α : Type} {body : Plan α} : Unaware body → Unaware body.withScope
  | withCall {α : Type} (frame : Frame) (span : Span) {body : Plan α} :
    Unaware body → Unaware (Plan.withCall frame span body)
  | withModule {α : Type} (origin : String) {body : Plan α} :
    Unaware body → Unaware (Plan.withModule origin body)

end Plan

namespace Rules

/-- What is asked of evaluations to be the same under every recursion limit. -/
abbrev unawareness : Rules where
  code := .all
  name _ := True
  binds _ := True
  function _ := True
  acts _ := True
  limits := False
  Inv _ := True
  Twins m m' := ∃ initial limit, m' = m.withLimits initial limit

theorem unawareness_lawful : unawareness.Lawful where
  read _ := trivial
  var _ := trivial
  define _ := trivial
  binding _ := trivial
  function _ := trivial
  user _ _ := trivial
  builtin _ _ _ := trivial
  modest _ := trivial
  alike := by
    rintro m _ ⟨initial, limit, rfl⟩
    exact ⟨⟨limit, rfl⟩, False.elim, rfl, rfl, fun _ _ => rfl⟩

end Rules

namespace Plan

theorem KeepsTo.unaware {α : Type} {x : Plan α} (keeps : x.KeepsTo Rules.unawareness) :
    x.Unaware := by
  induction keeps with
  | pure a => exact .pure a
  | bind _ _ ihx ihn => exact .bind ihx ihn
  | get_bind alike _ ih =>
    exact .get_bind (fun initial limit m => alike _ _ ⟨initial, limit, rfl⟩) fun m => ih m trivial
  | start => exact .start _
  | change allowed =>
    refine .change fun limit hc => ?_
    rw [hc] at allowed
    exact allowed
  | readLine => exact .bind .readLine fun line => .start _
  | throw error => exact .throw error
  | pass error => exact .pass error
  | attempt _ ih => exact .attempt ih
  | withScope _ ih => exact .withScope ih
  | withCall frame span _ ih => exact .withCall frame span ih

namespace Unaware

theorem markModule (name : String) : (Plan.markModule name).Unaware := by
  refine .get_bind (fun _ _ _ => rfl) fun m => ?_
  split
  · exact .pure false
  · exact .bind (.change (by simp)) fun _ => .pure true

theorem fetchModule (name : String) : (Plan.fetchModule name).Unaware := by
  refine .bind (.fetch name) fun result => ?_
  cases result with
  | unread path => exact .halt _
  | _ => exact .pure _

theorem parseModule (name : String) (text : ModuleText) : (Plan.parseModule name text).Unaware := by
  unfold Plan.parseModule
  split
  · exact .pure _
  · exact .bind (.change (by simp)) fun _ => .pure _

theorem load (name : String) : (Plan.load name).Unaware := by
  refine .bind (.markModule name) fun fresh => ?_
  split
  · refine .bind (.fetchModule name) fun fetched => ?_
    split
    · exact .pure _
    next text =>
      refine .bind (.parseModule name text) fun parsed => ?_
      split
      · exact .pure _
      · refine .bind (.attempt (.withModule _ (.start _))) fun result => ?_
        cases result <;> exact .pure _
  · exact .pure _

end Unaware

end Plan

/-- Whether a job does not depend on the recursion limit but for where it overflows. Host functions
may. -/
def Job.IsUnaware {α : Type} : Job α → Prop
  | perform action => action.Modest False False
  | _ => True

theorem Job.IsUnaware.plan {α : Type} {j : Job α} (h : j.IsUnaware) : j.plan.Unaware := by
  have keeps (covers : Rules.unawareness.Covers j) : j.plan.Unaware :=
    (Rules.unawareness_lawful.plan covers).unaware
  cases j with
  | load name => exact .load name
  | perform action => exact keeps h
  | callUser => exact keeps ⟨fun _ _ => trivial, fun _ _ => trivial⟩
  | whileLoop | forLoop => exact keeps ⟨trivial, fun _ _ => trivial⟩
  | evaluateAll | runBody | executeAll | endlessLoop | runProgram => exact keeps fun _ _ => trivial
  | _ => exact keeps trivial

end Script
