import Script.Proofs.Checked.Scopes
import Script.Proofs.Checked.Values
import Script.Proofs.UsualChanges

namespace Script

namespace Plan

variable {α β : Type}

/-- Goes on with what is there. -/
def orFault : Option β → (β → Plan α) → Plan α
  | some b, next => next b
  | none, _ => halt .fault

def storeChecked (name : String) (span : Span) (path : List (Value × Span)) (value : Value) :
    Plan Unit := do
  let old ← lookup name span
  orFault (old.replaceAt? value path).run fun
    | .ok updated => overwrite name updated span
    | .error (error, span) => raise (.operation error) span

def assignToChecked (target : Expr) (value : Value) : Plan Unit :=
  match target.target? with
  | none => raise .assignmentTarget target.span
  | some place => do
    let indices ← start (.evaluateAll (place.path.map Prod.fst))
    storeChecked place.name place.span (indices.zip (place.path.map Prod.snd)) value

def evaluateChecked : Expr → Plan Value
  | .index span target index => do
    let x ← start (.evaluate target)
    let i ← start (.evaluate index)
    orFault (x.index? i) (ofOperation span)
  | e => evaluate e

theorem storeChecked_eq (name : String) (span : Span) (path : List (Value × Span))
    (value : Value) : storeChecked name span path value = store name span path value := by
  refine congrArg (Plan.bind (lookup name span)) (funext fun old => ?_)
  rw [Value.replaceAt?_eq]
  cases old.replaceAt value path with
  | ok updated => rfl
  | error placed => rfl

theorem assignToChecked_eq (target : Expr) (value : Value) :
    assignToChecked target value = assignTo target value := by
  unfold assignToChecked assignTo
  cases target.target? with
  | none => rfl
  | some place => simp only [storeChecked_eq]

theorem evaluateChecked_eq (e : Expr) : evaluateChecked e = evaluate e := by
  cases e with
  | index span target index =>
    simp only [evaluateChecked, evaluate, Value.index?_eq, orFault]
  | _ => rfl

end Plan

/-- What a job does, with operations on values checked. Builtins look for their arguments anyway. -/
def Job.checkedPlan : {α : Type} → Job α → Plan α
  | _, .evaluate e => Plan.evaluateChecked e
  | _, .assignTo target value => Plan.assignToChecked target value
  | _, j => j.plan

theorem Job.checkedPlan_eq {α : Type} (j : Job α) : j.checkedPlan = j.plan := by
  cases j with
  | evaluate e => exact Plan.evaluateChecked_eq e
  | assignTo target value => exact Plan.assignToChecked_eq target value
  | _ => rfl

/-- Undoes at the end what was done at the beginning, by a step that may fail. -/
def Outcome.closeBy {α : Type} (o : Outcome α) (undo : Interpreter → Option Interpreter) :
    Outcome α :=
  match o with
  | value a m => (undo m).elim (halted .fault m) (value a)
  | error e m => (undo m).elim (halted .fault m) (error e)
  | halted reason m => halted reason m

theorem Outcome.closeBy_eq {α : Type} (o : Outcome α) {undo? : Interpreter → Option Interpreter}
    {possible : Interpreter → Bool} {undo : Interpreter → Interpreter}
    (h : ∀ m, undo? m = if possible m then some (undo m) else none) :
    o.closeBy undo? = o.close possible undo := by
  cases o with
  | value a m | error e m =>
    simp only [closeBy, close, h m]
    split <;> rfl
  | halted reason m => rfl

namespace Run

variable {α : Type}

def scopeChecked (body : Run α) : Run α := fun m =>
  m.enterScope?.elim (.halted .fault m) fun inner => (body inner).closeBy Interpreter.leaveScope?

def callChecked (frame : Frame) (span : Span) (body : Run α) : Run α := fun m =>
  if m.calls.isFull then .error (m.calls.overflow span) m
  else (m.enterCall? frame).elim (.halted .fault m) fun inner =>
    (body inner).closeBy Interpreter.leaveCall?

def moduleChecked (origin : String) (body : Run α) : Run α := fun m =>
  (m.enterModule? origin).elim (.halted .fault m) fun (inner, locals) =>
    (body inner).closeBy (Interpreter.leaveModule? locals m.file)

theorem scopeChecked_eq (body : Run α) : scopeChecked body = withScope body := by
  funext m
  rw [scopeChecked, m.enterScope?_eq]
  exact Outcome.closeBy_eq _ Interpreter.leaveScope?_eq

theorem callChecked_eq (frame : Frame) (span : Span) (body : Run α) :
    callChecked frame span body = withCall frame span body := by
  funext m
  rw [callChecked, withCall, Interpreter.enterCall?_eq]
  split
  · rfl
  · exact Outcome.closeBy_eq _ Interpreter.leaveCall?_eq

theorem moduleChecked_eq (origin : String) (body : Run α) :
    moduleChecked origin body = withModule origin body := by
  funext m
  rw [moduleChecked, Interpreter.enterModule?_eq]
  refine Outcome.closeBy_eq _ fun m' => ?_
  rw [Interpreter.leaveModule?_eq, if_pos rfl]

end Run

/-- Carries a plan out as `run` does, with all steps checked. -/
def Plan.runChecked (job : Runner) : {α : Type} → Plan α → Run α
  | _, .pure a, m => .value a m
  | _, .bind x next, m => (x.runChecked job m).bind fun b m => (next b).runChecked job m
  | _, .start j, m => job _ j m
  | _, .get, m => .value m m
  | _, .change c, m => (c.applyChecked m).elim (.halted .fault m) (.value ())
  | _, .readLine, m => Run.readLine m
  | _, .fetch name, m => .value (m.source.fetch name) m
  | _, .throw error, m => .error error m
  | _, .pass error, m => .error error m
  | _, .halt reason, m => .halted reason m
  | _, .attempt x, m => Run.attempt (x.runChecked job) m
  | _, .withScope body, m => Run.scopeChecked (body.runChecked job) m
  | _, .withCall frame span body, m => Run.callChecked frame span (body.runChecked job) m
  | _, .withModule origin body, m => Run.moduleChecked origin (body.runChecked job) m

/-- Does a job with all steps checked. -/
def Job.runChecked : Nat → {α : Type} → Job α → Run α
  | 0, _, _ => Run.halt .outOfFuel
  | fuel + 1, _, job => job.checkedPlan.runChecked fun _ j => Job.runChecked fuel j

def Run.evaluateSourceChecked (fuel : Nat) (text : String) : Run (Except ScriptError Value) :=
  (Plan.evaluateSource text).runChecked fun _ j => Job.runChecked fuel j

/-- Whether no scope has been closed by a host function. -/
def History.NeverPops (h : History) : Prop := .changed .popScope ∉ h

theorem History.NeverPops.of_prefix {h later : History} (quiet : later.NeverPops)
    (earlier : h <+: later) : h.NeverPops := fun popped => quiet (earlier.mem popped)

theorem History.Usual.neverPops {h : History} (usual : h.Usual) : h.NeverPops :=
  fun popped => (usual _ popped).ne_popScope rfl

section Agreement

variable {α : Type}

/-- A plan is carried out alike with and without checks if no host function closes a scope, as long
as that holds of the jobs that it starts. -/
theorem Plan.runChecked_eq {job checked : Runner} {recorded : Recorder}
    (same : ∀ (β : Type) (j : Job β) (m : Interpreter) (h : History),
      (recorded β j m h).1 = job β j m)
    (kept : ∀ (β : Type) (j : Job β) (m : Interpreter) (h : History), h <+: (recorded β j m h).2)
    (jobs : ∀ (β : Type) (j : Job β) (m : Interpreter) (h : History),
      (recorded β j m h).2.NeverPops → checked β j m = job β j m)
    (x : Plan α) {m : Interpreter} {h : History} (quiet : (x.record recorded m h).2.NeverPops) :
    x.runChecked checked m = x.run job m := by
  induction x generalizing m h with
  | bind x next ihx ihn =>
    have first := ihx (quiet.of_prefix (prefix_record_bind kept x next m h))
    have outcome := record_outcome same x m h
    simp only [runChecked, run, first, ← outcome]
    simp only [record] at quiet
    generalize x.record recorded m h = r at quiet ⊢
    rcases r with ⟨b | e | reason, h'⟩
    · exact ihn b quiet
    · rfl
    · rfl
  | start j => exact jobs _ j m h quiet
  | change c =>
    have harmless : c ≠ .popScope := by
      rintro rfl
      exact quiet (by simp [record])
    simp only [runChecked, run, Change.applyChecked_eq harmless]
    rfl
  | attempt x ih =>
    simp only [runChecked, run, Run.attempt]
    rw [ih quiet]
  | withScope body ih =>
    simp only [runChecked, run, Run.scopeChecked_eq, Run.withScope]
    rw [ih quiet]
  | withCall frame span body ih =>
    simp only [runChecked, run, Run.callChecked_eq, Run.withCall]
    simp only [record] at quiet
    split
    · rfl
    next room =>
      rw [if_neg room] at quiet
      rw [ih (quiet.of_prefix (Outcome.prefix_noting _ _ _))]
  | withModule origin body ih =>
    simp only [runChecked, run, Run.moduleChecked_eq, Run.withModule]
    rw [ih (quiet.of_prefix (Outcome.prefix_noting _ _ _))]
  | _ => rfl

theorem Job.runChecked_eq (fuel : Nat) (j : Job α) {m : Interpreter} {h : History}
    (quiet : (j.record fuel m h).2.NeverPops) : j.runChecked fuel m = j.run fuel m := by
  induction fuel generalizing α m h with
  | zero => rfl
  | succ fuel ih =>
    rw [runChecked, checkedPlan_eq]
    exact Plan.runChecked_eq (fun _ j m h => Job.record_outcome fuel j m h)
      (fun _ j m h => Job.prefix_record fuel j m h) (fun _ j _ _ quiet => ih j quiet) j.plan quiet

example : (Job.perform (.popScope (.ok .null))).runChecked 1 .fresh = .halted .fault .fresh := rfl

end Agreement

end Script
