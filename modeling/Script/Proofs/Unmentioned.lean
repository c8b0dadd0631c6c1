import Script.Proofs.Everywhere
import Script.Proofs.Fuel
import Script.Proofs.Loading
import Script.Proofs.Rules

namespace Script

namespace Dictionary

variable {α : Type}

/-- The dictionary without the entries of a name. -/
def without : Dictionary α → String → Dictionary α
  | [], _ => []
  | (key, value) :: rest, x =>
    if key = x then without rest x else (key, value) :: without rest x

variable (d : Dictionary α) {x name : String}

theorem get?_without (other : name ≠ x) : (d.without x).get? name = d.get? name := by
  induction d with
  | nil => rfl
  | cons entry rest ih =>
    obtain ⟨key, value⟩ := entry
    by_cases hk : key = x
    · subst hk
      simp only [without, if_true, get?, if_neg (Ne.symm other), ih]
    · simp only [without, if_neg hk, get?, ih]

theorem has_without (other : name ≠ x) : (d.without x).has name = d.has name := by
  simp only [has, get?_without d other]

theorem insert_without (other : name ≠ x) (value : α) :
    (d.without x).insert name value = (d.insert name value).without x := by
  induction d with
  | nil => simp only [without, insert, if_neg other]
  | cons entry rest ih =>
    obtain ⟨key, old⟩ := entry
    by_cases hk : key = x
    · subst hk
      simp only [insert, if_neg (Ne.symm other), without, if_true, ih]
    · by_cases hn : key = name
      · subst hn
        simp only [without, if_neg hk, insert, if_true]
      · simp only [without, if_neg hk, insert, if_neg hn, ih]

theorem get?_insert_of_ne (other : name ≠ x) (value : α) :
    (d.insert name value).get? x = d.get? x := by
  rw [get?_insert, if_neg other]

end Dictionary

namespace Environment

variable (e : Environment) {x name : String}

/-- The environment without the bindings of a name. -/
def without (x : String) : Environment :=
  ⟨e.globals.without x, e.locals.map (·.without x)⟩

/-- What each scope binds a name to, the global scope first. -/
def bindings (x : String) : List (Option Value) := e.scopes.map (·.get? x)

theorem bindings_eq (x : String) :
    e.bindings x = e.globals.get? x :: (e.locals.map (·.get? x)).reverse := by
  simp [bindings, scopes]

theorem find?_without (scopes : List Scope) (other : name ≠ x) :
    find? (scopes.map (·.without x)) name = find? scopes name := by
  induction scopes with
  | nil => rfl
  | cons scope outer ih => simp only [List.map_cons, find?, Dictionary.get?_without _ other, ih]

theorem get?_without (other : name ≠ x) : (e.without x).get? name = e.get? name := by
  simp only [get?, without, find?_without _ other, Dictionary.get?_without _ other]

theorem set_without (other : name ≠ x) (value : Value) :
    (e.without x).set name value = (e.set name value).without x := by
  rcases e with ⟨globals, _ | ⟨scope, outer⟩⟩
  · simp [set, without, Dictionary.insert_without _ other]
  · simp [set, without, Dictionary.insert_without _ other]

theorem setGlobal_without (other : name ≠ x) (value : Value) :
    (e.without x).setGlobal name value = (e.setGlobal name value).without x := by
  simp [setGlobal, without, Dictionary.insert_without _ other]

theorem overwrite?_without (scopes : List Scope) (other : name ≠ x) (value : Value) :
    overwrite? (scopes.map (·.without x)) name value =
      (overwrite? scopes name value).map (List.map (·.without x)) := by
  induction scopes with
  | nil => rfl
  | cons scope outer ih =>
    simp only [List.map_cons, overwrite?, Dictionary.has_without _ other, ih]
    split
    · simp [Dictionary.insert_without _ other]
    · cases overwrite? outer name value <;> simp

theorem assign?_without (other : name ≠ x) (value : Value) :
    (e.without x).assign? name value = (e.assign? name value).map (·.without x) := by
  simp only [assign?, without, overwrite?_without _ other]
  cases overwrite? e.locals name value with
  | some locals => rfl
  | none =>
    simp only [Option.map_none, Dictionary.has_without _ other, Dictionary.insert_without _ other]
    split <;> rfl

theorem isGlobal_without : (e.without x).isGlobal = e.isGlobal := by
  simp [isGlobal, without]

theorem pop_without : (e.without x).pop = e.pop.without x := by
  simp [pop, without]

theorem bindings_set (other : name ≠ x) (value : Value) :
    (e.set name value).bindings x = e.bindings x := by
  rcases e with ⟨globals, _ | ⟨scope, outer⟩⟩
  · simp [set, bindings, scopes, Dictionary.get?_insert_of_ne _ other]
  · simp [set, bindings, scopes, Dictionary.get?_insert_of_ne _ other]

theorem bindings_setGlobal (other : name ≠ x) (value : Value) :
    (e.setGlobal name value).bindings x = e.bindings x := by
  simp [setGlobal, bindings, scopes, Dictionary.get?_insert_of_ne _ other]

theorem get?_of_overwrite? {scopes updated : List Scope} {value : Value} (other : name ≠ x)
    (h : overwrite? scopes name value = some updated) :
    updated.map (·.get? x) = scopes.map (·.get? x) := by
  induction scopes generalizing updated with
  | nil => simp [overwrite?] at h
  | cons scope outer ih =>
    unfold overwrite? at h
    split at h
    · obtain rfl := Option.some.inj h
      simp [Dictionary.get?_insert_of_ne _ other]
    · obtain ⟨rest, hr, rfl⟩ := Option.map_eq_some_iff.mp h
      simp [ih hr]

theorem bindings_of_assign? {e updated : Environment} {value : Value} (other : name ≠ x)
    (h : e.assign? name value = some updated) : updated.bindings x = e.bindings x := by
  unfold assign? at h
  split at h
  next locals hl =>
    obtain rfl := Option.some.inj h
    simp only [bindings_eq, get?_of_overwrite? other hl]
  next =>
    split at h
    · obtain rfl := Option.some.inj h
      exact bindings_setGlobal e other value
    · cases h

variable {e} {e' : Environment}

theorem bindings_pop (h : e'.bindings x = e.push.bindings x) :
    e'.pop.bindings x = e.bindings x := by
  simp only [bindings_eq, push, pop, List.cons.injEq, List.reverse_inj, List.map_tail] at h ⊢
  obtain ⟨globals, locals⟩ := h
  rw [locals]
  exact ⟨globals, rfl⟩

theorem bindings_restore (h : e'.bindings x = bindings { e with locals := [] } x) :
    bindings { e' with locals := e.locals } x = e.bindings x := by
  simp only [bindings_eq, List.cons.injEq] at h ⊢
  exact ⟨h.1, trivial⟩

end Environment

/-- Whether an expression is a variable of this name. -/
def Expr.isVariable (x : String) : Expr → Bool
  | .name _ other => other = x
  | _ => false

/-- Whether a statement binds a name by itself, be it for a loop or for the calls of a function. -/
def Stmt.introduces (x : String) : Stmt → Bool
  | .var _ name _ | .define _ name _ | .for _ name _ _ => name = x
  | .function _ _ parameters _ => parameters.contains x
  | _ => false

/-- The code in which a name does not occur as that of a variable. -/
abbrev Code.omitting (x : String) : Code := .every (!·.introduces x) (!·.isVariable x)

namespace Interpreter

/-- The same interpreter without the bindings of a name. -/
def without (m : Interpreter) (x : String) : Interpreter :=
  { m with environment := m.environment.without x }

/-- Whether a name occurs as that of a variable in no code that an interpreter with standard
builtins may come to run. -/
structure Omits (x : String) (m : Interpreter) : Prop where
  host : m.OffersOnly (· ∈ Standard.builtins)
  code : m.Holds (!·.introduces x) (!·.isVariable x)
  parameters : ∀ name f, m.functions.user.get? name = some f → x ∉ f.parameters

variable {m m' : Interpreter} {x : String}

theorem Omits.of_eq (omits : m.Omits x) (functions : m'.functions = m.functions)
    (source : m'.source = m.source) : m'.Omits x where
  host := omits.host.of_eq functions
  code := omits.code.of_eq (congrArg _ functions) source
  parameters := functions ▸ omits.parameters

end Interpreter

/-- What is asked of evaluations to have nothing to do with a variable. -/
abbrev Rules.omitting (x : String) : Rules where
  code := .omitting x
  name name := name ≠ x
  binds name := name ≠ x
  function f := x ∉ f.parameters ∧ ∀ s ∈ f.body, (Code.omitting x).body s
  acts action := action.Modest True True
  limits := True
  Inv m := m.Omits x
  Twins m m' := m' = m.without x

section

variable {x : String}

theorem Code.introduces_of_omitting {s : Stmt} (hs : (Code.omitting x).stmt s) :
    s.introduces x = false := by
  simpa using (Stmt.every_iff.mp hs).1

theorem Rules.omitting_lawful (x : String) : (omitting x).Lawful where
  read he := by simpa [Expr.isVariable] using (Expr.every_iff.mp he).1
  var hs := by simpa [Stmt.introduces] using Code.introduces_of_omitting hs
  define hs := by simpa [Stmt.introduces] using Code.introduces_of_omitting hs
  binding hs := by simpa [Stmt.introduces] using Code.introduces_of_omitting hs
  function hs := by
    refine ⟨by simpa [Stmt.introduces] using Code.introduces_of_omitting hs, fun t ht => ?_⟩
    exact (Code.omitting x).function_body hs ht
  user omits hr := by
    have defined := FunctionTable.user_of_resolve hr
    exact ⟨omits.parameters _ _ defined, Stmt.everyIn_iff.mp (omits.code.functions _ _ defined)⟩
  builtin omits hr hv :=
    (Standard.modest_of_mem (omits.host.of_resolve hr) hv).imp (fun _ => trivial) fun _ => trivial
  modest modest := modest
  alike := by
    rintro m _ rfl
    exact ⟨⟨_, rfl⟩, fun _ => rfl, rfl, rfl, fun name other => m.environment.get?_without other⟩

variable {m : Interpreter} {c : Change}

theorem Change.apply_without (allowed : (Rules.omitting x).Allows c) (m : Interpreter) :
    c.apply (m.without x) = (c.apply m).without x := by
  cases c with
  | declare name value =>
    simp only [apply, Interpreter.without, Environment.set_without _ allowed]
  | declareGlobal name value =>
    simp only [apply, Interpreter.without, Environment.setGlobal_without _ allowed]
  | assign name value =>
    simp only [apply, Interpreter.without, Environment.assign?_without _ allowed]
    cases m.environment.assign? name value <;> rfl
  | define | setLimit | print => rfl
  | _ => exact False.elim allowed

theorem Change.bindings_apply (allowed : (Rules.omitting x).Allows c) (m : Interpreter) :
    (c.apply m).environment.bindings x = m.environment.bindings x := by
  cases c with
  | declare name value => exact m.environment.bindings_set allowed value
  | declareGlobal name value => exact m.environment.bindings_setGlobal allowed value
  | assign name value =>
    cases ha : m.environment.assign? name value with
    | none => simp [apply, ha]
    | some updated => simpa [apply, ha] using Environment.bindings_of_assign? allowed ha
  | define | setLimit | print => rfl
  | _ => exact False.elim allowed

theorem Interpreter.Omits.apply (omits : m.Omits x) (allowed : (Rules.omitting x).Allows c) :
    (c.apply m).Omits x := by
  cases c with
  | define f =>
    refine ⟨omits.host.apply (by simp), omits.code.apply rfl ?_, ?_⟩
    · rintro g hg
      obtain rfl := Change.define.inj hg
      exact Stmt.everyIn_iff.mpr allowed.2
    · intro name g hg
      rcases Change.user_of_apply hg with hc | hg
      · obtain rfl := Change.define.inj hc
        exact allowed.1
      · exact omits.parameters name g hg
  | declare | declareGlobal | assign | setLimit | print => exact omits.of_eq rfl rfl
  | _ => exact False.elim allowed

end

namespace Outcome

variable {α : Type} {x : String} {m : Interpreter} {first second : Outcome α}

def without (x : String) : Outcome α → Outcome α
  | value a m => value a (m.without x)
  | error e m => error e (m.without x)
  | halted reason m => halted reason (m.without x)

/-- Whether an evaluation in this state has spared the bindings of a name, and ended as another one
did without them. -/
structure Spares (x : String) (m : Interpreter) (first second : Outcome α) : Prop where
  eq : second = first.without x
  left : ∀ after, first.left? = some after →
    after.Omits x ∧ after.environment.bindings x = m.environment.bindings x

theorem Spares.value (a : α) (omits : m.Omits x) :
    Spares x m (.value a m) (.value a (m.without x)) :=
  ⟨rfl, fun _ left => Option.some.inj left ▸ ⟨omits, rfl⟩⟩

theorem Spares.error (e : RuntimeError) (omits : m.Omits x) :
    Spares x m (.error e m : Outcome α) (.error e (m.without x)) :=
  ⟨rfl, fun _ left => Option.some.inj left ▸ ⟨omits, rfl⟩⟩

theorem Spares.halted (reason : Halt) (m inner : Interpreter) :
    Spares x m (.halted reason inner : Outcome α) (.halted reason (inner.without x)) :=
  ⟨rfl, fun _ left => by cases left⟩

theorem Spares.attempt (h : Spares x m first second) : Spares x m first.attempt second.attempt := by
  obtain ⟨rfl, left⟩ := h
  cases first <;> exact ⟨rfl, left⟩

theorem Spares.bind {β : Type} {first second : Outcome β} (h : Spares x m first second)
    {next next' : β → Run α}
    (hn : ∀ b inner, first = .value b inner → inner.Omits x →
      Spares x inner (next b inner) (next' b (inner.without x))) :
    Spares x m (first.bind next) (second.bind next') := by
  obtain ⟨rfl, left⟩ := h
  cases first with
  | value b inner =>
    obtain ⟨omits, spared⟩ := left inner rfl
    obtain ⟨eq, further⟩ := hn b inner rfl omits
    refine ⟨eq, fun after ended => ?_⟩
    obtain ⟨omits, same⟩ := further after ended
    exact ⟨omits, same.trans spared⟩
  | error e inner => exact ⟨rfl, left⟩
  | halted reason inner => exact .halted reason m inner

theorem Spares.close {entered : Interpreter} (h : Spares x entered first second)
    {possible : Interpreter → Bool} {undo undo' : Interpreter → Interpreter}
    (hp : ∀ m : Interpreter, possible (m.without x) = possible m)
    (hu : ∀ m : Interpreter, undo' (m.without x) = (undo m).without x)
    (omits : ∀ m : Interpreter, m.Omits x → (undo m).Omits x)
    (bindings : ∀ after : Interpreter,
      after.environment.bindings x = entered.environment.bindings x →
        (undo after).environment.bindings x = m.environment.bindings x) :
    Spares x m (first.close possible undo) (second.close possible undo') := by
  obtain ⟨rfl, left⟩ := h
  refine ⟨?_, fun after closed => ?_⟩
  · cases first with
    | value a inner | error e inner =>
      simp only [Outcome.close, without, hp, hu]
      split <;> rfl
    | halted reason inner => rfl
  · obtain ⟨inner, ended, rfl⟩ := left?_close closed
    exact ⟨omits inner (left inner ended).1, bindings inner (left inner ended).2⟩

theorem Spares.ofLoad {first second : Outcome Value} (h : Spares x m first second) (name : String) :
    Spares x m (first.ofLoad name) (second.ofLoad name) := by
  obtain ⟨rfl, left⟩ := h
  cases first <;> exact ⟨rfl, left⟩

theorem Spares.of_environment {entered : Interpreter} (h : Spares x entered first second)
    (same : entered.environment = m.environment) : Spares x m first second :=
  ⟨h.eq, same ▸ h.left⟩

theorem spares_readLine (omits : m.Omits x) :
    Spares x m (Run.readLine m) (Run.readLine (m.without x)) := by
  constructor
  · have world : (m.without x).world = m.world := rfl
    simp only [Run.readLine, world]
    rcases m.world.console.readLine with ⟨line, console⟩
    cases line <;> rfl
  · intro after left
    rcases Run.readLine_cases m with awaits | ⟨line, console, -, -, gives⟩
    · rw [awaits] at left
      cases left
    · rw [gives] at left
      obtain rfl := Option.some.inj left
      exact ⟨omits.of_eq rfl rfl, rfl⟩

end Outcome

section Simulation

variable {α : Type} {x : String} {job : Runner} {m : Interpreter}

/-- Whether jobs that do not mention a name go the same way without its bindings. -/
def Runner.Spares (x : String) (job : Runner) : Prop :=
  ∀ (β : Type) (j : Job β) (m : Interpreter), (Rules.omitting x).Admits j → m.Omits x →
    (job β j m).Spares x m (job β j (m.without x))

theorem Plan.KeepsTo.spares {y : Plan α} (keeps : y.KeepsTo (.omitting x)) (jobs : job.Spares x)
    (omits : m.Omits x) : (y.run job m).Spares x m (y.run job (m.without x)) := by
  induction keeps generalizing m with
  | pure a => exact .value a omits
  | throw e | pass e => exact .error e omits
  | bind _ _ ihx ihn => exact (ihx omits).bind fun b inner _ omits => ihn b omits
  | get_bind alike _ ih =>
    have second := ih m omits omits
    simpa only [run, Outcome.bind, alike m _ rfl] using second
  | start admits => exact jobs _ _ m admits omits
  | @change c allowed =>
    refine ⟨congrArg (Outcome.value ()) (Change.apply_without allowed m), fun after left => ?_⟩
    obtain rfl := Option.some.inj left
    exact ⟨omits.apply allowed, Change.bindings_apply allowed m⟩
  | @readLine next acts =>
    refine (Outcome.spares_readLine omits).bind fun line inner gives omits => ?_
    have read : line ≠ .unread := by
      rcases Run.readLine_cases m with awaits | ⟨other, console, read, -, other_gives⟩
      · rw [awaits] at gives
        cases gives
      · rw [other_gives] at gives
        cases gives
        exact read
    exact jobs _ (.perform (next line)) inner (acts line read) omits
  | attempt _ ih => exact (ih omits).attempt
  | withScope _ ih =>
    refine (ih (m := m.enterScope) (omits.of_eq rfl rfl)).close ?_ ?_ ?_ ?_
    · exact fun m => by simp only [Interpreter.canLeaveScope, Interpreter.without,
        Environment.isGlobal_without]
    · exact fun m => by simp only [Interpreter.leaveScope, Interpreter.without,
        Environment.pop_without]
    · exact fun m omits => omits.of_eq rfl rfl
    · exact fun after => Environment.bindings_pop
  | withCall frame span _ ih =>
    simp only [run, Run.withCall, show (m.without x).calls = m.calls from rfl]
    split
    · exact .error _ omits
    · refine (ih (m := m.enterCall frame) (omits.of_eq rfl rfl)).close ?_ ?_ ?_ ?_
      · exact fun m => by simp only [Interpreter.canLeaveCall, Interpreter.without,
          Environment.isGlobal_without]
      · exact fun m => by simp only [Interpreter.leaveCall, Interpreter.without,
          Environment.pop_without]
      · exact fun m omits => omits.of_eq rfl rfl
      · exact fun after => Environment.bindings_pop

variable {fuel : Nat}

theorem Run.spares_load (jobs : Runner.Spares x (Job.runner fuel)) (omits : m.Omits x)
    (name : String) :
    (load (fuel + 1) name m).Spares x m (load (fuel + 1) name (m.without x)) := by
  by_cases h : name ∈ m.modules.loaded
  · rw [load_of_mem h, load_of_mem (m := m.without x) h]
    exact .value _ omits
  have marked : ((Change.mark name).apply m).Omits x := omits.of_eq rfl rfl
  rw [load_of_fresh fuel h, load_of_fresh (m := m.without x) fuel h,
    show (m.without x).source = m.source from rfl]
  cases fetched : m.source.fetch name with
  | found text =>
    cases parsed : parseProgram text.source with
    | error diagnostic =>
      simp only [parsed]
      exact (Outcome.Spares.value _ marked).of_environment rfl
    | ok program =>
      simp only [parsed]
      refine Outcome.Spares.ofLoad ?_ name
      have code := Stmt.everyIn_iff.mp (omits.code.modules name text program fetched parsed)
      let began : Interpreter :=
        ((Change.retain program).apply ((Change.mark name).apply m)).enterModule text.origin
      have ran := jobs _ (.runProgram none program) began code (omits.of_eq rfl rfl)
      refine ran.close (fun _ => rfl) (fun _ => rfl) ?_ ?_
      · exact fun m omits => omits.of_eq rfl rfl
      · exact fun after => Environment.bindings_restore
  | notFound | unreadable => exact (Outcome.Spares.value _ marked).of_environment rfl
  | unread path => exact .halted _ m _

theorem Job.spares (x : String) (fuel : Nat) : Runner.Spares x (Job.runner fuel) := by
  induction fuel with
  | zero => exact fun β j m _ _ => .halted .outOfFuel m m
  | succ fuel ih =>
    intro β j m admits omits
    have spares (covers : (Rules.omitting x).Covers j) :
        (j.run (fuel + 1) m).Spares x m (j.run (fuel + 1) (m.without x)) :=
      ((Rules.omitting_lawful x).plan covers).spares ih omits
    cases j with
    | callUser name f values span =>
      refine spares ⟨fun parameter hp same => ?_, admits.2⟩
      exact admits.1 (same ▸ hp)
    | load name => exact Run.spares_load ih omits name
    | _ => exact spares admits

end Simulation

/-- A name that is that of no variable in a program, nor in any other code that the program may come
to run with standard builtins, has nothing to do with how the program runs. In two states that
differ at most in the bindings of the name it ends alike, in states that again differ in nothing
else, and every scope binds the name as it did before. -/
theorem runProgram_unmentioned (fuel : Nat) (x : String) (program : Program) (m m' : Interpreter)
    (same : m'.without x = m.without x) (omits : m.Omits x)
    (unmentioned : Stmt.everyIn (!·.introduces x) (!·.isVariable x) program) :
    (Run.runProgram fuel program m').without x = (Run.runProgram fuel program m).without x ∧
    (∀ after, (Run.runProgram fuel program m).left? = some after →
      after.environment.bindings x = m.environment.bindings x) ∧
    ∀ after, (Run.runProgram fuel program m').left? = some after →
      after.environment.bindings x = m'.environment.bindings x := by
  have omits' : m'.Omits x := by
    have shared {β : Type} (view : Interpreter → β)
        (blind : ∀ n : Interpreter, view (n.without x) = view n) : view m' = view m := by
      rw [← blind m', ← blind m, same]
    exact omits.of_eq (shared (·.functions) fun _ => rfl) (shared (·.source) fun _ => rfl)
  have code := Stmt.everyIn_iff.mp unmentioned
  have first := Job.spares x fuel _ (.runProgram none program) m code omits
  have second := Job.spares x fuel _ (.runProgram none program) m' code omits'
  exact ⟨second.eq.symm.trans (same ▸ first.eq), fun after left => (first.left after left).2,
    fun after left => (second.left after left).2⟩

namespace Interpreter

/-- An interpreter inside one scope, with a module. -/
def inScope (globals inner : Scope) : Interpreter :=
  { fresh with
    environment := ⟨globals, [inner]⟩
    source := .table [("lib", "define h = 10\nfor i in [1, 2] \x7b b = b + i \x7d")] }

/-- It has a function that overwrites a variable of its caller. -/
def overwriting (globals inner : Scope) : Interpreter :=
  (Change.define ⟨"f", ["n"], [.assign ⟨0, 1, 1⟩ (.name ⟨0, 1, 1⟩ "b") (.name ⟨1, 2, 1⟩ "n")],
    ⟨0, 1, 1⟩⟩).apply (inScope globals inner)

theorem omits_overwriting (globals inner : Scope) : (overwriting globals inner).Omits "x" := by
  have omits : (inScope globals inner).Omits "x" := by
    refine ⟨offersOnly_fresh, .of_text rfl rfl (by decide +kernel), fun name f hf => ?_⟩
    cases hf
  refine omits.apply ⟨by decide, ?_⟩
  exact Stmt.everyIn_iff.mp (by decide)

end Interpreter

/-- Calls a function, and includes a module that fails. -/
def Program.overwriting : Program :=
  [.expr ⟨0, 1, 1⟩ (.call ⟨0, 1, 1⟩ "f" [.literal ⟨1, 2, 1⟩ (.int 5)]), .include ⟨2, 3, 1⟩ "lib"]

theorem runProgram_unmentioned_overwriting : ∃ e after after',
    Run.runProgram 60 .overwriting (.overwriting [("x", .int 1)] [("b", .int 2), ("x", .int 3)]) =
      .error e after ∧
    Run.runProgram 60 .overwriting (.overwriting [] [("b", .int 2)]) = .error e after' ∧
    after'.without "x" = after.without "x" ∧
    after.environment.bindings "x" = [some (.int 1), some (.int 3)] ∧
    after'.environment.bindings "x" = [none, none] := by
  have fails : (Run.runProgram 60 .overwriting
      (.overwriting [("x", .int 1)] [("b", .int 2), ("x", .int 3)])).error?.isSome := by
    decide +kernel
  obtain ⟨e, failed⟩ := Option.isSome_iff_exists.mp fails
  obtain ⟨after, run⟩ := Outcome.error?_eq_some.mp failed
  obtain ⟨alike, spared, spared'⟩ := runProgram_unmentioned 60 "x" .overwriting
    (.overwriting [("x", .int 1)] [("b", .int 2), ("x", .int 3)])
    (.overwriting [] [("b", .int 2)]) rfl (Interpreter.omits_overwriting _ _) (by decide)
  rw [run] at alike spared
  generalize Run.runProgram 60 .overwriting (.overwriting [] [("b", .int 2)]) = o at alike spared' ⊢
  cases o with
  | error e' after' =>
    obtain ⟨rfl, same⟩ := Outcome.error.inj alike
    exact ⟨e', after, after', run, rfl, same, spared after rfl, spared' after' rfl⟩
  | value | halted => cases alike

end Script
