import Script.Proofs.ElementUpdate
import Script.Proofs.Fuel
import Script.Proofs.StandardHost

namespace Script

theorem Dictionary.exists_insert {α : Type} {d : Dictionary α} {name : String} {old : α}
    (h : d.get? name = some old) (new : α) : ∃ before after, d = before ++ (name, old) :: after ∧
      d.insert name new = before ++ (name, new) :: after ∧ Dictionary.get? before name = none := by
  induction d with
  | nil => cases h
  | cons entry rest ih =>
    obtain ⟨key, value⟩ := entry
    by_cases same : key = name
    · obtain rfl : value = old := by simpa [get?, same] using h
      exact ⟨[], rest, by simp [same], by simp [insert, same], rfl⟩
    · obtain ⟨before, after, rfl, inserted, free⟩ := ih (by simpa [get?, same] using h)
      exact ⟨(key, value) :: before, after, rfl, by simp [insert, same, inserted],
        by simp [get?, same, free]⟩

namespace Environment

/-- Two environments differ in one binding alone: the nearest one of a name, which has an old value
in one of them and a new value in the other. -/
def Rebinds (name : String) (old new : Value) (e updated : Environment) : Prop :=
  ∃ (outer inner : List Scope) (before after : Scope),
    e.scopes = outer ++ (before ++ (name, old) :: after) :: inner ∧
    updated.scopes = outer ++ (before ++ (name, new) :: after) :: inner ∧
    before.get? name = none ∧ ∀ scope ∈ inner, scope.get? name = none

theorem overwrite?_of_find? {scopes : List Scope} {name : String} {old : Value}
    (h : find? scopes name = some old) (new : Value) :
    ∃ (inner outer : List Scope) (before after : Scope),
      scopes = inner ++ (before ++ (name, old) :: after) :: outer ∧
      overwrite? scopes name new = some (inner ++ (before ++ (name, new) :: after) :: outer) ∧
      before.get? name = none ∧ ∀ scope ∈ inner, scope.get? name = none := by
  induction scopes with
  | nil => cases h
  | cons scope rest ih =>
    cases bound : scope.get? name with
    | some value =>
      obtain rfl : value = old := by simpa [find?, bound] using h
      obtain ⟨before, after, split, inserted, free⟩ := Dictionary.exists_insert bound new
      refine ⟨[], rest, before, after, by rw [split]; rfl, ?_, free, by simp⟩
      simp [overwrite?, Dictionary.has, bound, inserted]
    | none =>
      obtain ⟨inner, outer, before, after, rfl, written, free, unbound⟩ :=
        ih (by simpa [find?, bound] using h)
      refine ⟨scope :: inner, outer, before, after, rfl, ?_, free, ?_⟩
      · simp [overwrite?, Dictionary.has, bound, written]
      · simpa [bound] using unbound

theorem overwrite?_of_find?_eq_none {scopes : List Scope} {name : String}
    (h : find? scopes name = none) (new : Value) : overwrite? scopes name new = none := by
  rw [← Option.not_isSome_iff_eq_none, isSome_overwrite?, h]
  nofun

theorem unbound_of_find?_eq_none {scopes : List Scope} {name : String}
    (h : find? scopes name = none) : ∀ scope ∈ scopes, scope.get? name = none := by
  induction scopes with
  | nil => nofun
  | cons scope rest ih =>
    cases bound : scope.get? name with
    | some value => simp [find?, bound] at h
    | none => simpa [bound] using ih (by simpa [find?, bound] using h)

theorem exists_assign? {e : Environment} {name : String} {old : Value}
    (h : e.get? name = some old) (new : Value) :
    ∃ updated, e.assign? name new = some updated ∧ e.Rebinds name old new updated := by
  rcases e with ⟨globals, locals⟩
  cases found : find? locals name with
  | some value =>
    obtain rfl : value = old := by simpa [get?, found] using h
    obtain ⟨inner, outer, before, after, rfl, written, free, unbound⟩ :=
      overwrite?_of_find? found new
    refine ⟨⟨globals, inner ++ (before ++ (name, new) :: after) :: outer⟩,
      by simp only [assign?, written], globals :: outer.reverse, inner.reverse, before, after,
      ?_, ?_, free, ?_⟩
    · simp [scopes]
    · simp [scopes]
    · simpa using unbound
  | none =>
    have bound : globals.get? name = some old := by simpa [get?, found] using h
    have written := overwrite?_of_find?_eq_none found new
    obtain ⟨before, after, split, inserted, free⟩ := Dictionary.exists_insert bound new
    refine ⟨⟨globals.insert name new, locals⟩,
      by simp only [assign?, written, Dictionary.has, bound, Option.isSome_some, if_true],
      [], locals.reverse, before, after, ?_, ?_, free, ?_⟩
    · simp [scopes, split]
    · simp [scopes, inserted]
    · simpa using unbound_of_find?_eq_none found

end Environment

/-- The element that a path of indices leads to from a variable, each index with the span of its
index expression. -/
def Expr.element (name : String) (span : Span) (path : List (Expr × Span)) : Expr :=
  path.foldl (fun owner p => .index p.2 owner p.1) (.name span name)

theorem Expr.targetWith_foldl (path suffix : List (Expr × Span)) (e : Expr) :
    (path.foldl (fun owner p => Expr.index p.2 owner p.1) e).targetWith suffix =
      e.targetWith (path ++ suffix) := by
  induction path generalizing e with
  | nil => rfl
  | cons p path ih => exact ih _

theorem Expr.target?_element (name : String) (span : Span) (path : List (Expr × Span)) :
    (Expr.element name span path).target? = some ⟨name, span, path⟩ := by
  rw [element, target?, targetWith_foldl, List.append_nil]
  rfl

namespace Plan

section Store

variable {job : Runner} {m : Interpreter} {name : String} {span : Span} {old new : Value}
  {path : List (Value × Span)}

theorem run_lookup (h : m.environment.get? name = some old) :
    (lookup name span).run job m = .value old m := by
  simp only [lookup, Bind.bind, run, Outcome.bind, h]

theorem run_store_of_unbound (h : m.environment.get? name = none) :
    (store name span path new).run job m =
      .error ⟨.undefinedVariable name, some span, m.calls.trace⟩ m := by
  simp only [store, lookup, Bind.bind, run, Outcome.bind, h]
  rfl

theorem run_store_of_error {e : OperationError} {place : Span}
    (h : m.environment.get? name = some old) (failed : old.replaceAt new path = .error (e, place)) :
    (store name span path new).run job m =
      .error ⟨.operation e, some place, m.calls.trace⟩ m := by
  change ((lookup name span).run job m).bind _ = _
  rw [run_lookup h]
  simp only [Outcome.bind, failed]
  rfl

theorem run_store_of_ok {updated : Value} (span : Span) (h : m.environment.get? name = some old)
    (written : old.replaceAt new path = .ok updated) :
    ∃ environment, m.environment.Rebinds name old updated environment ∧
      ∀ job, (store name span path new).run job m =
        .value () { m with environment := environment } := by
  obtain ⟨environment, assigned, rebinds⟩ := Environment.exists_assign? h updated
  refine ⟨environment, rebinds, fun job => ?_⟩
  change ((lookup name span).run job m).bind _ = _
  rw [run_lookup h]
  simp only [Outcome.bind, written, overwrite, Bind.bind, run, assigned]
  simp only [Change.apply, assigned, Option.getD_some]

end Store

variable {α β : Type} {m : Interpreter}

theorem gives_of_run {x : Plan α} {o : Outcome α} (h : ∀ job, x.run job m = o) : x.Gives m o :=
  ⟨0, fun _ _ => h _⟩

theorem gives_bind_outcome {x : Plan β} {next : β → Plan α} {o : Outcome β} {finish : β → Run α}
    (hx : x.Gives m o)
    (hn : ∀ b inner, o = .value b inner → (next b).Gives inner (finish b inner)) :
    (x >>= next).Gives m (o.bind finish) := by
  cases o with
  | value b inner => exact gives_bind hx (hn b inner rfl)
  | error e inner => exact gives_bind_error hx
  | halted reason inner =>
    obtain ⟨enough, hx⟩ := hx
    refine ⟨enough, fun fuel hf => ?_⟩
    change (x.run _ m).bind _ = _
    rw [hx fuel hf]
    rfl

theorem gives_start_of_run {j : Job α} {fuel : Nat} (uncut : ¬(j.run fuel m).IsCut) :
    (start j).Gives m (j.run fuel m) :=
  ⟨fuel, fun _ more => j.run_of_le more m uncut⟩

end Plan

/-- Evaluates expressions from left to right, each of them once, up to the first that fails. -/
def Run.inOrder (fuel : Nat) : List Expr → Run (List Value)
  | [] => pure []
  | e :: rest => do
    let value ← Run.evaluate fuel e
    let values ← Run.inOrder fuel rest
    pure (value :: values)

section InOrder

variable {fuel : Nat} {m : Interpreter}

theorem Run.inOrder_cons (e : Expr) (rest : List Expr) :
    Run.inOrder fuel (e :: rest) m = (Run.evaluate fuel e m).bind fun value m =>
      (Run.inOrder fuel rest m).bind fun values => pure (value :: values) := rfl

theorem Run.inOrder_cons_bind {α : Type} (e : Expr) (rest : List Expr)
    (next : List Value → Run α) :
    (Run.inOrder fuel (e :: rest) m).bind next = (Run.evaluate fuel e m).bind fun value m =>
      (Run.inOrder fuel rest m).bind fun values => next (value :: values) := by
  rw [inOrder_cons]
  cases Run.evaluate fuel e m with
  | value v inner =>
    change ((Run.inOrder fuel rest inner).bind _).bind _ = (Run.inOrder fuel rest inner).bind _
    cases Run.inOrder fuel rest inner <;> rfl
  | _ => rfl

theorem Run.length_inOrder {es : List Expr} {values : List Value} {s : Interpreter}
    (h : Run.inOrder fuel es m = .value values s) : values.length = es.length := by
  induction es generalizing m values with
  | nil =>
    cases h
    rfl
  | cons e rest ih =>
    rw [Run.inOrder_cons] at h
    cases first : Run.evaluate fuel e m with
    | value v inner =>
      rw [first] at h
      change (Run.inOrder fuel rest inner).bind _ = _ at h
      cases others : Run.inOrder fuel rest inner with
      | value vs last =>
        rw [others] at h
        cases h
        exact congrArg (· + 1) (ih others)
      | _ => rw [others] at h; cases h
    | _ => rw [first] at h; cases h

theorem Plan.gives_evaluateAll {es : List Expr} (uncut : ¬(Run.inOrder fuel es m).IsCut) :
    (start (.evaluateAll es)).Gives m (Run.inOrder fuel es m) := by
  refine gives_start ?_
  induction es generalizing m with
  | nil => exact gives_pure _
  | cons e rest ih =>
    rw [Run.inOrder_cons] at uncut ⊢
    refine gives_bind_outcome (gives_start_of_run fun cut => uncut (cut.bind _))
      fun value inner first => gives_bind_outcome (gives_start (ih ?_)) fun _ _ _ => gives_pure _
    intro cut
    rw [first] at uncut
    exact uncut (cut.bind _)

theorem Run.inOrder_of_le {es : List Expr} {more : Nat} (h : fuel ≤ more)
    (uncut : ¬((Job.evaluateAll es).run fuel m).IsCut) :
    Run.inOrder more es m = (Job.evaluateAll es).run fuel m := by
  induction es generalizing fuel m with
  | nil =>
    cases fuel with
    | zero => exact absurd rfl uncut
    | succ fuel => rfl
  | cons e rest ih =>
    cases fuel with
    | zero => exact absurd rfl uncut
    | succ fuel =>
      change ¬(((Job.evaluate e).run fuel m).bind fun value m =>
        ((Job.evaluateAll rest).run fuel m).bind fun values =>
          pure (value :: values)).IsCut at uncut
      change _ = ((Job.evaluate e).run fuel m).bind fun value m =>
        ((Job.evaluateAll rest).run fuel m).bind fun values => pure (value :: values)
      have first : Run.evaluate more e m = (Job.evaluate e).run fuel m :=
        Job.run_of_le (by omega) _ m fun cut => uncut (cut.bind _)
      rw [Run.inOrder_cons, first]
      cases evaluated : (Job.evaluate e).run fuel m with
      | value v inner =>
        rw [evaluated] at uncut
        change ((Run.inOrder more rest inner).bind _) = _
        rw [ih (by omega) fun cut => uncut (cut.bind _)]
        rfl
      | _ => rfl

end InOrder

/-- How a statement ends on all amounts of fuel above some. -/
def Stmt.Ends (stmt : Stmt) (m : Interpreter) (o : Outcome Signal) : Prop :=
  ∃ enough, ∀ fuel, enough ≤ fuel → Run.execute fuel stmt m = o

theorem Stmt.ends_of_gives {stmt : Stmt} {m : Interpreter} {o : Outcome Signal}
    (h : (Plan.execute stmt).Gives m o) : stmt.Ends m o := by
  have started : (Plan.start (.execute stmt)).Gives m o := Plan.gives_start h
  exact started

section Assignment

variable {name : String} {span place : Span} {path : List (Expr × Span)} {e : Expr} {fuel : Nat}
  {m : Interpreter}

theorem Plan.assignTo_element (value : Value) :
    assignTo (.element name span path) value =
      start (.evaluateAll (path.map Prod.fst)) >>= fun indices =>
        store name span (indices.zip (path.map Prod.snd)) value := by
  rw [assignTo, Expr.target?_element]

/-- An assignment ends as its operands do in their order, followed by the write. -/
theorem ends_assign (write : List Value → Run Unit)
    (uncut : ¬(Run.inOrder fuel (e :: path.map Prod.fst) m).IsCut)
    (h : ∀ new indices s,
      Run.inOrder fuel (e :: path.map Prod.fst) m = .value (new :: indices) s →
        (Plan.store name span (indices.zip (path.map Prod.snd)) new).Gives s
          (write (new :: indices) s)) :
    (Stmt.assign place (.element name span path) e).Ends m
      ((Run.inOrder fuel (e :: path.map Prod.fst) m).bind fun values => do
        write values
        pure (.normal none)) := by
  rw [Run.inOrder_cons_bind]
  rw [Run.inOrder_cons] at uncut h
  refine Stmt.ends_of_gives (Plan.gives_bind_outcome
    (Plan.gives_start_of_run fun cut => uncut (cut.bind _)) fun new inner first => ?_)
  replace first : Run.evaluate fuel e m = .value new inner := first
  rw [first] at uncut h
  have stored : (Plan.start (.assignTo (.element name span path) new)).Gives inner
      ((Run.inOrder fuel (path.map Prod.fst) inner).bind fun indices =>
        write (new :: indices)) := by
    refine Plan.gives_start ?_
    change (Plan.assignTo _ new).Gives inner _
    rw [Plan.assignTo_element]
    refine Plan.gives_bind_outcome (Plan.gives_evaluateAll fun cut => uncut (cut.bind _))
      fun indices s others => h new indices s ?_
    change (Run.inOrder fuel _ inner).bind _ = _
    rw [others]
    rfl
  have ended := Plan.gives_bind_outcome stored fun _ s _ => Plan.gives_pure (Signal.normal none)
  cases others : Run.inOrder fuel (path.map Prod.fst) inner <;> rw [others] at ended <;> exact ended

variable {s : Interpreter}

theorem ends_assign_of_failed {o : Outcome (List Value)}
    (evaluated : Run.inOrder fuel (e :: path.map Prod.fst) m = o) (uncut : ¬o.IsCut)
    (failed : ∀ values s, o ≠ .value values s) :
    (Stmt.assign place (.element name span path) e).Ends m
      (o.bind fun _ => pure (.normal none)) := by
  rw [← evaluated] at uncut
  have ended : (Stmt.assign place (.element name span path) e).Ends m _ :=
    ends_assign (fun _ => pure ()) uncut fun new indices inner value =>
      absurd (evaluated.symm.trans value) (failed _ _)
  rw [evaluated] at ended
  exact ended

theorem ends_assign_of_value {new : Value} {indices : List Value} {o : Outcome Unit}
    (evaluated : Run.inOrder fuel (e :: path.map Prod.fst) m = .value (new :: indices) s)
    (written : ∀ job,
      (Plan.store name span (indices.zip (path.map Prod.snd)) new).run job s = o) :
    (Stmt.assign place (.element name span path) e).Ends m
      (o.bind fun _ => pure (.normal none)) := by
  have uncut : ¬(Run.inOrder fuel (e :: path.map Prod.fst) m).IsCut := by
    rw [evaluated]
    exact id
  have ended : (Stmt.assign place (.element name span path) e).Ends m _ :=
    ends_assign (fun _ _ => o) uncut fun new' indices' inner same => by
      rw [evaluated] at same
      cases same
      exact Plan.gives_of_run written
  rwa [evaluated] at ended

theorem execute_assign (e : Expr) (m : Interpreter) :
    Run.execute (fuel + 2) (.assign place (.element name span path) e) m =
      ((Job.evaluate e).run (fuel + 1) m).bind fun new s =>
        (((Job.evaluateAll (path.map Prod.fst)).run fuel s).bind fun indices =>
          (Plan.store name span (indices.zip (path.map Prod.snd)) new).run (Job.runner fuel)).bind
            fun _ => pure (.normal none) := by
  change ((Job.evaluate e).run (fuel + 1) m).bind (fun new s =>
    ((Plan.assignTo (.element name span path) new).run (Job.runner fuel) s).bind _) = _
  simp only [Plan.assignTo_element]
  rfl

theorem operands_not_isCut
    (uncut : ¬(Run.execute fuel (.assign place (.element name span path) e) m).IsCut) :
    ¬(Run.inOrder fuel (e :: path.map Prod.fst) m).IsCut := by
  rcases fuel with _ | _ | fuel
  · exact absurd rfl uncut
  · exact absurd rfl uncut
  rw [execute_assign] at uncut
  have first : Run.evaluate (fuel + 2) e m = (Job.evaluate e).run (fuel + 1) m :=
    Job.run_of_le (Nat.le_succ _) _ m fun cut => uncut (cut.bind _)
  rw [Run.inOrder_cons, first]
  cases evaluated : (Job.evaluate e).run (fuel + 1) m with
  | value new s =>
    rw [evaluated] at uncut
    have indices : ¬((Job.evaluateAll (path.map Prod.fst)).run fuel s).IsCut := fun cut =>
      uncut ((cut.bind _).bind _)
    change ¬((Run.inOrder (fuel + 2) (path.map Prod.fst) s).bind _).IsCut
    rw [Run.inOrder_of_le (Nat.le_add_right fuel 2) indices]
    cases last : (Job.evaluateAll (path.map Prod.fst)).run fuel s with
    | halted reason s' =>
      rw [last] at indices
      exact indices
    | _ => exact id
  | error error s => exact id
  | halted reason s =>
    rw [evaluated] at uncut
    exact uncut

/-- An assignment to an element of a variable evaluates the new value first, and then the indices
from left to right, each once. If one of them fails, so does the assignment, in the state reached
there. Otherwise it succeeds exactly if the variable is bound then and the indices lead through
arrays, within their bounds. On success the nearest binding of the variable is all that has changed,
and in its value the element is all that has; on failure nothing has changed. -/
theorem execute_assign_element (name : String) (span place : Span) (path : List (Expr × Span))
    (e : Expr) (fuel : Nat) (m : Interpreter) :
    (¬(Run.execute fuel (.assign place (.element name span path) e) m).IsCut →
      ¬(Run.inOrder fuel (e :: path.map Prod.fst) m).IsCut) ∧
    (∀ error s, Run.inOrder fuel (e :: path.map Prod.fst) m = .error error s →
      (Stmt.assign place (.element name span path) e).Ends m (.error error s)) ∧
    (∀ reason s, Run.inOrder fuel (e :: path.map Prod.fst) m = .halted reason s →
      reason ≠ .outOfFuel →
      (Stmt.assign place (.element name span path) e).Ends m (.halted reason s)) ∧
    (∀ values s, Run.inOrder fuel (e :: path.map Prod.fst) m = .value values s →
      ∃ new indices, values = new :: indices ∧ indices.length = path.length ∧
      (∀ old, s.environment.get? name = some old → old.Reaches indices →
        ∃ updated environment, (Stmt.assign place (.element name span path) e).Ends m
            (.value (.normal none) { s with environment := environment }) ∧
          s.environment.Rebinds name old updated environment ∧ old.Updates indices new updated) ∧
      ((∀ old, s.environment.get? name = some old → ¬old.Reaches indices) →
        ∃ cause blamed, (Stmt.assign place (.element name span path) e).Ends m
          (.error ⟨cause, some blamed, s.calls.trace⟩ s))) := by
  refine ⟨operands_not_isCut, fun error s failed => ends_assign_of_failed failed id (by simp),
    fun reason s halted given => ends_assign_of_failed halted given (by simp),
    fun values s evaluated => ?_⟩
  have length := Run.length_inOrder evaluated
  obtain ⟨new, indices, rfl⟩ := List.exists_cons_of_ne_nil (List.ne_nil_of_length_pos
    (Nat.lt_of_lt_of_eq (Nat.succ_pos _) length.symm))
  have along : indices.length = path.length := by simpa using length
  have keys : (indices.zip (path.map Prod.snd)).map Prod.fst = indices :=
    List.map_fst_zip (by simp [along])
  refine ⟨new, indices, rfl, along, fun old bound reached => ?reached, fun unreached => ?unreached⟩
  case reached =>
    obtain ⟨updated, replaced⟩ := reached.exists_replaced new
    obtain ⟨environment, rebinds, written⟩ :=
      Plan.run_store_of_ok span bound (Value.replaceAt_eq_ok_iff.mpr (keys.symm ▸ replaced))
    exact ⟨updated, environment, ends_assign_of_value evaluated written, rebinds, replaced.updates⟩
  case unreached =>
    cases bound : s.environment.get? name with
    | none =>
      exact ⟨_, _, ends_assign_of_value evaluated fun job => Plan.run_store_of_unbound bound⟩
    | some old =>
      cases written : old.replaceAt new (indices.zip (path.map Prod.snd)) with
      | ok updated =>
        have replaced := Value.replaceAt_eq_ok_iff.mp written
        exact absurd (keys ▸ replaced.reaches) (unreached old bound)
      | error failure =>
        obtain ⟨failure, place⟩ := failure
        exact ⟨_, _, ends_assign_of_value evaluated fun job =>
          Plan.run_store_of_error bound written⟩

end Assignment

/-- An interpreter with a table in a variable, and a function that puts another one there and gives
the position of its last row. -/
def Interpreter.withTable : Interpreter :=
  { fresh with
    environment := ⟨[("t", .array [.int 1])], []⟩
    functions := fresh.functions.addUser "last" ⟨"last", [], [
      .assign ⟨0, 1, 1⟩ (.name ⟨0, 1, 1⟩ "t") (.array ⟨0, 1, 1⟩ [.literal ⟨0, 1, 1⟩ (.int 5),
        .array ⟨0, 1, 1⟩ [.literal ⟨0, 1, 1⟩ (.int 6)]]),
      .return ⟨0, 1, 1⟩ (some (.literal ⟨0, 1, 1⟩ (.int 1)))], ⟨0, 1, 1⟩⟩ }

def Expr.nine : Expr := .literal ⟨0, 1, 1⟩ (.int 9)

/-- The path `[last()][0]`. -/
def Expr.lastRow : List (Expr × Span) :=
  [(.call ⟨0, 1, 1⟩ "last" [], ⟨0, 1, 1⟩), (.literal ⟨0, 1, 1⟩ (.int 0), ⟨0, 1, 1⟩)]

/-- The function puts another table in place before the element is written. -/
theorem execute_assign_element_of_table :
    ∃ (s : Interpreter) (updated : Value) (environment : Environment),
      Run.inOrder 20 (.nine :: Expr.lastRow.map Prod.fst) .withTable =
        .value [.int 9, .int 1, .int 0] s ∧
      (Stmt.assign ⟨0, 1, 1⟩ (.element "t" ⟨0, 1, 1⟩ Expr.lastRow) .nine).Ends .withTable
        (.value (.normal none) { s with environment := environment }) ∧
      s.environment.Rebinds "t" (.array [.int 5, .array [.int 6]]) updated environment ∧
      updated.read [.int 1, .int 0] = .ok (.int 9) ∧ updated.read [.int 0] = .ok (.int 5) := by
  obtain ⟨s, evaluated, bound⟩ : ∃ s : Interpreter,
      Run.inOrder 20 (.nine :: Expr.lastRow.map Prod.fst) .withTable =
        .value [.int 9, .int 1, .int 0] s ∧
      s.environment.get? "t" = some (.array [.int 5, .array [.int 6]]) := ⟨_, rfl, rfl⟩
  have first : (0 : Int64).toInt = (0 : Nat) := rfl
  have second : (1 : Int64).toInt = (1 : Nat) := rfl
  have reached : (Value.array [.int 5, .array [.int 6]]).Reaches [.int 1, .int 0] :=
    .element second rfl (.element first rfl (.here _))
  obtain ⟨new, indices, same, -, succeeds, -⟩ :=
    (execute_assign_element "t" ⟨0, 1, 1⟩ ⟨0, 1, 1⟩ Expr.lastRow .nine 20 .withTable).2.2.2 _ s
      evaluated
  cases same
  obtain ⟨updated, environment, ended, rebinds, updates⟩ := succeeds _ bound reached
  have leaves : Value.Leaves [.int 1, .int 0] [.int 0] :=
    ⟨[], .int 1, [.int 0], .int 0, [], rfl, rfl, by simp⟩
  exact ⟨s, updated, environment, evaluated, ended, rebinds, updates.read_back [],
    updates.read_elsewhere _ leaves⟩

end Script
