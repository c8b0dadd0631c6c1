import Script.Proofs.Fuel
import Script.Proofs.StandardHost

namespace Script

variable {α β : Type} {m : Interpreter}

/-- Whether a job comes to this end when it has fuel enough. -/
def Job.Ends (j : Job α) (m : Interpreter) (o : Outcome α) : Prop :=
  ¬o.IsCut ∧ ∃ fuel, j.run fuel m = o

theorem Job.Ends.run_of_le {j : Job α} {o : Outcome α} {fuel more : Nat} (uncut : ¬o.IsCut)
    (h : j.run fuel m = o) (le : fuel ≤ more) : j.run more m = o := by
  rw [j.run_of_le le m (h ▸ uncut), h]

/-- A job has one end. -/
theorem Job.Ends.unique {j : Job α} {o o' : Outcome α} (h : j.Ends m o) (h' : j.Ends m o') :
    o = o' := by
  obtain ⟨uncut, fuel, hf⟩ := h
  obtain ⟨uncut', fuel', hf'⟩ := h'
  have left := run_of_le uncut hf (Nat.le_max_left fuel fuel')
  have right := run_of_le uncut' hf' (Nat.le_max_right fuel fuel')
  exact left.symm.trans right

theorem Job.ends_iff_of_run {j : Job α} {o o' : Outcome α} (uncut : ¬o'.IsCut)
    (h : ∀ fuel, j.run (fuel + 1) m = o') : j.Ends m o ↔ o = o' := by
  constructor
  · exact fun ends => ends.unique ⟨uncut, 1, h 0⟩
  · rintro rfl
    exact ⟨uncut, 1, h 0⟩

/-- A failure handed on by an evaluation with another type of result. -/
inductive Outcome.Fails : Outcome β → Outcome α → Prop
  | error (e : RuntimeError) (m : Interpreter) : Fails (.error e m) (.error e m)
  | halted (reason : Halt) (m : Interpreter) : Fails (.halted reason m) (.halted reason m)

namespace Outcome

variable {o : Outcome β} {o' : Outcome α}

theorem bind_congr (o : Outcome β) {next next' : β → Run α} (h : ∀ b m, next b m = next' b m) :
    o.bind next = o.bind next' := by
  cases o with
  | value b m => exact h b m
  | _ => rfl

theorem value_or_fails (o : Outcome β) (next : β → Run α) :
    (∃ b m, o = .value b m) ∨ o.Fails (o.bind next) := by
  cases o with
  | value b m => exact .inl ⟨b, m, rfl⟩
  | error e m => exact .inr (.error e m)
  | halted reason m => exact .inr (.halted reason m)

theorem Fails.bind (h : o.Fails o') (next : β → Run α) : o.bind next = o' := by
  cases h <;> rfl

theorem Fails.self (h : o.Fails o') : o.Fails o := by
  cases h with
  | error e m => exact .error e m
  | halted reason m => exact .halted reason m

theorem Fails.trans {γ : Type} {o'' : Outcome γ} (h : o.Fails o') (h' : o'.Fails o'') :
    o.Fails o'' := by
  cases h <;> cases h'
  · exact .error _ _
  · exact .halted _ _

theorem Fails.isCut_iff (h : o.Fails o') : o.IsCut ↔ o'.IsCut := by
  cases h <;> exact Iff.rfl

end Outcome

/-- Whether a statement that ends with the signal is the last one to be run. -/
def Signal.Leaves : Signal → Prop
  | normal _ => False
  | _ => True

/-- Goes on with the next statement, or stops. -/
def Signal.onward (signal : Signal) (again : Option Value → Run α) (stop : Run α) : Run α :=
  match signal with
  | normal value => again value
  | _ => stop

/-- Whether jobs run the statements of a sequence up to the first signal that leaves it, what comes
of the last signal being said by `finish`. The first argument of the jobs is the value of the last
expression statement so far. -/
structure Executor (j : Option Value → List Stmt → Job α) (finish : Signal → Span → Run α) :
    Prop where
  nil : ∀ fuel last span m, (j last []).run (fuel + 1) m = finish (.normal last) span m
  cons : ∀ fuel last stmt rest m, (j last (stmt :: rest)).run (fuel + 1) m =
    ((Job.execute stmt).run fuel m).bind fun signal =>
      signal.onward (fun value => (j (value.or last) rest).run fuel) (finish signal stmt.span)
  uncut : ∀ signal span m, ¬(finish signal span m).IsCut

namespace Executor

variable {j : Option Value → List Stmt → Job α} {finish : Signal → Span → Run α}
  {last : Option Value} {stmt : Stmt} {rest stmts : List Stmt} {o : Outcome α}

theorem ends_nil (E : Executor j finish) (span : Span) :
    (j last []).Ends m o ↔ o = finish (.normal last) span m :=
  Job.ends_iff_of_run (E.uncut _ _ _) fun fuel => E.nil fuel last span m

/-- How a sequence goes on from its first statement. -/
inductive Onward (j : Option Value → List Stmt → Job α) (finish : Signal → Span → Run α)
    (last : Option Value) (stmt : Stmt) (rest : List Stmt) (m : Interpreter) : Outcome α → Prop
  | next {value inner o} (first : (Job.execute stmt).Ends m (.value (.normal value) inner))
      (later : (j (value.or last) rest).Ends inner o) : Onward j finish last stmt rest m o
  | stop {signal inner} (leaves : signal.Leaves)
      (first : (Job.execute stmt).Ends m (.value signal inner)) :
      Onward j finish last stmt rest m (finish signal stmt.span inner)
  | fail {o' o} (first : (Job.execute stmt).Ends m o') (fails : o'.Fails o) :
      Onward j finish last stmt rest m o

theorem ends_cons (E : Executor j finish) :
    (j last (stmt :: rest)).Ends m o ↔ Onward j finish last stmt rest m o := by
  constructor
  · rintro ⟨uncut, fuel, rfl⟩
    cases fuel with
    | zero => exact absurd rfl uncut
    | succ fuel =>
      rw [E.cons] at uncut ⊢
      have first : (Job.execute stmt).Ends m ((Job.execute stmt).run fuel m) :=
        ⟨fun cut => uncut (cut.bind _), fuel, rfl⟩
      rcases ((Job.execute stmt).run fuel m).value_or_fails _ with ⟨signal, inner, h⟩ | fails
      · rw [h] at uncut first ⊢
        cases signal with
        | normal value => exact .next first ⟨uncut, fuel, rfl⟩
        | _ => exact .stop trivial first
      · exact .fail first fails
  · intro h
    cases h with
    | @next value inner _ first later =>
      obtain ⟨uncut, fuel, hf⟩ := first
      obtain ⟨uncut', more, hm⟩ := later
      refine ⟨uncut', max fuel more + 1, ?_⟩
      rw [E.cons, Job.Ends.run_of_le uncut hf (Nat.le_max_left fuel more)]
      exact Job.Ends.run_of_le uncut' hm (Nat.le_max_right fuel more)
    | @stop signal inner leaves first =>
      obtain ⟨-, fuel, hf⟩ := first
      refine ⟨E.uncut _ _ _, fuel + 1, ?_⟩
      rw [E.cons, hf]
      cases signal with
      | normal => exact leaves.elim
      | _ => rfl
    | fail first fails =>
      obtain ⟨uncut, fuel, hf⟩ := first
      refine ⟨fun cut => uncut (fails.isCut_iff.mpr cut), fuel + 1, ?_⟩
      rw [E.cons, hf]
      exact fails.bind _

end Executor

/-- Ends with an error at a place, which carries the calls that are active. -/
def Run.raise (cause : Cause) (span : Span) : Run α :=
  fun m => .error ⟨cause, some span, m.calls.trace⟩ m

namespace Signal

/-- What the signal that a program ends with comes to: there is nothing around it to leave. -/
def atTopLevel (default : Value) : Signal → Span → Run Value
  | normal value, _ => pure (value.getD default)
  | .return _, span => Run.raise (.jumpAtTopLevel .return) span
  | .break, span => Run.raise (.jumpAtTopLevel .break) span
  | .continue, span => Run.raise (.jumpAtTopLevel .continue) span

/-- What the signal that the body of a function ends with comes to. -/
def inFunction (function : String) : Signal → Span → Run Value
  | normal _, _ => pure .null
  | .return value, _ => pure value
  | .break, span => Run.raise (.jumpInFunction .break function) span
  | .continue, span => Run.raise (.jumpInFunction .continue function) span

end Signal

theorem executor_executeAll : Executor Job.executeAll fun signal _ => pure signal where
  nil _ _ _ _ := rfl
  cons fuel last stmt rest m :=
    ((Job.execute stmt).run fuel m).bind_congr fun signal _ => by cases signal <;> rfl
  uncut _ _ _ := id

theorem executor_runProgram : Executor Job.runProgram (Signal.atTopLevel .null) where
  nil _ _ _ _ := rfl
  cons fuel last stmt rest m :=
    ((Job.execute stmt).run fuel m).bind_congr fun signal _ => by cases signal <;> rfl
  uncut signal _ _ := by cases signal <;> exact id

theorem executor_runBody (function : String) :
    Executor (fun _ => Job.runBody function) (Signal.inFunction function) where
  nil _ _ _ _ := rfl
  cons fuel last stmt rest m :=
    ((Job.execute stmt).run fuel m).bind_congr fun signal _ => by cases signal <;> rfl
  uncut signal _ _ := by cases signal <;> exact id

/-- Where a sequence is left: the statements before this one have ended normally, and it ends with a
signal that leaves the sequence, in this state. -/
inductive LeftAt : List Stmt → Interpreter → Stmt → Signal → Interpreter → Prop
  | here {stmt rest m signal inner} (leaves : signal.Leaves)
      (ends : (Job.execute stmt).Ends m (.value signal inner)) :
      LeftAt (stmt :: rest) m stmt signal inner
  | later {first rest m value inner stmt signal inner'}
      (ends : (Job.execute first).Ends m (.value (.normal value) inner))
      (left : LeftAt rest inner stmt signal inner') : LeftAt (first :: rest) m stmt signal inner'

/-- The end of a sequence of statements, and what comes of it if `finish` says what the last signal
comes to, which is blamed on the statement that gave it. -/
inductive ReadBy (finish : Signal → Span → Run α) (stmts : List Stmt) (m : Interpreter) :
    Outcome Signal → Outcome α → Prop
  | through (value : Option Value) (inner : Interpreter) (span : Span) :
      ReadBy finish stmts m (.value (.normal value) inner) (finish (.normal value) span inner)
  | left {stmt signal inner} (place : LeftAt stmts m stmt signal inner) :
      ReadBy finish stmts m (.value signal inner) (finish signal stmt.span inner)
  | failed {o o'} (fails : o.Fails o') : ReadBy finish stmts m o o'

theorem LeftAt.leaves {stmts : List Stmt} {stmt : Stmt} {signal : Signal} {inner : Interpreter}
    (h : LeftAt stmts m stmt signal inner) : signal.Leaves := by
  induction h with
  | here leaves => exact leaves
  | later _ _ ih => exact ih

section Reading

variable {finish : Signal → Span → Run α} {stmt : Stmt} {rest : List Stmt} {inner : Interpreter}
  {o : Outcome Signal} {o' : Outcome α}

theorem ReadBy.cons_iff {value : Option Value}
    (first : (Job.execute stmt).Ends m (.value (.normal value) inner)) :
    ReadBy finish (stmt :: rest) m o o' ↔ ReadBy finish rest inner o o' := by
  constructor
  · intro h
    cases h with
    | through value last span => exact .through value last span
    | left place =>
      cases place with
      | here leaves ends =>
        cases first.unique ends
        exact leaves.elim
      | later ends left =>
        cases first.unique ends
        exact .left left
    | failed fails => exact .failed fails
  · intro h
    cases h with
    | through value last span => exact .through value last span
    | left place => exact .left (.later first place)
    | failed fails => exact .failed fails

theorem ReadBy.of_leaves {signal : Signal} (leaves : signal.Leaves)
    (first : (Job.execute stmt).Ends m (.value signal inner))
    (h : ReadBy finish (stmt :: rest) m (.value signal inner) o') :
    o' = finish signal stmt.span inner := by
  cases h with
  | through => exact leaves.elim
  | left place =>
    cases place with
    | here => rfl
    | later ends =>
      cases first.unique ends
      exact leaves.elim
  | failed fails => cases fails

end Reading

namespace Executor

variable {j : Option Value → List Stmt → Job α} {finish : Signal → Span → Run α}
  {last : Option Value} {o : Outcome α}

theorem ends_iff (E : Executor j finish) (stmts : List Stmt) :
    (j last stmts).Ends m o ↔
      ∃ o', (Job.executeAll last stmts).Ends m o' ∧ ReadBy finish stmts m o' o := by
  induction stmts generalizing last m with
  | nil =>
    constructor
    · intro h
      rw [E.ends_nil ⟨0, 0, 0⟩] at h
      exact ⟨_, (executor_executeAll.ends_nil ⟨0, 0, 0⟩).mpr rfl, h ▸ .through last m _⟩
    · rintro ⟨o', ends, read⟩
      rw [executor_executeAll.ends_nil ⟨0, 0, 0⟩] at ends
      subst ends
      cases read with
      | through _ _ span => exact (E.ends_nil span).mpr rfl
      | left place => cases place
      | failed fails => cases fails
  | cons stmt rest ih =>
    rw [E.ends_cons]
    constructor
    · intro h
      cases h with
      | next first later =>
        obtain ⟨o', ends, read⟩ := ih.mp later
        exact ⟨o', executor_executeAll.ends_cons.mpr (.next first ends),
          (ReadBy.cons_iff first).mpr read⟩
      | stop leaves first =>
        exact ⟨_, executor_executeAll.ends_cons.mpr (.stop leaves first),
          .left (.here leaves first)⟩
      | @fail o' _ first fails =>
        exact ⟨o', executor_executeAll.ends_cons.mpr (.fail first fails.self), .failed fails⟩
    · rintro ⟨o', ends, read⟩
      cases executor_executeAll.ends_cons.mp ends with
      | next first later => exact .next first (ih.mpr ⟨o', later, (ReadBy.cons_iff first).mp read⟩)
      | stop leaves first => exact read.of_leaves leaves first ▸ .stop leaves first
      | fail first fails =>
        cases read with
        | failed fails' => exact .fail first (fails.trans fails')
        | _ => cases fails

end Executor

/-- Whether a sequence of statements ends normally, with this value of its last expression statement
and in this state. -/
def Through (last : Option Value) (stmts : List Stmt) (m : Interpreter) (value : Option Value)
    (inner : Interpreter) : Prop :=
  (Job.executeAll last stmts).Ends m (.value (.normal value) inner)

section Through

variable {last value : Option Value} {stmt : Stmt} {rest : List Stmt} {inner : Interpreter}

theorem through_nil : Through last [] m value inner ↔ value = last ∧ inner = m := by
  have ends : (Job.executeAll last []).Ends m (.value (.normal value) inner) ↔ _ :=
    executor_executeAll.ends_nil ⟨0, 0, 0⟩
  simpa [Through, pure, Run.pure] using ends

theorem through_cons : Through last (stmt :: rest) m value inner ↔
    ∃ v between, (Job.execute stmt).Ends m (.value (.normal v) between) ∧
      Through (v.or last) rest between value inner := by
  constructor
  · intro h
    cases executor_executeAll.ends_cons.mp h with
    | next first later => exact ⟨_, _, first, later⟩
    | stop leaves => exact leaves.elim
    | fail _ fails => cases fails
  · rintro ⟨v, between, first, later⟩
    exact executor_executeAll.ends_cons.mpr (.next first later)

end Through

/-- The statements of two sequences run as one are those of the first, and those of the second
exactly if the first has ended normally. -/
theorem Executor.ends_append {j : Option Value → List Stmt → Job α}
    {finish : Signal → Span → Run α} (E : Executor j finish) {last : Option Value}
    (first second : List Stmt) {o : Outcome α} :
    (j last (first ++ second)).Ends m o ↔
      (∃ value inner, Through last first m value inner ∧ (j value second).Ends inner o) ∨
      ((j last first).Ends m o ∧ ∀ value inner, ¬Through last first m value inner) := by
  induction first generalizing last m with
  | nil =>
    have through : Through last [] m last m := through_nil.mpr ⟨rfl, rfl⟩
    constructor
    · exact fun h => .inl ⟨last, m, through, h⟩
    · rintro (⟨value, inner, ends, h⟩ | ⟨-, never⟩)
      · obtain ⟨rfl, rfl⟩ := through_nil.mp ends
        exact h
      · exact absurd through (never _ _)
  | cons stmt rest ih =>
    rw [List.cons_append, E.ends_cons, E.ends_cons]
    constructor
    · intro h
      cases h with
      | next start later =>
        rcases ih.mp later with ⟨value, inner, through, h⟩ | ⟨ends, never⟩
        · exact .inl ⟨value, inner, through_cons.mpr ⟨_, _, start, through⟩, h⟩
        · refine .inr ⟨.next start ends, fun value inner through => ?_⟩
          obtain ⟨_, _, start', through⟩ := through_cons.mp through
          cases start.unique start'
          exact never _ _ through
      | stop leaves start =>
        refine .inr ⟨.stop leaves start, fun value inner through => ?_⟩
        obtain ⟨_, _, start', -⟩ := through_cons.mp through
        cases start.unique start'
        exact leaves.elim
      | fail start fails =>
        refine .inr ⟨.fail start fails, fun value inner through => ?_⟩
        obtain ⟨_, _, start', -⟩ := through_cons.mp through
        cases start.unique start'
        cases fails
    · rintro (⟨value, inner, through, h⟩ | ⟨ends, never⟩)
      · obtain ⟨_, _, start, through⟩ := through_cons.mp through
        exact .next start (ih.mpr (.inl ⟨_, _, through, h⟩))
      · cases ends with
        | next start later =>
          exact .next start (ih.mpr (.inr ⟨later, fun value inner through =>
            never _ _ (through_cons.mpr ⟨_, _, start, through⟩)⟩))
        | stop leaves start => exact .stop leaves start
        | fail start fails => exact .fail start fails

/-- The last signal of a sequence that began with a value so far. -/
def Signal.orLast (last : Option Value) : Signal → Signal
  | normal value => normal (value.or last)
  | signal => signal

theorem Executor.resume {j : Option Value → List Stmt → Job α} {finish : Signal → Span → Run α}
    (E : Executor j finish) (last : Option Value) :
    Executor (fun value => j (value.or last)) fun signal => finish (signal.orLast last) where
  nil fuel value span m := E.nil fuel (value.or last) span m
  cons fuel value stmt rest m := by
    rw [E.cons]
    refine Outcome.bind_congr _ fun signal _ => ?_
    cases signal with
    | normal v => simp only [Signal.onward, Option.or_assoc]
    | _ => rfl
  uncut signal := E.uncut (signal.orLast last)

theorem Executor.ends_iff_none {j : Option Value → List Stmt → Job α}
    {finish : Signal → Span → Run α} (E : Executor j finish) (last : Option Value)
    (stmts : List Stmt) {o : Outcome α} :
    (j last stmts).Ends m o ↔ ∃ o', (Job.executeAll none stmts).Ends m o' ∧
      ReadBy (fun signal => finish (signal.orLast last)) stmts m o' o := by
  have resumed : (j ((none : Option Value).or last) stmts).Ends m o ↔ _ :=
    (E.resume last).ends_iff stmts
  rwa [Option.none_or] at resumed

theorem exists_readBy {stmts : List Stmt} {last : Option Value} {o : Outcome Signal}
    (h : (Job.executeAll last stmts).Ends m o) (finish : Signal → Span → Run Signal) :
    ∃ o', ReadBy finish stmts m o o' := by
  obtain ⟨o', same, read⟩ := (executor_executeAll.ends_iff stmts).mp h
  cases h.unique same
  cases read with
  | through value inner span => exact ⟨_, .through value inner span⟩
  | left place => exact ⟨_, .left place⟩
  | failed fails => exact ⟨_, .failed fails⟩

theorem ReadBy.eq_bind {stmts : List Stmt} {o : Outcome Signal} {o' : Outcome α}
    {next : Signal → Run α} (h : ReadBy (fun signal _ => next signal) stmts m o o') :
    o' = o.bind next := by
  cases h with
  | failed fails => exact (fails.bind next).symm
  | _ => rfl

theorem ends_executeAll_iff {last : Option Value} {stmts : List Stmt} {o : Outcome Signal} :
    (Job.executeAll last stmts).Ends m o ↔ ∃ o', (Job.executeAll none stmts).Ends m o' ∧
      o = o'.bind fun signal => pure (signal.orLast last) := by
  rw [executor_executeAll.ends_iff_none]
  constructor
  · rintro ⟨o', ends, read⟩
    exact ⟨o', ends, read.eq_bind⟩
  · rintro ⟨o', ends, rfl⟩
    obtain ⟨o, read⟩ := exists_readBy ends fun signal _ => pure (signal.orLast last)
    exact ⟨o', ends, read.eq_bind ▸ read⟩

theorem Signal.atTopLevel_orLast (last : Option Value) (signal : Signal) :
    atTopLevel .null (signal.orLast last) = atTopLevel (last.getD .null) signal := by
  funext span
  cases signal with
  | normal value => cases value <;> rfl
  | _ => rfl

theorem ends_runProgram_iff {last : Option Value} {stmts : List Stmt} {o : Outcome Value} :
    (Job.runProgram last stmts).Ends m o ↔ ∃ o', (Job.executeAll none stmts).Ends m o' ∧
      ReadBy (Signal.atTopLevel (last.getD .null)) stmts m o' o := by
  rw [executor_runProgram.ends_iff_none]
  simp only [Signal.atTopLevel_orLast]

/-- An end without its value. -/
def Outcome.forget (o : Outcome α) : Outcome Unit := o.bind fun _ => pure ()

/-- How programs end that are run one after another up to the first that fails. -/
inductive InTurn : List Program → Interpreter → Outcome Value → Prop
  | done (m : Interpreter) : InTurn [] m (.value .null m)
  | next {chunk rest m value inner o}
      (ends : (Job.runProgram none chunk).Ends m (.value value inner))
      (later : InTurn rest inner o) : InTurn (chunk :: rest) m o
  | stop {chunk rest m o} (ends : (Job.runProgram none chunk).Ends m o)
      (failed : o.value? = none) : InTurn (chunk :: rest) m o

theorem exists_ends_forget {last : Option Value} {stmts : List Stmt} {o : Outcome Value}
    (h : (Job.runProgram last stmts).Ends m o) (last' : Option Value) :
    ∃ o', (Job.runProgram last' stmts).Ends m o' ∧ o'.forget = o.forget := by
  obtain ⟨o₁, ends, read⟩ := ends_runProgram_iff.mp h
  cases read with
  | through value inner span =>
    exact ⟨_, ends_runProgram_iff.mpr ⟨_, ends, .through value inner span⟩, rfl⟩
  | @left stmt signal inner place =>
    refine ⟨_, ends_runProgram_iff.mpr ⟨_, ends, .left place⟩, ?_⟩
    cases signal with
    | normal => exact place.leaves.elim
    | _ => rfl
  | failed fails => exact ⟨o, ends_runProgram_iff.mpr ⟨_, ends, .failed fails⟩, rfl⟩

/-- A program ends with a value exactly if its statements end normally. -/
theorem ends_value_iff {stmts : List Stmt} {value : Value} {inner : Interpreter} :
    (Job.runProgram none stmts).Ends m (.value value inner) ↔
      ∃ last, Through none stmts m last inner ∧ value = last.getD .null := by
  rw [ends_runProgram_iff]
  constructor
  · rintro ⟨o, ends, read⟩
    generalize ho : Outcome.value value inner = o' at read
    cases read with
    | through last m' span =>
      cases ho
      exact ⟨last, ends, rfl⟩
    | @left stmt signal m' place =>
      cases signal with
      | normal => exact place.leaves.elim
      | _ => cases ho
    | failed fails => cases fails <;> cases ho
  · rintro ⟨last, through, rfl⟩
    exact ⟨_, through, .through last inner ⟨0, 0, 0⟩⟩

theorem never_through_iff {stmts : List Stmt} {o : Outcome Value}
    (h : (Job.runProgram none stmts).Ends m o) :
    (∀ value inner, ¬Through none stmts m value inner) ↔ o.value? = none := by
  constructor
  · intro never
    cases o with
    | value value inner =>
      obtain ⟨last, through, -⟩ := ends_value_iff.mp h
      exact absurd through (never _ _)
    | _ => rfl
  · intro failed value inner through
    cases h.unique (ends_value_iff.mpr ⟨value, through, rfl⟩)
    cases failed

theorem ends_flatten_iff (chunks : List Program) {last : Option Value} {bare : Outcome Unit} :
    (∃ o, (Job.runProgram last chunks.flatten).Ends m o ∧ o.forget = bare) ↔
      ∃ o, InTurn chunks m o ∧ o.forget = bare := by
  induction chunks generalizing last m bare with
  | nil =>
    constructor
    · rintro ⟨o, ends, rfl⟩
      rw [List.flatten_nil, executor_runProgram.ends_nil ⟨0, 0, 0⟩] at ends
      subst ends
      exact ⟨_, .done m, rfl⟩
    · rintro ⟨o, turns, rfl⟩
      cases turns
      exact ⟨_, (executor_runProgram.ends_nil ⟨0, 0, 0⟩).mpr rfl, rfl⟩
  | cons chunk rest ih =>
    constructor
    · rintro ⟨o, ends, rfl⟩
      obtain ⟨o, ends, forget⟩ := exists_ends_forget ends none
      rw [← forget]
      rw [List.flatten_cons, executor_runProgram.ends_append] at ends
      rcases ends with ⟨value, inner, through, later⟩ | ⟨ends, never⟩
      · obtain ⟨o', turns, same⟩ := ih.mp ⟨o, later, rfl⟩
        exact ⟨o', .next (ends_value_iff.mpr ⟨value, through, rfl⟩) turns, same⟩
      · exact ⟨o, .stop ends ((never_through_iff ends).mp never), rfl⟩
    · rintro ⟨o, turns, rfl⟩
      suffices whole : ∃ o', (Job.runProgram none (chunk ++ rest.flatten)).Ends m o' ∧
          o'.forget = o.forget by
        obtain ⟨o₁, ends, forget⟩ := whole
        obtain ⟨o₂, ends, same⟩ := exists_ends_forget ends last
        exact ⟨o₂, ends, same.trans forget⟩
      cases turns with
      | next ends later =>
        obtain ⟨value, through, -⟩ := ends_value_iff.mp ends
        obtain ⟨o', later, forget⟩ := ih.mpr ⟨o, later, rfl⟩
        exact ⟨o', (executor_runProgram.ends_append _ _).mpr (.inl ⟨value, _, through, later⟩),
          forget⟩
      | stop ends failed =>
        exact ⟨o, (executor_runProgram.ends_append _ _).mpr
          (.inr ⟨ends, (never_through_iff ends).mpr failed⟩), rfl⟩

namespace Interpreter

/-- Binds parameters to arguments in the innermost scope, from left to right. -/
def bindAll (m : Interpreter) (parameters : List String) (values : List Value) : Interpreter :=
  (parameters.zip values).foldl (fun m p => (Change.declare p.1 p.2).apply m) m

/-- The state in which the body of a function starts. -/
def enterFunction (m : Interpreter) (f : Function) (values : List Value) (span : Span) :
    Interpreter :=
  (m.enterCall ⟨f.name, m.file, span.line⟩).bindAll f.parameters values

end Interpreter

theorem Plan.run_bindAll (job : Runner) (parameters : List String) (values : List Value)
    (m : Interpreter) :
    (bindAll parameters values).run job m = .value () (m.bindAll parameters values) := by
  fun_induction bindAll parameters values generalizing m with
  | case1 name names value values ih => exact ih _
  | case2 parameters values h =>
    have unbound : parameters.zip values = [] := by
      cases parameters with
      | nil => rfl
      | cons name names =>
        cases values with
        | nil => rfl
        | cons value values => exact (h name names value values rfl rfl).elim
    simp only [Interpreter.bindAll, unbound, List.foldl_nil]
    rfl

theorem Outcome.isCut_close_iff {o : Outcome α} {possible : Interpreter → Bool}
    {undo : Interpreter → Interpreter} : (o.close possible undo).IsCut ↔ o.IsCut := by
  cases o with
  | halted reason m => exact Iff.rfl
  | _ =>
    rw [close]
    split
    · exact Iff.rfl
    · exact ⟨nofun, False.elim⟩

theorem Job.ends_iff_of_close {j j' : Job α} {m' : Interpreter} {o : Outcome α}
    {possible : Interpreter → Bool} {undo : Interpreter → Interpreter}
    (h : ∀ fuel, j.run (fuel + 1) m = (j'.run fuel m').close possible undo) :
    j.Ends m o ↔ ∃ o', j'.Ends m' o' ∧ o = o'.close possible undo := by
  constructor
  · rintro ⟨uncut, fuel, rfl⟩
    cases fuel with
    | zero => exact absurd rfl uncut
    | succ fuel =>
      rw [h] at uncut ⊢
      exact ⟨_, ⟨fun cut => uncut (Outcome.isCut_close_iff.mpr cut), fuel, rfl⟩, rfl⟩
  · rintro ⟨o', ⟨uncut, fuel, rfl⟩, rfl⟩
    exact ⟨fun cut => uncut (Outcome.isCut_close_iff.mp cut), fuel + 1, h fuel⟩

theorem Job.run_callUser (name : String) (f : Function) (values : List Value) (span : Span)
    (fuel : Nat) (m : Interpreter) :
    (Job.callUser name f values span).run (fuel + 1) m =
      if values.length ≠ f.parameters.length then
        .error ⟨.argumentCount f.name f.parameters.length values.length, some span,
          m.calls.trace⟩ m
      else if m.calls.isFull then .error (m.calls.overflow span) m
      else ((Job.runBody f.name f.body).run fuel (m.enterFunction f values span)).close
        Interpreter.canLeaveCall Interpreter.leaveCall := by
  change (Plan.callUser f values span).run (Job.runner fuel) m = _
  by_cases bound : values.length = f.parameters.length
  · rw [if_neg (not_not_intro bound), Plan.callUser, if_pos bound]
    change Run.withCall _ span ((Plan.bindAll _ _ >>= fun _ => _).run (Job.runner fuel)) m = _
    rw [Run.withCall]
    congr 2
    change ((Plan.bindAll _ _).run _ _).bind _ = _
    rw [Plan.run_bindAll]
    rfl
  · rw [if_pos bound, Plan.callUser, if_neg bound]
    rfl

/-- A call with as many arguments as there are parameters runs the body inside the call, unless
there are too many calls. -/
theorem ends_callUser_iff {name : String} {f : Function} {values : List Value} {span : Span}
    {o : Outcome Value} :
    (Job.callUser name f values span).Ends m o ↔
      if values.length ≠ f.parameters.length then
        o = .error ⟨.argumentCount f.name f.parameters.length values.length, some span,
          m.calls.trace⟩ m
      else if m.calls.isFull then o = .error (m.calls.overflow span) m
      else ∃ o', (Job.runBody f.name f.body).Ends (m.enterFunction f values span) o' ∧
        o = o'.close Interpreter.canLeaveCall Interpreter.leaveCall := by
  have run (fuel : Nat) := Job.run_callUser name f values span fuel m
  split at run
  next bound =>
    rw [if_pos bound]
    exact Job.ends_iff_of_run id run
  next bound =>
    rw [if_neg bound]
    split at run
    next full =>
      rw [if_pos full]
      exact Job.ends_iff_of_run id run
    next room =>
      rw [if_neg room]
      exact Job.ends_iff_of_close run

/-- The three jobs that run statements one after another agree: `runProgram` and `runBody` end as
`executeAll` does, in the same state and with the same errors, the signal that leaves the sequence
being an error at the statement that gave it, but for a `return` in a function, whose value the body
has. The value so far tells in the value alone. Each of them runs two sequences as one as it runs
the first and then, exactly if that has ended normally, the second, so a program that is run in
chunks ends as it does in one piece. -/
theorem sequences_agree (m : Interpreter) :
    (∀ last stmts o, (Job.executeAll last stmts).Ends m o ↔
      ∃ o', (Job.executeAll none stmts).Ends m o' ∧
        o = o'.bind fun signal => pure (signal.orLast last)) ∧
    (∀ last stmts o, (Job.runProgram last stmts).Ends m o ↔
      ∃ o', (Job.executeAll none stmts).Ends m o' ∧
        ReadBy (Signal.atTopLevel (last.getD .null)) stmts m o' o) ∧
    (∀ function stmts o, (Job.runBody function stmts).Ends m o ↔
      ∃ o', (Job.executeAll none stmts).Ends m o' ∧
        ReadBy (Signal.inFunction function) stmts m o' o) ∧
    (∀ name f values span o, (Job.callUser name f values span).Ends m o ↔
      if values.length ≠ f.parameters.length then
        o = .error ⟨.argumentCount f.name f.parameters.length values.length, some span,
          m.calls.trace⟩ m
      else if m.calls.isFull then o = .error (m.calls.overflow span) m
      else ∃ o', (Job.runBody f.name f.body).Ends (m.enterFunction f values span) o' ∧
        o = o'.close Interpreter.canLeaveCall Interpreter.leaveCall) ∧
    (∀ first second o, (Job.executeAll none (first ++ second)).Ends m o ↔
      (∃ value inner, Through none first m value inner ∧
        (Job.executeAll value second).Ends inner o) ∨
      ((Job.executeAll none first).Ends m o ∧ ∀ value inner, ¬Through none first m value inner)) ∧
    (∀ first second o, (Job.runProgram none (first ++ second)).Ends m o ↔
      (∃ value inner, Through none first m value inner ∧
        (Job.runProgram value second).Ends inner o) ∨
      ((Job.runProgram none first).Ends m o ∧ ∀ value inner, ¬Through none first m value inner)) ∧
    (∀ function first second o, (Job.runBody function (first ++ second)).Ends m o ↔
      (∃ value inner, Through none first m value inner ∧
        (Job.runBody function second).Ends inner o) ∨
      ((Job.runBody function first).Ends m o ∧
        ∀ value inner, ¬Through none first m value inner)) ∧
    ∀ (chunks : List Program) (bare : Outcome Unit),
      (∃ o, (Job.runProgram none chunks.flatten).Ends m o ∧ o.forget = bare) ↔
        ∃ o, InTurn chunks m o ∧ o.forget = bare :=
  ⟨fun _ _ _ => ends_executeAll_iff, fun _ _ _ => ends_runProgram_iff,
    fun function stmts _ => (executor_runBody function).ends_iff stmts,
    fun _ _ _ _ _ => ends_callUser_iff,
    fun first second _ => executor_executeAll.ends_append first second,
    fun first second _ => executor_runProgram.ends_append first second,
    fun function first second _ => (executor_runBody function).ends_append first second,
    fun chunks _ => ends_flatten_iff chunks⟩

def Stmt.five : Stmt := .expr ⟨0, 2, 1⟩ (.literal ⟨0, 1, 1⟩ (.int 5))

/-- A chunk that ends with a value, and a `break` in the next one. -/
theorem sequences_agree_break :
    Through none [.five] .fresh (some (.int 5)) .fresh ∧
    (Job.runProgram none ([Stmt.five] ++ [Stmt.break ⟨3, 8, 2⟩])).Ends .fresh
      (.error ⟨.jumpAtTopLevel .break, some ⟨3, 8, 2⟩, []⟩ .fresh) := by
  have through : Through none [.five] .fresh (some (.int 5)) .fresh := ⟨id, 4, rfl⟩
  obtain ⟨-, -, -, -, -, programs, -⟩ := sequences_agree .fresh
  exact ⟨through, (programs _ _ _).mpr (.inl ⟨_, _, through, id, 2, rfl⟩)⟩

end Script
