import Script.Proofs.EmptyScope
import Script.Proofs.Scoping

namespace Script

namespace Outcome

variable {α β : Type} {first second third : Outcome α}

namespace MapsTo

theorem refl (o : Outcome α) : o.MapsTo id o := by
  cases o with
  | value a m => exact .value a m
  | error e m => exact .error e m
  | halted reason m => exact .halted reason rfl

theorem symm (h : first.MapsTo id second) : second.MapsTo id first := by
  cases h with
  | value a m => exact .value a m
  | error e m => exact .error e m
  | halted reason same => exact .halted reason same.symm

theorem trans (h : first.MapsTo id second) (h' : second.MapsTo id third) :
    first.MapsTo id third := by
  cases h with
  | value a m => exact h'
  | error e m => exact h'
  | halted reason same =>
    cases h' with
    | halted _ further => exact .halted reason (further.trans same)

theorem isCut (h : first.MapsTo id second) (cut : first.IsCut) : second.IsCut := by
  cases h with
  | value | error => exact cut.elim
  | halted => exact cut

theorem closeScope (h : first.MapsTo (·.insertScope 0) second) :
    first.MapsTo id (second.close Interpreter.canLeaveScope Interpreter.leaveScope) := by
  cases h with
  | value a m => exact .value a m
  | error e m => exact .error e m
  | halted reason same => exact .halted reason same

end MapsTo

/-- Whether an evaluation that has had enough fuel ends as another one does. -/
def Refines (first second : Outcome α) : Prop := ¬first.IsCut → first.MapsTo id second

namespace Refines

theorem of_mapsTo (h : first.MapsTo id second) : first.Refines second := fun _ => h

theorem of_isCut (cut : first.IsCut) : first.Refines second := fun uncut => absurd cut uncut

theorem trans (h : first.Refines second) (h' : second.Refines third) : first.Refines third := by
  intro uncut
  have mapped := h uncut
  exact mapped.trans (h' fun cut => uncut (mapped.symm.isCut cut))

theorem bind {first second : Outcome β} (h : first.Refines second) {next next' : β → Run α}
    (hn : ∀ b m, first = .value b m → second = .value b m → (next b m).Refines (next' b m)) :
    (first.bind next).Refines (second.bind next') := by
  intro uncut
  cases h fun cut => uncut (cut.bind next) with
  | value b m => exact hn b m rfl rfl uncut
  | error e m => exact .error e m
  | halted reason same => exact .halted reason same

end Refines

end Outcome

theorem Plan.refines_of_le {α : Type} {fuel more : Nat} (h : fuel ≤ more) (x : Plan α)
    (m : Interpreter) : (x.run (Job.runner fuel) m).Refines (x.run (Job.runner more) m) := by
  intro uncut
  rw [x.run_of_extends (Job.runner_extends h) m uncut]
  exact .refl _

theorem Outcome.Refines.exists_run {α : Type} {fuel more : Nat} {m : Interpreter} {j j' : Job α}
    (h : (j.run fuel m).Refines (j'.run more m)) {o : Outcome α} (ended : o.left?.isSome)
    (ho : j.run fuel m = o) : ∃ fuel, j'.run fuel m = o := by
  rw [ho] at h
  generalize hs : j'.run more m = second at h
  cases o with
  | value a m' =>
    cases h nofun
    exact ⟨more, hs⟩
  | error e m' =>
    cases h nofun
    exact ⟨more, hs⟩
  | halted => cases ended

section Loops

variable (condition : Expr) (body : List Stmt) (fuel : Nat)

/-- Leaves a loop after its body has ended with a signal, or goes on. -/
def Run.afterBody (signal : Signal) (again : Run Signal) : Run Signal :=
  match signal.leavesLoop? with
  | some signal => pure signal
  | none => again

/-- What a loop does with its body, and `again` unless that has ended it. -/
def Run.turn (body again : Run Signal) : Run Signal := do
  let signal ← body
  afterBody signal again

/-- One turn of a loop with a condition, which is left as by a `break` when it is `done`. -/
def Run.guarded (done : Run Signal) : Run Signal := do
  let value ← evaluate fuel condition
  if value.truthy then (Plan.withScope (.start (.executeAll none body))).run (Job.runner fuel)
  else done

/-- A `break` in a block of its own, for which there has to be fuel. -/
def Run.breakOut : Run Signal := if 2 ≤ fuel then pure .break else halt .outOfFuel

variable {condition body fuel} {m : Interpreter}

theorem Plan.run_afterBody (job : Runner) (signal : Signal) (again : Plan Signal)
    (m : Interpreter) :
    (afterBody signal again).run job m = Run.afterBody signal (again.run job) m := by
  unfold afterBody Run.afterBody
  cases signal.leavesLoop? <;> rfl

theorem Job.run_whileLoop : (Job.whileLoop condition body).run (fuel + 1) m =
    Run.turn (Run.guarded condition body fuel (pure .break))
      ((Job.whileLoop condition body).run fuel) m := by
  change ((Job.evaluate condition).run fuel m).bind _ =
    (((Job.evaluate condition).run fuel m).bind _).bind _
  cases (Job.evaluate condition).run fuel m with
  | value value m =>
    simp only [Outcome.bind]
    by_cases holds : value.truthy
    · rw [if_pos holds, if_pos holds]
      change (Plan.run _ _ m).bind _ = _
      congr 1
      funext signal m
      exact Plan.run_afterBody _ signal _ m
    · rw [if_neg holds, if_neg holds]
      rfl
  | error | halted => rfl

theorem Job.run_endlessLoop : (Job.endlessLoop body).run (fuel + 1) m =
    Run.turn (Run.withScope ((Job.executeAll none body).run fuel))
      ((Job.endlessLoop body).run fuel) m := by
  change (Run.withScope ((Job.executeAll none body).run fuel) m).bind _ =
    (Run.withScope ((Job.executeAll none body).run fuel) m).bind _
  congr 1
  funext signal m
  exact Plan.run_afterBody _ signal _ m

theorem Job.run_executeAll_singleton (s : Stmt) :
    (Job.executeAll none [s]).run (fuel + 2) m = (Job.execute s).run (fuel + 1) m := by
  change ((Job.execute s).run (fuel + 1) m).bind _ = _
  cases (Job.execute s).run (fuel + 1) m with
  | value signal m =>
    cases signal with
    | normal value => cases value <;> rfl
    | _ => rfl
  | error | halted => rfl

theorem Run.turn_refines {first second again again' : Run Signal}
    (h : (first m).Refines (second m))
    (ha : ∀ signal m', first m = .value signal m' → second m = .value signal m' →
      (again m').Refines (again' m')) :
    (turn first again m).Refines (turn second again' m) := by
  refine h.bind fun signal m' hf hs => ?_
  unfold afterBody
  cases signal.leavesLoop? with
  | some signal => exact .of_mapsTo (.refl _)
  | none => exact ha signal m' hf hs

theorem Run.guarded_refines {more : Nat} (h : fuel ≤ more) {done done' : Run Signal}
    (hd : fuel ≠ 0 → ∀ m, (done m).Refines (done' m)) :
    (guarded condition body fuel done m).Refines (guarded condition body more done' m) := by
  cases fuel with
  | zero => exact .of_isCut rfl
  | succ fuel =>
    refine (Plan.refines_of_le h (.start (.evaluate condition)) m).bind fun value m _ _ => ?_
    split
    · exact Plan.refines_of_le h _ m
    · exact hd (by omega) m

theorem Run.breakOut_of_le (h : 2 ≤ fuel) : breakOut fuel = pure Signal.break := if_pos h

theorem Run.breakOut_refines : (breakOut fuel m).Refines ((pure Signal.break : Run Signal) m) := by
  by_cases h : 2 ≤ fuel
  · rw [breakOut_of_le h]
    exact .of_mapsTo (.refl _)
  · exact .of_isCut (by simp only [breakOut, if_neg h]; rfl)

theorem Run.repeats_breakOut (span : Span) (host : m.OffersOnly (· ∈ Standard.builtins)) :
    (breakOut fuel m).Repeats 0
      ((Plan.withScope (.start (.executeAll none [.break span]))).run (Job.runner fuel)
        (m.insertScope 0)) := by
  rcases fuel with _ | _ | fuel
  · exact .halted .outOfFuel 0 rfl
  · exact .halted .outOfFuel 0 rfl
  · rw [breakOut_of_le (by omega)]
    exact .value Signal.break 0 host

variable (condition body fuel) in
theorem Run.repeats_guarded (if_span break_span : Span)
    (host : m.OffersOnly (· ∈ Standard.builtins)) :
    (guarded condition body fuel (breakOut fuel) m).Repeats 0
      ((Job.execute (.ifElse if_span condition body [.break break_span])).run (fuel + 1)
        (m.insertScope 0)) := by
  refine (Job.repeats fuel _ (.evaluate condition) m 0 trivial
    (fun _ => .of_statements rfl) host).bind ?_
  intro value m _ host
  by_cases holds : value.truthy
  · have keeps : (Plan.withScope (Plan.start (.executeAll none body))).KeepsTo .scopeless :=
      Rules.Lawful.block fun _ _ => trivial
    have block := keeps.repeats (k := 0) (Job.repeats fuel)
      (fun _ => Plan.contained_block _) host
    simpa only [holds, if_true] using block
  · simp only [if_neg holds]
    exact repeats_breakOut break_span host

variable (condition body) in
/-- A turn of the endless loop goes the same way, without that scope being left behind. -/
theorem Job.mapsTo_turn (fuel : Nat) (if_span break_span : Span)
    (host : m.OffersOnly (· ∈ Standard.builtins)) :
    let turn := Run.withScope ((Job.executeAll none
      [.ifElse if_span condition body [.break break_span]]).run (fuel + 2)) m
    (Run.guarded condition body fuel (Run.breakOut fuel) m).MapsTo id turn ∧
      ∀ signal m', turn = .value signal m' → m'.OffersOnly (· ∈ Standard.builtins) := by
  have repeats := Run.repeats_guarded condition body fuel if_span break_span host
  rw [← Job.run_executeAll_singleton] at repeats
  have mapped := repeats.mapped.closeScope
  refine ⟨mapped, fun signal m' gives => ?_⟩
  obtain ⟨inner, left, rfl⟩ := Outcome.left?_close (congrArg Outcome.left? gives)
  have run : (Job.executeAll none [.ifElse if_span condition body [.break break_span]]).IsRun :=
    trivial
  have entered : m.enterScope.OffersOnly (· ∈ Standard.builtins) := host.of_eq rfl
  exact (Job.extends _ run entered left).host.of_eq rfl

variable (condition body) (if_span break_span : Span)

theorem Job.whileLoop_refines (fuel : Nat) {m : Interpreter}
    (host : m.OffersOnly (· ∈ Standard.builtins)) :
    ((Job.whileLoop condition body).run fuel m).Refines
      ((Job.endlessLoop [.ifElse if_span condition body [.break break_span]]).run
        (fuel + 3) m) := by
  induction fuel generalizing m with
  | zero => exact .of_isCut rfl
  | succ fuel ih =>
    obtain ⟨same, kept⟩ := mapsTo_turn condition body (fuel + 1) if_span break_span host
    have turn : (Run.guarded condition body fuel (pure .break) m).Refines
        (Run.guarded condition body (fuel + 1) (Run.breakOut (fuel + 1)) m) := by
      refine Run.guarded_refines (by omega) fun some_fuel m => ?_
      rw [Run.breakOut_of_le (by omega)]
      exact .of_mapsTo (.refl _)
    rw [run_whileLoop, run_endlessLoop]
    refine Run.turn_refines (turn.trans (.of_mapsTo same)) fun signal m' _ gives => ?_
    exact ih (kept signal m' gives)

theorem Job.endlessLoop_refines (fuel : Nat) {m : Interpreter}
    (host : m.OffersOnly (· ∈ Standard.builtins)) :
    ((Job.endlessLoop [.ifElse if_span condition body [.break break_span]]).run fuel m).Refines
      ((Job.whileLoop condition body).run fuel m) := by
  match fuel with
  | 0 | 1 | 2 => exact .of_isCut rfl
  | fuel + 3 =>
    obtain ⟨same, kept⟩ := mapsTo_turn condition body fuel if_span break_span host
    have turn : (Run.guarded condition body fuel (Run.breakOut fuel) m).Refines
        (Run.guarded condition body (fuel + 2) (pure .break) m) :=
      Run.guarded_refines (by omega) fun _ m => Run.breakOut_refines
    rw [run_whileLoop, run_endlessLoop]
    refine Run.turn_refines (.trans (.of_mapsTo same.symm) turn) fun signal m' gives _ => ?_
    exact endlessLoop_refines (fuel + 2) (kept signal m' gives)

end Loops

/-- A `while` is an endless loop that a `break` leaves as soon as the condition does not hold, and
scopes that bind nothing cannot be told. With standard builtins, one form of a loop ends as the
other one does, with the same signal or error and in the same state, and not at all if the other one
does not. More generally, code goes the same way with a scope inserted that binds nothing, wherever
that is, unless the code itself declares a variable directly in it. -/
theorem while_as_loop :
    (∀ (condition : Expr) (body : List Stmt) (while_span loop_span if_span break_span : Span)
      (m : Interpreter), m.OffersOnly (· ∈ Standard.builtins) →
      ∀ o : Outcome Signal, o.left?.isSome →
        ((∃ fuel, Run.execute fuel (.while while_span condition body) m = o) ↔
          ∃ fuel, Run.execute fuel
            (.loop loop_span [.ifElse if_span condition body [.break break_span]]) m = o)) ∧
    ∀ {α : Type} (fuel k : Nat) (job : Job α) (m : Interpreter), job.IsRun →
      m.OffersOnly (· ∈ Standard.builtins) → (k = 0 → ∀ s ∈ job.statements, ¬s.declares) →
        (job.run fuel m).MapsTo (·.insertScope k) (job.run fuel (m.insertScope k)) := by
  constructor
  · intro condition body while_span loop_span if_span break_span m host o ended
    constructor
    · rintro ⟨fuel, ends⟩
      cases fuel with
      | zero => cases ends ▸ ended
      | succ fuel =>
        have refines := Job.whileLoop_refines condition body if_span break_span fuel host
        obtain ⟨more, ends⟩ := refines.exists_run ended ends
        exact ⟨more + 1, ends⟩
    · rintro ⟨fuel, ends⟩
      cases fuel with
      | zero => cases ends ▸ ended
      | succ fuel =>
        have refines := Job.endlessLoop_refines condition body if_span break_span fuel host
        obtain ⟨more, ends⟩ := refines.exists_run ended ends
        exact ⟨more + 1, ends⟩
  · intro α fuel k job m run host contained
    refine (Job.repeats fuel α job m k ?_ contained host).mapped
    cases job
    case perform => exact run.elim
    all_goals first | trivial | exact ⟨trivial, fun _ _ => trivial⟩ | exact fun _ _ => trivial

/-- An interpreter with a counter, and the loop that counts down to zero. -/
def Interpreter.counting : Interpreter :=
  { fresh with environment := ⟨[("n", .int 2)], []⟩ }

def Stmt.countDown : Stmt :=
  .assign ⟨0, 1, 1⟩ (.name ⟨0, 1, 1⟩ "n")
    (.binary ⟨1, 2, 1⟩ .sub (.name ⟨1, 2, 1⟩ "n") (.literal ⟨2, 3, 1⟩ (.int 1)))

theorem while_as_loop_counting : ∃ (o : Outcome Signal) (m : Interpreter),
    Run.execute 30 (.while ⟨0, 3, 1⟩ (.name ⟨0, 1, 1⟩ "n") [.countDown]) .counting = o ∧
    o.left? = some m ∧ (m.environment.globals.get? "n").bind Value.int? = some 0 ∧
    (∃ fuel, Run.execute fuel (.loop ⟨0, 3, 1⟩
      [.ifElse ⟨0, 3, 1⟩ (.name ⟨0, 1, 1⟩ "n") [.countDown] [.break ⟨0, 3, 1⟩]]) .counting = o) ∧
    o.MapsTo (·.insertScope 0) (Run.execute 30
      (.while ⟨0, 3, 1⟩ (.name ⟨0, 1, 1⟩ "n") [.countDown])
      (Interpreter.counting.insertScope 0)) := by
  have ends : ((Run.execute 30 (.while ⟨0, 3, 1⟩ (.name ⟨0, 1, 1⟩ "n") [.countDown])
      .counting).left?.bind fun m => (m.environment.globals.get? "n").bind Value.int?) =
        some 0 := by
    decide +kernel
  obtain ⟨m, left, read⟩ := Option.bind_eq_some_iff.mp ends
  have host : Interpreter.counting.OffersOnly (· ∈ Standard.builtins) :=
    Interpreter.offersOnly_fresh
  have ended := Option.isSome_of_eq_some left
  refine ⟨_, m, rfl, left, read, ?_, ?_⟩
  · exact (while_as_loop.1 (.name ⟨0, 1, 1⟩ "n") [.countDown] ⟨0, 3, 1⟩ ⟨0, 3, 1⟩ ⟨0, 3, 1⟩
      ⟨0, 3, 1⟩ .counting host _ ended).mp ⟨30, rfl⟩
  · exact while_as_loop.2 30 0
      (.execute (.while ⟨0, 3, 1⟩ (.name ⟨0, 1, 1⟩ "n") [.countDown])) .counting trivial host
      fun _ => by simp [Job.statements, Stmt.declares]

end Script
