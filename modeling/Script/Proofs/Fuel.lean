import Script.Interpreter.Evaluation

namespace Script

namespace Outcome

variable {α β : Type}

def value? : Outcome α → Option α
  | value a _ => some a
  | _ => none

def error? : Outcome α → Option RuntimeError
  | error e _ => some e
  | _ => none

theorem value?_eq_some {o : Outcome α} {a : α} : o.value? = some a ↔ ∃ m, o = .value a m := by
  cases o <;> simp [value?]

theorem error?_eq_some {o : Outcome α} {e : RuntimeError} :
    o.error? = some e ↔ ∃ m, o = .error e m := by
  cases o <;> simp [error?]

/-- Whether an evaluation was given up for want of fuel. -/
def IsCut : Outcome α → Prop
  | value .. | error .. => False
  | halted reason _ => reason = .outOfFuel

theorem IsCut.bind {o : Outcome α} (h : o.IsCut) (next : α → Run β) : (o.bind next).IsCut := by
  cases o with
  | halted reason m => exact h
  | _ => exact h.elim

theorem IsCut.attempt {o : Outcome α} (h : o.IsCut) : o.attempt.IsCut := by
  cases o with
  | halted reason m => exact h
  | _ => exact h.elim

theorem IsCut.close {o : Outcome α} (h : o.IsCut) (possible : Interpreter → Bool)
    (undo : Interpreter → Interpreter) : (o.close possible undo).IsCut := by
  cases o with
  | halted reason m => exact h
  | _ => exact h.elim

end Outcome

/-- How jobs are done. -/
abbrev Runner := (β : Type) → Job β → Run β

/-- Whether one way of doing jobs gives the outcomes of another one wherever that is not cut. -/
def Runner.Extends (further job : Runner) : Prop :=
  ∀ (β : Type) (j : Job β) (m : Interpreter), ¬(job β j m).IsCut → further β j m = job β j m

variable {α : Type}

theorem Plan.run_of_extends {job further : Runner} (h : further.Extends job) (x : Plan α)
    (m : Interpreter) (uncut : ¬(x.run job m).IsCut) : x.run further m = x.run job m := by
  induction x generalizing m with
  | bind x next ihx ihnext =>
    have first : x.run further m = x.run job m := ihx m fun cut => uncut (cut.bind _)
    simp only [run, first] at uncut ⊢
    cases hx : x.run job m with
    | value b m => exact ihnext b m (by simpa [hx, Outcome.bind] using uncut)
    | _ => rfl
  | start j => exact h _ j m uncut
  | attempt x ih =>
    have inner : x.run further m = x.run job m := ih m fun cut => uncut cut.attempt
    simp only [run, Run.attempt, inner]
  | withScope body ih =>
    have inner := ih m.enterScope fun cut => uncut (cut.close _ _)
    simp only [run, Run.withScope, inner]
  | withCall frame span body ih =>
    simp only [run, Run.withCall] at uncut ⊢
    split
    · rfl
    next hf =>
      have inner := ih (m.enterCall frame) fun cut => uncut (by simpa [hf] using cut.close _ _)
      rw [inner]
  | withModule origin body ih =>
    have inner := ih (m.enterModule origin) fun cut => uncut (cut.close _ _)
    simp only [run, Run.withModule, inner]
  | _ => rfl

namespace Job

/-- The way of doing jobs on a given amount of fuel. -/
abbrev runner (fuel : Nat) : Runner := fun _ j => j.run fuel

theorem runner_extends {fuel more : Nat} (h : fuel ≤ more) :
    (runner more).Extends (runner fuel) := by
  induction fuel generalizing more with
  | zero => exact fun β j m uncut => absurd rfl uncut
  | succ fuel ih =>
    intro β j m uncut
    cases more with
    | zero => omega
    | succ more => exact Plan.run_of_extends (ih (by omega)) j.plan m uncut

/-- More fuel does not change an outcome that was not cut. -/
theorem run_of_le {fuel more : Nat} (h : fuel ≤ more) (j : Job α) (m : Interpreter)
    (uncut : ¬(j.run fuel m).IsCut) : j.run more m = j.run fuel m :=
  runner_extends h α j m uncut

end Job

namespace Plan

variable {β : Type} {m inner : Interpreter}

/-- Whether a plan comes to this end on all amounts of fuel above some. -/
def Gives (x : Plan α) (m : Interpreter) (o : Outcome α) : Prop :=
  ∃ enough, ∀ fuel, enough ≤ fuel → x.run (Job.runner fuel) m = o

theorem gives_pure (a : α) : (pure a : Plan α).Gives m (.value a m) := ⟨0, fun _ _ => rfl⟩

theorem gives_bind {x : Plan β} {next : β → Plan α} {b : β} {o : Outcome α}
    (hx : x.Gives m (.value b inner)) (hn : (next b).Gives inner o) : (x >>= next).Gives m o := by
  obtain ⟨enough, hx⟩ := hx
  obtain ⟨more, hn⟩ := hn
  refine ⟨max enough more, fun fuel hf => ?_⟩
  change (x.run _ m).bind _ = o
  rw [hx fuel (by omega)]
  exact hn fuel (by omega)

theorem gives_bind_error {x : Plan β} {next : β → Plan α} {e : RuntimeError}
    (hx : x.Gives m (.error e inner)) : (x >>= next).Gives m (.error e inner) := by
  obtain ⟨enough, hx⟩ := hx
  refine ⟨enough, fun fuel hf => ?_⟩
  change (x.run _ m).bind _ = _
  rw [hx fuel hf]
  rfl

theorem gives_start {j : Job α} {o : Outcome α} (h : j.plan.Gives m o) : (start j).Gives m o := by
  obtain ⟨enough, h⟩ := h
  refine ⟨enough + 1, fun fuel hf => ?_⟩
  obtain ⟨fuel, rfl⟩ : ∃ k, fuel = k + 1 := ⟨fuel - 1, by omega⟩
  exact h fuel (by omega)

end Plan

end Script
