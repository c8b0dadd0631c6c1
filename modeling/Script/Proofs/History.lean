import Script.Interpreter.Evaluation

namespace Script

/-- What happens in the course of an evaluation. -/
inductive Event : Type 1 where
  /-- A job is begun, with the calls that are active then. -/
  | started {α : Type} (job : Job α) (calls : CallStack)
  | changed (c : Change)
  /-- The module source was asked for a module. -/
  | fetched (name : String) (result : Fetched)
  | entered (frame : Frame)
  | left
  | began (origin : String)
  | ended
  /-- A new error, with the calls that were active then. -/
  | thrown (error : RuntimeError) (calls : CallStack)

/-- The calls that were active where a job was begun or an error was thrown. -/
def Event.calls? : Event → Option CallStack
  | started _ calls | thrown _ calls => some calls
  | _ => none

/-- What has happened so far, earliest first. -/
abbrev History := List Event

/-- Whether each event of a history is related like this to what has happened before it. -/
def History.Each (P : History → Event → Prop) (h : History) : Prop :=
  ∀ before event after, h = before ++ event :: after → P before event

theorem History.each_nil {P : History → Event → Prop} : History.Each P [] := by
  intro before event after h
  simp at h

theorem History.concat_eq_append_cons {h before after : History} {last event : Event}
    (hh : h ++ [last] = before ++ event :: after) :
    (after = [] ∧ h = before ∧ last = event) ∨
      ∃ between, after = between ++ [last] ∧ h = before ++ event :: between := by
  rcases List.eq_nil_or_concat after with rfl | ⟨between, final, rfl⟩
  · obtain ⟨rfl, hl⟩ := List.append_inj' hh rfl
    exact .inl ⟨rfl, rfl, List.head_eq_of_cons_eq hl⟩
  · rw [List.concat_eq_append, ← List.cons_append, ← List.append_assoc] at hh
    obtain ⟨rfl, hl⟩ := List.append_inj' hh rfl
    rw [List.concat_eq_append, List.head_eq_of_cons_eq hl]
    exact .inr ⟨between, rfl, rfl⟩

theorem History.each_concat {P : History → Event → Prop} {h : History} {event : Event} :
    Each P (h ++ [event]) ↔ Each P h ∧ P h event := by
  constructor
  · intro each
    refine ⟨fun before other after he => ?_, each h event [] rfl⟩
    exact each before other (after ++ [event]) (by simp [he])
  · rintro ⟨each, last⟩ before other after he
    rcases concat_eq_append_cons he with ⟨-, rfl, rfl⟩ | ⟨between, -, rfl⟩
    · exact last
    · exact each before other between rfl

namespace Outcome

variable {α : Type}

/-- Notes an event at the end of what has not been halted. -/
def noting (event : Event) (h : History) : Outcome α → Outcome α × History
  | value a m => (value a m, h ++ [event])
  | error e m => (error e m, h ++ [event])
  | halted reason m => (halted reason m, h)

theorem prefix_noting (event : Event) (h : History) (o : Outcome α) :
    h <+: (o.noting event h).2 := by
  cases o with
  | halted reason m => exact List.prefix_rfl
  | _ => exact List.prefix_append h [event]

end Outcome

namespace Plan

variable {α β : Type}

/-- Carries a plan out as `run` does, and keeps a record of what happens. -/
def record (job : (β : Type) → Job β → Interpreter → History → Outcome β × History) :
    {α : Type} → Plan α → Interpreter → History → Outcome α × History
  | _, .pure a, m, h => (.value a m, h)
  | _, .bind x next, m, h =>
    match x.record job m h with
    | (.value b m, h) => (next b).record job m h
    | (.error e m, h) => (.error e m, h)
    | (.halted reason m, h) => (.halted reason m, h)
  | _, .start j, m, h => job _ j m h
  | _, .get, m, h => (.value m m, h)
  | _, .change c, m, h => (.value () (c.apply m), h ++ [.changed c])
  | _, .readLine, m, h => (Run.readLine m, h)
  | _, .fetch name, m, h =>
    (.value (m.source.fetch name) m, h ++ [.fetched name (m.source.fetch name)])
  | _, .throw error, m, h => (.error error m, h ++ [.thrown error m.calls])
  | _, .pass error, m, h => (.error error m, h)
  | _, .halt reason, m, h => (.halted reason m, h)
  | _, .attempt x, m, h =>
    let (o, h) := x.record job m h
    (o.attempt, h)
  | _, .withScope body, m, h =>
    let (o, h) := body.record job m.enterScope h
    (o.close Interpreter.canLeaveScope Interpreter.leaveScope, h)
  | _, .withCall frame span body, m, h =>
    if m.calls.isFull then
      (.error (m.calls.overflow span) m, h ++ [.thrown (m.calls.overflow span) m.calls])
    else
      let (o, h) := body.record job (m.enterCall frame) (h ++ [.entered frame])
      (o.close Interpreter.canLeaveCall Interpreter.leaveCall).noting .left h
  | _, .withModule origin body, m, h =>
    let (o, h) := body.record job (m.enterModule origin) (h ++ [.began origin])
    (o.close (fun _ => true) (Interpreter.leaveModule m.environment.locals m.file)).noting .ended h

theorem record_outcome {job : (β : Type) → Job β → Run β}
    {recorded : (β : Type) → Job β → Interpreter → History → Outcome β × History}
    (same : ∀ (β : Type) (j : Job β) (m : Interpreter) (h : History),
      (recorded β j m h).1 = job β j m)
    (x : Plan α) (m : Interpreter) (h : History) :
    (x.record recorded m h).1 = x.run job m := by
  induction x generalizing m h with
  | bind x next ihx ihnext =>
    simp only [record, run, ← ihx m h]
    rcases x.record recorded m h with ⟨_ | _ | _, h'⟩
    · exact ihnext _ _ _
    · rfl
    · rfl
  | start j => exact same _ j m h
  | attempt x ih => simp only [record, run, Run.attempt, ← ih m h]
  | withScope body ih => simp only [record, run, Run.withScope, ← ih m.enterScope h]
  | withCall frame span body ih =>
    simp only [record, run, Run.withCall]
    split
    · rfl
    · rw [← ih (m.enterCall frame) (h ++ [.entered frame])]
      generalize (record recorded body _ _).1.close _ _ = o
      cases o <;> rfl
  | withModule origin body ih =>
    simp only [record, run, Run.withModule, ← ih (m.enterModule origin) (h ++ [.began origin])]
    generalize (record recorded body _ _).1.close _ _ = o
    cases o <;> rfl
  | _ => rfl

theorem prefix_record {recorded : (β : Type) → Job β → Interpreter → History → Outcome β × History}
    (kept : ∀ (β : Type) (j : Job β) (m : Interpreter) (h : History), h <+: (recorded β j m h).2)
    (x : Plan α) (m : Interpreter) (h : History) : h <+: (x.record recorded m h).2 := by
  induction x generalizing m h with
  | bind x next ihx ihnext =>
    have first := ihx m h
    simp only [record]
    generalize x.record recorded m h = r at first ⊢
    rcases r with ⟨_ | _ | _, h'⟩
    · exact first.trans (ihnext _ _ h')
    · exact first
    · exact first
  | start j => exact kept _ j m h
  | attempt x ih => exact ih m h
  | withScope body ih => exact ih m.enterScope h
  | withCall frame span body ih =>
    simp only [record]
    split
    · exact List.prefix_append h _
    · exact ((List.prefix_append h _).trans (ih _ _)).trans (Outcome.prefix_noting _ _ _)
  | withModule origin body ih =>
    exact ((List.prefix_append h _).trans (ih _ _)).trans (Outcome.prefix_noting _ _ _)
  | change | fetch | throw => exact List.prefix_append h _
  | _ => exact List.prefix_rfl

theorem prefix_record_bind
    {recorded : (β : Type) → Job β → Interpreter → History → Outcome β × History}
    (kept : ∀ (β : Type) (j : Job β) (m : Interpreter) (h : History), h <+: (recorded β j m h).2)
    (x : Plan β) (next : β → Plan α) (m : Interpreter) (h : History) :
    (x.record recorded m h).2 <+: ((x.bind next).record recorded m h).2 := by
  simp only [record]
  generalize x.record recorded m h = r
  rcases r with ⟨_ | _ | _, h'⟩
  · exact prefix_record kept _ _ h'
  · exact List.prefix_rfl
  · exact List.prefix_rfl

end Plan

namespace Job

variable {α : Type}

def record : Nat → {α : Type} → Job α → Interpreter → History → Outcome α × History
  | 0, _, _, m, h => (.halted .outOfFuel m, h)
  | fuel + 1, _, job, m, h =>
    job.plan.record (fun _ j => Job.record fuel j) m (h ++ [.started job m.calls])

def history (fuel : Nat) (job : Job α) (m : Interpreter) : History := (job.record fuel m []).2

theorem record_outcome (fuel : Nat) (job : Job α) (m : Interpreter) (h : History) :
    (job.record fuel m h).1 = job.run fuel m := by
  induction fuel generalizing α m h with
  | zero => rfl
  | succ fuel ih => exact Plan.record_outcome (fun _ j m h => ih j m h) job.plan m _

theorem prefix_record (fuel : Nat) (job : Job α) (m : Interpreter) (h : History) :
    h <+: (job.record fuel m h).2 := by
  induction fuel generalizing α m h with
  | zero => exact List.prefix_rfl
  | succ fuel ih =>
    exact (List.prefix_append h _).trans
      (Plan.prefix_record (fun _ j m h => ih j m h) job.plan m _)

end Job

end Script
