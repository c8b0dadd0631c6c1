import Script.Proofs.Fuel

namespace Script

variable {α β : Type} {closed : Bool}

/-- Whether an evaluation has come to an end, with a value only if that is as required. It may also
wait for more input as long as that is not closed, or have taken an impossible step. -/
def Outcome.Settled (closed : Bool) (Q : α → Interpreter → Prop) : Outcome α → Prop
  | value a m => Q a m
  | error .. => True
  | halted reason _ => reason = .fault ∨ reason = .awaitsLine ∧ closed = false

namespace Outcome.Settled

variable {Q R : α → Interpreter → Prop} {o : Outcome α}

theorem not_isCut (h : o.Settled closed Q) : ¬o.IsCut := by
  cases o with
  | halted reason m =>
    rintro rfl
    rcases h with h | ⟨h, -⟩ <;> cases h
  | _ => exact id

theorem mono (h : o.Settled closed Q) (hQ : ∀ a m, Q a m → R a m) : o.Settled closed R := by
  cases o with
  | value a m => exact hQ a m h
  | _ => exact h

theorem close {possible : Interpreter → Bool} {undo : Interpreter → Interpreter}
    (h : o.Settled closed fun a m => possible m → Q a (undo m)) :
    (o.close possible undo).Settled closed Q := by
  cases o with
  | value a m =>
    simp only [Outcome.close]
    split
    · exact h ‹_›
    · exact .inl rfl
  | error e m =>
    simp only [Outcome.close]
    split
    · trivial
    · exact .inl rfl
  | halted reason m => exact h

end Outcome.Settled

namespace Plan

/-- Whether there is an amount of fuel on which a plan comes to an end. -/
def Settles (closed : Bool) (x : Plan α) (Q : α → Interpreter → Prop) (m : Interpreter) : Prop :=
  ∃ fuel, (x.run (Job.runner fuel) m).Settled closed Q

variable {Q : α → Interpreter → Prop} {m : Interpreter}

theorem Settles.mono {R : α → Interpreter → Prop} {x : Plan α} (h : x.Settles closed Q m)
    (hQ : ∀ a m, Q a m → R a m) : x.Settles closed R m :=
  h.imp fun _ settled => settled.mono hQ

theorem settles_pure {a : α} (h : Q a m) : (pure a : Plan α).Settles closed Q m := ⟨0, h⟩

theorem settles_raise {cause : Cause} {span : Span} :
    (raise cause span : Plan α).Settles closed Q m := ⟨0, trivial⟩

theorem settles_bind {x : Plan β} {next : β → Plan α}
    (hx : x.Settles closed (fun b m => (next b).Settles closed Q m) m) :
    (x >>= next).Settles closed Q m := by
  obtain ⟨fuel, hx⟩ := hx
  change (Plan.bind x next).Settles closed Q m
  cases hr : x.run (Job.runner fuel) m with
  | value b inner =>
    rw [hr] at hx
    obtain ⟨more, hn⟩ := hx
    have first : x.run (Job.runner (max fuel more)) m = .value b inner := by
      rw [← hr]
      have uncut : ¬(x.run (Job.runner fuel) m).IsCut := by simp [hr, Outcome.IsCut]
      exact run_of_extends (Job.runner_extends (Nat.le_max_left _ _)) x m uncut
    have second := run_of_extends (Job.runner_extends (Nat.le_max_right fuel more)) (next b) inner
      hn.not_isCut
    exact ⟨max fuel more, by simpa [run, first, Outcome.bind, second] using hn⟩
  | error e inner => exact ⟨fuel, by simp [run, hr, Outcome.bind, Outcome.Settled]⟩
  | halted reason inner =>
    rw [hr] at hx
    exact ⟨fuel, by simpa [run, hr, Outcome.bind, Outcome.Settled] using hx⟩

theorem settles_bind_of {P : β → Interpreter → Prop} {x : Plan β} {next : β → Plan α}
    (hx : x.Settles closed P m) (hn : ∀ b m, P b m → (next b).Settles closed Q m) :
    (x >>= next).Settles closed Q m :=
  settles_bind (hx.mono hn)

theorem settles_get_bind {next : Interpreter → Plan α} (hn : (next m).Settles closed Q m) :
    (get >>= next).Settles closed Q m := settles_bind ⟨0, hn⟩

theorem settles_change_bind {c : Change} {next : Unit → Plan α}
    (hn : (next ()).Settles closed Q (c.apply m)) : (change c >>= next).Settles closed Q m :=
  settles_bind ⟨0, hn⟩

theorem settles_readLine_bind {next : InputLine → Plan α} (input : m.world.console.closed = closed)
    (hn : ∀ line console, m.world.console.readLine = (line, console) → line ≠ .unread →
      (next line).Settles closed Q (m.withConsole console)) :
    (readLine >>= next).Settles closed Q m := by
  refine settles_bind ⟨0, ?_⟩
  change (Run.readLine m).Settled closed _
  rcases hr : m.world.console.readLine with ⟨line, console⟩
  cases line with
  | unread =>
    have waits : closed = false := by
      rw [← input]
      exact Console.closed_of_unread hr
    simp [Run.readLine, hr, Outcome.Settled, waits]
  | _ => simpa [Run.readLine, hr, Outcome.Settled] using hn _ console hr (by simp)

theorem settles_fetch_bind {name : String} {next : Fetched → Plan α}
    (hn : (next (m.source.fetch name)).Settles closed Q m) :
    (fetch name >>= next).Settles closed Q m :=
  settles_bind ⟨0, hn⟩

theorem settles_start {j : Job α} (h : j.plan.Settles closed Q m) :
    (start j).Settles closed Q m := by
  obtain ⟨fuel, h⟩ := h
  exact ⟨fuel + 1, h⟩

theorem settles_attempt_bind {x : Plan β} {next : Except RuntimeError β → Plan α}
    (hx : x.Settles closed (fun b m => (next (.ok b)).Settles closed Q m) m)
    (he : ∀ e m, (next (.error e)).Settles closed Q m) :
    (attempt x >>= next).Settles closed Q m := by
  obtain ⟨fuel, hx⟩ := hx
  refine settles_bind ⟨fuel, ?_⟩
  simp only [run, Run.attempt]
  cases hr : x.run (Job.runner fuel) m with
  | error e inner => exact he e inner
  | _ =>
    rw [hr] at hx
    exact hx

theorem settles_withScope {body : Plan α}
    (hb : body.Settles closed (fun a m => m.canLeaveScope → Q a m.leaveScope) m.enterScope) :
    (withScope body).Settles closed Q m :=
  hb.imp fun _ settled => settled.close

theorem settles_withCall {frame : Frame} {span : Span} {body : Plan α}
    (hb : ¬m.calls.isFull →
      body.Settles closed (fun a m => m.canLeaveCall → Q a m.leaveCall) (m.enterCall frame)) :
    (withCall frame span body).Settles closed Q m := by
  by_cases hf : m.calls.isFull
  · exact ⟨0, by simp [run, Run.withCall, hf, Outcome.Settled]⟩
  · obtain ⟨fuel, hb⟩ := hb hf
    exact ⟨fuel, by simpa [run, Run.withCall, hf] using hb.close⟩

theorem settles_withModule {origin : String} {body : Plan α}
    (hb : body.Settles closed (fun a inner => Q a (inner.leaveModule m.environment.locals m.file))
      (m.enterModule origin)) :
    (withModule origin body).Settles closed Q m :=
  hb.imp fun _ settled => (settled.mono fun _ _ h _ => h).close

end Plan

end Script
