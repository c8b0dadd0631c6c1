import Script.Proofs.Code
import Script.Proofs.History

namespace Script

/-- What holds of an evaluation that ends with a value, with an error, or not at all. -/
structure Post (α : Type) where
  value : α → Interpreter → History → Prop
  error : RuntimeError → Interpreter → History → Prop
  halted : Halt → History → Prop

namespace Post

variable {α β : Type}

def Holds (Q : Post α) : Outcome α × History → Prop
  | (.value a m, h) => Q.value a m h
  | (.error e m, h) => Q.error e m h
  | (.halted reason _, h) => Q.halted reason h

theorem Holds.mono {Q R : Post α} {o : Outcome α × History} (hq : Q.Holds o)
    (value : ∀ a m h, Q.value a m h → R.value a m h)
    (error : ∀ e m h, Q.error e m h → R.error e m h)
    (halted : ∀ reason h, Q.halted reason h → R.halted reason h) : R.Holds o := by
  obtain ⟨o, h⟩ := o
  cases o with
  | value a m => exact value a m h hq
  | error e m => exact error e m h hq
  | halted reason m => exact halted reason h hq

end Post

abbrev Recorder := (β : Type) → Job β → Interpreter → History → Outcome β × History

namespace Plan

variable {α β : Type} {job : Recorder} {Q : Post α} {m : Interpreter} {h : History}

/-- Whether a plan, carried out in this state, ends as required. -/
def Ensures (job : Recorder) (x : Plan α) (Q : Post α) (m : Interpreter) (h : History) : Prop :=
  Q.Holds (x.record job m h)

theorem ensures_bind {x : Plan β} {next : β → Plan α}
    (hx : x.Ensures job ⟨fun b m h => (next b).Ensures job Q m h, Q.error, Q.halted⟩ m h) :
    (x >>= next).Ensures job Q m h := by
  change (Plan.bind x next).Ensures job Q m h
  simp only [Ensures, record] at hx ⊢
  generalize x.record job m h = r at hx ⊢
  rcases r with ⟨_ | _ | _, h'⟩ <;> exact hx

theorem ensures_bind_of {P : β → Interpreter → History → Prop} {x : Plan β} {next : β → Plan α}
    (hx : x.Ensures job ⟨P, Q.error, Q.halted⟩ m h)
    (hn : ∀ b m h, P b m h → (next b).Ensures job Q m h) : (x >>= next).Ensures job Q m h :=
  ensures_bind (hx.mono hn (fun _ _ _ he => he) fun _ _ hs => hs)

theorem ensures_get_bind {next : Interpreter → Plan α} (hn : (next m).Ensures job Q m h) :
    (get >>= next).Ensures job Q m h := ensures_bind hn

theorem ensures_change_bind {c : Change} {next : Unit → Plan α}
    (hn : (next ()).Ensures job Q (c.apply m) (h ++ [.changed c])) :
    (change c >>= next).Ensures job Q m h := ensures_bind hn

theorem ensures_readLine_bind {next : InputLine → Plan α} (awaits : Q.halted .awaitsLine h)
    (hn : ∀ line console, m.world.console.readLine = (line, console) → line ≠ .unread →
      (next line).Ensures job Q (m.withConsole console) h) :
    (readLine >>= next).Ensures job Q m h := by
  refine ensures_bind ?_
  change Post.Holds _ (Run.readLine m, h)
  rcases hr : m.world.console.readLine with ⟨line, console⟩
  cases line with
  | unread => simpa [Run.readLine, hr, Post.Holds] using awaits
  | _ => simpa [Run.readLine, hr, Post.Holds] using hn _ console hr (by simp)

theorem ensures_fetch_bind {name : String} {next : Fetched → Plan α}
    (hn : (next (m.source.fetch name)).Ensures job Q m
      (h ++ [.fetched name (m.source.fetch name)])) :
    (fetch name >>= next).Ensures job Q m h := ensures_bind hn

theorem ensures_attempt_bind {x : Plan β} {next : Except RuntimeError β → Plan α}
    (hx : x.Ensures job ⟨fun b m h => (next (.ok b)).Ensures job Q m h,
      fun e m h => (next (.error e)).Ensures job Q m h, Q.halted⟩ m h) :
    (attempt x >>= next).Ensures job Q m h := by
  refine ensures_bind ?_
  simp only [Ensures, record] at hx ⊢
  generalize x.record job m h = r at hx ⊢
  rcases r with ⟨_ | _ | _, h'⟩ <;> exact hx

/-- What the end of a stretch has to be like, so that `Q` holds when it has been closed. -/
def closing (Q : Post α) (possible : Interpreter → Bool) (undo : Interpreter → Interpreter)
    (events : History) : Post α where
  value a m h := if possible m then Q.value a (undo m) (h ++ events) else Q.halted .fault h
  error e m h := if possible m then Q.error e (undo m) (h ++ events) else Q.halted .fault h
  halted := Q.halted

theorem closing_close {possible : Interpreter → Bool} {undo : Interpreter → Interpreter}
    {o : Outcome α} (hc : (closing Q possible undo []).Holds (o, h)) :
    Q.Holds (o.close possible undo, h) := by
  cases o with
  | value a m =>
    simp only [closing, Post.Holds, List.append_nil] at hc
    unfold Outcome.close
    split at hc <;> simp_all [Post.Holds]
  | error e m =>
    simp only [closing, Post.Holds, List.append_nil] at hc
    unfold Outcome.close
    split at hc <;> simp_all [Post.Holds]
  | halted reason m => exact hc

theorem closing_noting {possible : Interpreter → Bool} {undo : Interpreter → Interpreter}
    {event : Event} {o : Outcome α} (hc : (closing Q possible undo [event]).Holds (o, h)) :
    Q.Holds ((o.close possible undo).noting event h) := by
  cases o with
  | value a m =>
    simp only [closing, Post.Holds] at hc
    unfold Outcome.close
    split at hc <;> simp_all [Outcome.noting, Post.Holds]
  | error e m =>
    simp only [closing, Post.Holds] at hc
    unfold Outcome.close
    split at hc <;> simp_all [Outcome.noting, Post.Holds]
  | halted reason m => exact hc

theorem ensures_withScope {body : Plan α}
    (hb : body.Ensures job (closing Q Interpreter.canLeaveScope Interpreter.leaveScope [])
      m.enterScope h) :
    (withScope body).Ensures job Q m h := closing_close hb

theorem ensures_withCall {frame : Frame} {span : Span} {body : Plan α}
    (full : m.calls.isFull →
      Q.error (m.calls.overflow span) m (h ++ [.thrown (m.calls.overflow span) m.calls]))
    (hb : ¬m.calls.isFull →
      body.Ensures job (closing Q Interpreter.canLeaveCall Interpreter.leaveCall [.left])
        (m.enterCall frame) (h ++ [.entered frame])) :
    (withCall frame span body).Ensures job Q m h := by
  simp only [Ensures, record]
  split
  next hf => exact full hf
  next hf => exact closing_noting (hb hf)

theorem ensures_withModule {origin : String} {body : Plan α}
    (hb : body.Ensures job
      (closing Q (fun _ => true) (Interpreter.leaveModule m.environment.locals m.file) [.ended])
      (m.enterModule origin) (h ++ [.began origin])) :
    (withModule origin body).Ensures job Q m h := closing_noting hb

end Plan

end Script
