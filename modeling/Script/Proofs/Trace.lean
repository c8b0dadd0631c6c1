import Script.Proofs.StandardHost

namespace Script

namespace Event

def IsThrown : Event → Prop
  | thrown .. => True
  | _ => False

/-- Whether an event closes what was opened before. -/
def IsClosing : Event → Prop
  | left | ended => True
  | _ => False

/-- Whether a call of a function of the program is begun. -/
def IsCallStart : Event → Prop
  | started (.callUser ..) _ => True
  | _ => False

/-- Whether an event may come right after the start of a call: the call is entered, or an error is
thrown in its place. -/
def Answers (f : Function) (span : Span) (calls : CallStack) (e : Event) : Prop :=
  (∃ file, e = entered ⟨f.name, file, span.line⟩) ∨ ∃ error, e = thrown error calls

/-- Whether a call that is entered after so much has happened has just been begun. -/
def Begun (before : History) : Event → Prop
  | entered frame => ∃ (earlier : History) (name : String) (f : Function) (values : List Value)
      (span : Span) (calls : CallStack),
    before = earlier ++ [started (.callUser name f values span) calls] ∧
      frame.function = f.name ∧ frame.line = span.line
  | _ => True

def track (calls : List Frame) : Event → List Frame
  | entered frame => calls ++ [frame]
  | left => calls.dropLast
  | _ => calls

end Event

namespace History

/-- The calls that were entered and not left again, outermost first. -/
def pending (h : History) : List Frame := h.foldl Event.track []

@[simp]
theorem pending_concat (h : History) (e : Event) : pending (h ++ [e]) = e.track h.pending := by
  simp [pending]

theorem entered_of_mem_foldl {h : History} {calls : List Frame} {frame : Frame}
    (hf : frame ∈ h.foldl Event.track calls) : frame ∈ calls ∨ .entered frame ∈ h := by
  induction h generalizing calls with
  | nil => exact .inl hf
  | cons event h ih =>
    rcases ih hf with hf | hf
    · cases event with
      | entered other =>
        rcases List.mem_append.mp hf with hf | hf
        · exact .inl hf
        · exact .inr (by simp [List.mem_singleton.mp hf])
      | left => exact .inl (List.dropLast_subset calls hf)
      | _ => exact .inl hf
    · exact .inr (List.mem_cons_of_mem event hf)

theorem entered_of_mem_pending {h : History} {frame : Frame} (hf : frame ∈ h.pending) :
    .entered frame ∈ h :=
  (entered_of_mem_foldl hf).resolve_left (by simp)

/-- Whether an error arose in the course of a history that started with some active calls: it has
a place, it carries the calls that were active when it was thrown, and nothing but closing followed
until the end. -/
structure Raised (calls : List Frame) (e : RuntimeError) (h : History) : Prop where
  placed : e.span.isSome
  thrown : ∃ before stack after, h = before ++ .thrown e stack :: after ∧
    (∀ event ∈ before, ¬event.IsThrown) ∧ (∀ event ∈ after, event.IsClosing) ∧
      stack.trace = calls ++ pending before ∧ e.trace = stack.trace

/-- Whether each call of a function of the program that is begun is entered at once, under the name
of the function and the line of the call, unless an error is thrown in its place. -/
def Answered (h : History) : Prop :=
  ∀ (before : History) name f values span calls after,
    h = before ++ .started (.callUser name f values span) calls :: after →
      ∃ answer rest, after = answer :: rest ∧ answer.Answers f span calls

/-- Whether the calls that are entered are those of functions of the program that are begun. -/
structure EntersCalls (h : History) : Prop where
  answered : h.Answered
  begun : h.Each Event.Begun

variable {calls : List Frame} {e : RuntimeError} {h : History}

theorem Raised.close (r : Raised calls e h) {event : Event} (he : event.IsClosing) :
    Raised calls e (h ++ [event]) := by
  obtain ⟨before, stack, after, rfl, quiet, closing, active, trace⟩ := r.thrown
  refine ⟨r.placed, before, stack, after ++ [event], by simp, quiet, ?_, active, trace⟩
  intro other ho
  rcases List.mem_append.mp ho with ho | ho
  · exact closing other ho
  · obtain rfl := List.mem_singleton.mp ho
    exact he

theorem Raised.isPrefix (r : Raised calls e h) : calls <+: e.trace := by
  obtain ⟨before, stack, after, -, -, -, active, trace⟩ := r.thrown
  exact ⟨pending before, by rw [trace, active]⟩

end History

/-- What holds in the course of an evaluation with standard builtins alone that started with some
active calls, where it has not failed yet and has entered more calls. -/
structure Tracing (calls inner : List Frame) (m : Interpreter) (h : History) : Prop where
  host : m.OffersOnly (· ∈ Standard.builtins)
  active : m.calls.trace = calls ++ inner
  pending : h.pending = inner
  quiet : ∀ event ∈ h, ¬event.IsThrown
  begun : h.Each Event.Begun

namespace Tracing

variable {calls inner : List Frame} {m m' : Interpreter} {h : History}

theorem start (host : m.OffersOnly (· ∈ Standard.builtins)) : Tracing m.calls.trace [] m [] :=
  ⟨host, by simp, rfl, by simp, History.each_nil⟩

theorem note (t : Tracing calls inner m h) (event : Event) (m' : Interpreter)
    (he : ¬event.IsThrown) (begun : event.Begun h) (host : m'.OffersOnly (· ∈ Standard.builtins))
    (active : m'.calls.trace = calls ++ event.track inner) :
    Tracing calls (event.track inner) m' (h ++ [event]) where
  host := host
  active := active
  pending := by simp [t.pending]
  quiet := by
    intro other ho
    rcases List.mem_append.mp ho with ho | ho
    · exact t.quiet other ho
    · obtain rfl := List.mem_singleton.mp ho
      exact he
  begun := History.each_concat.mpr ⟨t.begun, begun⟩

theorem changed (t : Tracing calls inner m h) {c : Change} (hc : ∀ b, c ≠ .addBuiltin b) :
    Tracing calls inner (c.apply m) (h ++ [.changed c]) := by
  refine t.note (.changed c) _ not_false trivial (t.host.apply hc) ?_
  rw [Interpreter.trace_apply]
  exact t.active

theorem fetched (t : Tracing calls inner m h) (name : String) (result : Fetched) :
    Tracing calls inner m (h ++ [.fetched name result]) :=
  t.note (.fetched name result) m not_false trivial t.host t.active

theorem began (t : Tracing calls inner m h) (origin : String) :
    Tracing calls inner (m.enterModule origin) (h ++ [.began origin]) :=
  t.note (.began origin) (m.enterModule origin) not_false trivial t.host t.active

theorem thrown (t : Tracing calls inner m h) (cause : Cause) (span : Span) :
    History.Raised calls ⟨cause, some span, m.calls.trace⟩
      (h ++ [.thrown ⟨cause, some span, m.calls.trace⟩ m.calls]) where
  placed := rfl
  thrown := ⟨h, m.calls, [], rfl, t.quiet, by simp, by rw [t.active, t.pending], rfl⟩

end Tracing

/-- What holds where such an evaluation ends with an error. -/
structure Traced (calls inner : List Frame) (e : RuntimeError) (m : Interpreter) (h : History) :
    Prop where
  active : m.calls.trace = calls ++ inner
  pending : h.pending = inner
  begun : h.Each Event.Begun
  raised : h.Raised calls e

theorem Traced.close {calls inner : List Frame} {e : RuntimeError} {m : Interpreter} {h : History}
    (t : Traced calls inner e m h) (event : Event) (m' : Interpreter) (he : event.IsClosing)
    (begun : event.Begun h) (active : m'.calls.trace = calls ++ event.track inner) :
    Traced calls (event.track inner) e m' (h ++ [event]) where
  active := active
  pending := by simp [t.pending]
  begun := History.each_concat.mpr ⟨t.begun, begun⟩
  raised := t.raised.close he

theorem Traced.reported {calls inner : List Frame} {e : RuntimeError} {m : Interpreter}
    {h : History} (t : Traced calls inner e m h) (answered : h.Answered) :
    calls <+: e.trace ∧ h.Raised calls e ∧ h.EntersCalls :=
  ⟨t.raised.isPrefix, t.raised, answered, t.begun⟩

theorem Tracing.fail {calls inner : List Frame} {m : Interpreter} {h : History}
    (t : Tracing calls inner m h) (cause : Cause) (span : Span) :
    Traced calls inner ⟨cause, some span, m.calls.trace⟩ m
      (h ++ [.thrown ⟨cause, some span, m.calls.trace⟩ m.calls]) where
  active := t.active
  pending := by simp [t.pending, Event.track]
  begun := History.each_concat.mpr ⟨t.begun, trivial⟩
  raised := t.thrown cause span

namespace Contract

/-- With standard builtins alone, an evaluation that starts with the given active calls ends with
the first error it throws, and that carries the calls which were active there. A ghost is the
list of the calls that are pending. -/
abbrev tracing (calls : List Frame) : Contract where
  Ghost := List Frame
  code _ := .all
  Inv := Tracing calls
  Fail := Traced calls
  HostFail inner e m h := Tracing calls inner m h ∧ ∃ error, e = .unplaced (.builtin error)
  Stop _ _ := True
  Raises _ := True
  Acts outer inner action _ := inner = outer ∧ action.Plain

theorem tracing_closes {calls inner outer : List Frame} {possible : Interpreter → Bool}
    {undo : Interpreter → Interpreter} {events : History}
    (value : ∀ m h, Tracing calls inner m h → Tracing calls outer (undo m) (h ++ events))
    (error : ∀ e m h, Traced calls inner e m h → Traced calls outer e (undo m) (h ++ events)) :
    (tracing calls).Closes inner outer possible undo events :=
  .of_stop value error (fun _ _ _ => trivial) fun _ _ _ _ => trivial

theorem tracing_kept (calls : List Frame) : (tracing calls).Kept where
  started job _ inv := inv.note (.started job _) _ not_false trivial inv.host inv.active
  changed own inv := inv.changed own.keepsHost.ne_addBuiltin
  defined _ inv := inv.changed (by simp)
  raises _ := trivial
  raisesTop _ _ := trivial
  raisesBody _ _ _ _ := trivial
  thrown span _ inv := inv.fail _ span
  located span hf := by
    obtain ⟨inv, error, rfl⟩ := hf
    exact inv.fail (.builtin error) span
  overflowed span inv _ := inv.fail _ span
  scope {inner m h} inv := by
    refine ⟨inner, rfl, ⟨inv.host, inv.active, inv.pending, inv.quiet, inv.begun⟩,
      tracing_closes ?_ ?_⟩
    · intro m h inv
      rw [List.append_nil]
      exact ⟨inv.host, inv.active, inv.pending, inv.quiet, inv.begun⟩
    · intro e m h failed
      rw [List.append_nil]
      exact ⟨failed.active, failed.pending, failed.begun, failed.raised⟩
  call {inner m h name f span arguments} values inv _ _ _ := by
    have started : Tracing calls inner m
        (h ++ [.started (.callUser name f values span) m.calls]) :=
      inv.note (.started _ _) _ not_false trivial inv.host inv.active
    have entered := started.note (.entered ⟨f.name, m.file, span.line⟩)
      (m.enterCall ⟨f.name, m.file, span.line⟩) not_false
      ⟨h, name, f, values, span, _, rfl, rfl, rfl⟩ inv.host
      (by simp [Interpreter.enterCall, Event.track, inv.active])
    rw [List.append_assoc] at entered
    refine ⟨inner ++ [⟨f.name, m.file, span.line⟩], fun _ _ => trivial, entered,
      tracing_closes ?_ ?_⟩
    · intro m h inv
      have left := inv.note .left m.leaveCall not_false trivial inv.host
        (by simp [Interpreter.leaveCall, Event.track, inv.active, ← List.append_assoc])
      simpa [Event.track] using left
    · intro e m h failed
      have left := failed.close .left m.leaveCall trivial trivial
        (by simp [Interpreter.leaveCall, Event.track, failed.active, ← List.append_assoc])
      simpa [Event.track] using left
  missed {_ _ _ name _ result} inv _ _ _ _ := by
    have marked := inv.changed (c := .mark name) (by simp)
    simpa using marked.fetched name result
  awaited _ _ _ := trivial
  module {inner m h name log text program} inv _ _ _ := by
    have marked := inv.changed (c := .mark name) (by simp)
    have retained := (marked.fetched name (.found text)).changed (c := .retain program) (by simp)
    refine ⟨inner, fun _ _ => trivial, by simpa using retained.began text.origin,
      tracing_closes ?_ ?_⟩
    · exact fun m h inv => inv.note .ended _ not_false trivial inv.host inv.active
    · exact fun e m h failed => failed.close .ended _ trivial trivial failed.active
  builtin inv _ hr hv := ⟨rfl, Standard.plain_of_mem (inv.host.of_resolve hr) hv⟩
  step acts inv := by
    obtain ⟨rfl, plain⟩ := acts
    refine step_of_plain plain inv (fun plain => ⟨rfl, plain⟩) ?_ ?_ ?_
    · exact fun hc => inv.changed hc.keepsHost.ne_addBuiltin
    · exact fun console => ⟨inv.host, inv.active, inv.pending, inv.quiet, inv.begun⟩
    · exact fun error => ⟨inv, error, rfl⟩
  halted _ _ := trivial

end Contract

namespace History

variable {h : History}

theorem answered_nil : Answered [] := by
  intro before name f values span calls after same
  simp at same

theorem Answered.note (a : h.Answered) {event : Event} (he : ¬event.IsCallStart) :
    (h ++ [event]).Answered := by
  intro before name f values span calls after same
  rcases concat_eq_append_cons same with ⟨-, -, rfl⟩ | ⟨between, rfl, earlier⟩
  · exact absurd trivial he
  · obtain ⟨answer, rest, rfl, answers⟩ := a before name f values span calls between earlier
    exact ⟨answer, rest ++ [event], rfl, answers⟩

theorem Answered.call (a : h.Answered) {name : String} {f : Function} {values : List Value}
    {span : Span} {calls : CallStack} {answer : Event} (answers : answer.Answers f span calls) :
    (h ++ [Event.started (.callUser name f values span) calls] ++ [answer]).Answered := by
  intro before name' f' values' span' calls' after same
  rcases concat_eq_append_cons same with ⟨-, -, rfl⟩ | ⟨between, rfl, earlier⟩
  · rcases answers with ⟨_, other⟩ | ⟨_, other⟩ <;> cases other
  rcases concat_eq_append_cons earlier with ⟨rfl, -, begun⟩ | ⟨inner, rfl, older⟩
  · cases begun
    exact ⟨answer, [], rfl, answers⟩
  · obtain ⟨other, rest, rfl, answers'⟩ := a before name' f' values' span' calls' inner older
    exact ⟨other, _, rfl, answers'⟩

theorem Answered.noting {α : Type} (a : h.Answered) {event : Event} (he : ¬event.IsCallStart)
    (o : Outcome α) : (o.noting event h).2.Answered := by
  cases o with
  | halted reason m => exact a
  | _ => exact a.note he

end History

theorem Plan.answered_record {α : Type} {recorded : Recorder}
    (kept : ∀ (β : Type) (j : Job β) (m : Interpreter) (h : History), h.Answered →
      (recorded β j m h).2.Answered) (x : Plan α) {m : Interpreter} {h : History}
    (a : h.Answered) : (x.record recorded m h).2.Answered := by
  have left : ¬Event.left.IsCallStart := not_false
  have ended : ¬Event.ended.IsCallStart := not_false
  induction x generalizing m h with
  | bind x next ihx ihnext =>
    have first := ihx (m := m) a
    simp only [record]
    generalize x.record recorded m h = r at first ⊢
    rcases r with ⟨_ | _ | _, h'⟩
    · exact ihnext _ first
    · exact first
    · exact first
  | start j => exact kept _ j m h a
  | attempt x ih => exact ih a
  | withScope body ih => exact ih a
  | withCall frame span body ih =>
    simp only [record]
    split
    · exact a.note not_false
    · have entered : (h ++ [Event.entered frame]).Answered := a.note not_false
      exact (ih entered).noting left _
  | withModule origin body ih =>
    have began : (h ++ [Event.began origin]).Answered := a.note not_false
    exact (ih began).noting ended _
  | change | fetch | throw => exact a.note not_false
  | _ => exact a

/-- A call of a function of a program is the first thing that happens where it is begun. -/
theorem Job.answered_record {α : Type} (fuel : Nat) (j : Job α) {m : Interpreter} {h : History}
    (a : h.Answered) : (j.record fuel m h).2.Answered := by
  induction fuel generalizing α m h with
  | zero => exact a
  | succ fuel ih =>
    have kept (β : Type) (j : Job β) (m : Interpreter) (h : History) (a : h.Answered) :
        (j.record fuel m h).2.Answered := ih j a
    cases j with
    | callUser name f values span =>
      change ((Plan.callUser f values span).record _ m _).2.Answered
      unfold Plan.callUser
      split
      · change (Plan.record _ (Plan.withCall ⟨f.name, m.file, span.line⟩ span _) m _).2.Answered
        simp only [Plan.record]
        split
        · exact a.call (.inr ⟨_, rfl⟩)
        · have left : ¬Event.left.IsCallStart := not_false
          refine History.Answered.noting ?_ left _
          exact Plan.answered_record kept _ (a.call (.inl ⟨m.file, rfl⟩))
      · exact a.call (.inr ⟨_, rfl⟩)
    | _ => exact Plan.answered_record kept _ (a.note not_false)

/-- With standard builtins alone, an error that ends an evaluation is the first one thrown, and
carries the calls which were active there: those that were so at the start, and those that were
entered since and not left. Each call of a function of the program is entered where it is begun,
unless it fails there, and no other call is. -/
theorem error_raised (fuel : Nat) (m : Interpreter)
    (host : m.OffersOnly (· ∈ Standard.builtins)) :
    (∀ stmt e m', Run.execute fuel stmt m = .error e m' →
      m.calls.trace <+: e.trace ∧
        History.Raised m.calls.trace e ((Job.execute stmt).history fuel m) ∧
          ((Job.execute stmt).history fuel m).EntersCalls) ∧
    ∀ expr e m', Run.evaluate fuel expr m = .error e m' →
      m.calls.trace <+: e.trace ∧
        History.Raised m.calls.trace e ((Job.evaluate expr).history fuel m) ∧
          ((Job.evaluate expr).history fuel m).EntersCalls := by
  have inv := Tracing.start host
  have kept := Contract.tracing_kept m.calls.trace
  constructor
  · intro stmt e m' run
    have ended := kept.run (i := []) fuel (.execute stmt) ⟨inv, trivial⟩
    rw [show (Job.execute stmt).run fuel m = .error e m' from run] at ended
    exact ended.reported (Job.answered_record fuel _ History.answered_nil)
  · intro expr e m' run
    have ended := kept.run (i := []) fuel (.evaluate expr) ⟨inv, trivial⟩
    rw [show (Job.evaluate expr).run fuel m = .error e m' from run] at ended
    exact ended.reported (Job.answered_record fuel _ History.answered_nil)

def Interpreter.underway : Interpreter :=
  { fresh with calls := ⟨#[⟨"main", "main.lm", 3⟩], CallStack.defaultLimit⟩ }

/-- Two functions, of which the second one fails, and a call of the first one. -/
def Stmt.failingTwoCallsDeep : Stmt :=
  .block ⟨0, 9, 4⟩ [
    .function ⟨1, 3, 5⟩ "outer" [] [.expr ⟨2, 3, 6⟩ (.call ⟨2, 3, 6⟩ "inner" [])],
    .function ⟨4, 6, 7⟩ "inner" [] [.return ⟨5, 6, 8⟩ (some (.name ⟨5, 6, 8⟩ "missing"))],
    .expr ⟨7, 8, 9⟩ (.call ⟨7, 8, 9⟩ "outer" [])]

theorem error_raised_two_calls_deep :
    ∃ e m, Run.execute 40 .failingTwoCallsDeep .underway = .error e m ∧
      e = ⟨.undefinedVariable "missing", some ⟨5, 6, 8⟩,
        [⟨"main", "main.lm", 3⟩, ⟨"outer", "<script>", 9⟩, ⟨"inner", "<script>", 6⟩]⟩ ∧
      [⟨"main", "main.lm", 3⟩] <+: e.trace := by
  obtain ⟨m, run⟩ : ∃ m, Run.execute 40 .failingTwoCallsDeep .underway =
      .error ⟨.undefinedVariable "missing", some ⟨5, 6, 8⟩,
        [⟨"main", "main.lm", 3⟩, ⟨"outer", "<script>", 9⟩, ⟨"inner", "<script>", 6⟩]⟩ m :=
    ⟨_, rfl⟩
  have host : Interpreter.underway.OffersOnly (· ∈ Standard.builtins) :=
    Interpreter.offersOnly_fresh
  exact ⟨_, m, run, rfl, ((error_raised 40 .underway host).1 _ _ _ run).1⟩

end Script
