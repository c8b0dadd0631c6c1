import Mathlib.Data.List.Induction
import Script.Proofs.StandardHost

namespace Script

/-- The active calls and their limit after an event. -/
def CallStack.follow (calls : CallStack) : Event → CallStack
  | .entered frame => calls.push frame
  | .left => calls.pop
  | .changed (.setLimit limit) => { calls with limit := limit }
  | _ => calls

namespace History

/-- The active calls and their limit after a history that began with the given ones. -/
def calls (start : CallStack) (h : History) : CallStack := h.foldl CallStack.follow start

/-- The largest recursion limit that has been in force so far. -/
def peak (start : CallStack) : History → Nat
  | [] => start.limit
  | event :: rest => max start.limit (peak (start.follow event) rest)

/-- Whether no change of the recursion limit has lowered it. -/
def NeverLowers (start : CallStack) (h : History) : Prop :=
  h.Each fun before event => (before.calls start).limit ≤ ((before.calls start).follow event).limit

@[simp]
theorem calls_concat (start : CallStack) (h : History) (event : Event) :
    calls start (h ++ [event]) = (h.calls start).follow event := by
  simp [calls]

@[simp]
theorem peak_concat (start : CallStack) (h : History) (event : Event) :
    peak start (h ++ [event]) = max (peak start h) ((h.calls start).follow event).limit := by
  induction h generalizing start with
  | nil => rfl
  | cons first rest ih => simp [peak, calls, ih, Nat.max_assoc]

theorem limit_le_peak (start : CallStack) (h : History) : (h.calls start).limit ≤ h.peak start := by
  rcases List.eq_nil_or_concat h with rfl | ⟨before, event, rfl⟩
  · exact Nat.le_refl _
  · rw [List.concat_eq_append, calls_concat, peak_concat]
    exact Nat.le_max_right _ _

theorem NeverLowers.peak_eq {start : CallStack} {h : History} (rising : h.NeverLowers start) :
    h.peak start = (h.calls start).limit := by
  induction h using List.reverseRecOn with
  | nil => rfl
  | append_singleton before event ih =>
    obtain ⟨earlier, last⟩ := each_concat.mp rising
    rw [peak_concat, calls_concat, ih earlier, Nat.max_eq_right last]

end History

/-- What holds of an event after a history that began with the given calls: the active calls are
those that are pending, and only a call that finds as many as the limit allows overflows. -/
def Event.FitsCalls (start : CallStack) (before : History) : Event → Prop
  | started _ calls => calls = before.calls start
  | thrown e calls => calls = before.calls start ∧
    (e.kind = .stackOverflow → calls.isFull ∧ ∃ span, e = calls.overflow span)
  | _ => True

/-- Whether a history keeps to the recursion limits in force. -/
structure History.Limited (start : CallStack) (h : History) : Prop where
  depth : ∀ before : History, before <+: h → (before.calls start).depth ≤ before.peak start
  fits : h.Each (Event.FitsCalls start)

namespace History.Limited

variable {start : CallStack} {h : History} {event : Event}

theorem concat (past : h.Limited start) (fits : event.FitsCalls start h)
    (depth : ((h.calls start).follow event).depth ≤ (h ++ [event]).peak start) :
    (h ++ [event]).Limited start where
  depth := by
    intro before hb
    rcases List.prefix_concat_iff.mp hb with rfl | hb
    · rwa [calls_concat]
    · exact past.depth before hb
  fits := each_concat.mpr ⟨past.fits, fits⟩

theorem concat_of_depth_le (past : h.Limited start) (fits : event.FitsCalls start h)
    (depth : ((h.calls start).follow event).depth ≤ (h.calls start).depth) :
    (h ++ [event]).Limited start := by
  refine past.concat fits ?_
  rw [peak_concat]
  exact Nat.le_trans (Nat.le_trans depth (past.depth h List.prefix_rfl)) (Nat.le_max_left _ _)

theorem entered (past : h.Limited start) (free : ¬(h.calls start).isFull) (frame : Frame) :
    History.Limited start (h ++ [.entered frame]) := by
  refine past.concat trivial ?_
  have room : (h.calls start).depth < (h.calls start).limit := by
    simpa [CallStack.isFull, CallStack.depth] using free
  have pushed : ((h.calls start).follow (.entered frame)).depth = (h.calls start).depth + 1 := by
    simp [CallStack.follow, CallStack.push, CallStack.depth]
  have peak := limit_le_peak start h
  rw [peak_concat, pushed]
  omega

theorem nil (outermost : start.depth = 0) : History.Limited start [] where
  depth := by
    intro before hb
    obtain rfl := List.prefix_nil.mp hb
    simp [calls, outermost]
  fits := each_nil

theorem overflow (past : h.Limited start) {before : History} {e : RuntimeError} {stack : CallStack}
    {after : History} (hh : h = before ++ .thrown e stack :: after) (hk : e.kind = .stackOverflow) :
    let limit := (before.calls start).limit
    e.message = "maximum recursion depth " ++ toString limit ++ " exceeded" ∧
      e.trace = (before.calls start).trace ∧ limit ≤ e.trace.length ∧
        (before.NeverLowers start → e.trace.length = limit) := by
  obtain ⟨rfl, overflows⟩ := past.fits before _ after hh
  obtain ⟨full, span, rfl⟩ := overflows hk
  have depth : (before.calls start).trace.length = (before.calls start).depth := by
    simp [CallStack.trace, CallStack.depth]
  have limit_le : (before.calls start).limit ≤ (before.calls start).depth := by
    simpa [CallStack.isFull, CallStack.depth] using full
  refine ⟨rfl, rfl, ?_, fun rising => ?_⟩
  · rwa [CallStack.overflow, depth]
  · have bound := past.depth before ⟨_, hh.symm⟩
    rw [rising.peak_eq] at bound
    rw [CallStack.overflow, depth]
    exact Nat.le_antisymm bound limit_le

end History.Limited

/-- What holds in the course of an evaluation with standard builtins alone that began with the given
calls. -/
structure Interpreter.Limited (start : CallStack) (m : Interpreter) (h : History) : Prop where
  host : m.OffersOnly (· ∈ Standard.builtins)
  calls : m.calls = h.calls start
  past : h.Limited start

namespace Interpreter.Limited

variable {start : CallStack} {m m' : Interpreter} {h : History} {event : Event}

theorem note (l : m.Limited start h) (fits : event.FitsCalls start h)
    (host : m'.OffersOnly (· ∈ Standard.builtins)) (calls : m'.calls = m.calls.follow event)
    (depth : m'.calls.depth ≤ m.calls.depth) : m'.Limited start (h ++ [event]) where
  host := host
  calls := by rw [calls, l.calls, History.calls_concat]
  past := l.past.concat_of_depth_le fits (by rwa [← l.calls, ← calls])

theorem changed (l : m.Limited start h) {c : Change} (hc : ∀ b, c ≠ .addBuiltin b) :
    (c.apply m).Limited start (h ++ [.changed c]) := by
  refine l.note trivial (l.host.apply hc) ?_ ?_
  · cases c <;> rfl
  · cases c <;> exact Nat.le_refl _

theorem of_eq (l : m.Limited start h) (functions : m'.functions = m.functions)
    (calls : m'.calls = m.calls) : m'.Limited start h :=
  ⟨l.host.of_eq functions, calls.trans l.calls, l.past⟩

theorem started (l : m.Limited start h) {α : Type} (job : Job α) :
    m.Limited start (h ++ [.started job m.calls]) :=
  l.note l.calls l.host rfl (Nat.le_refl _)

theorem fetched (l : m.Limited start h) (name : String) (result : Fetched) :
    m.Limited start (h ++ [.fetched name result]) :=
  l.note trivial l.host rfl (Nat.le_refl _)

theorem began (l : m.Limited start h) (origin : String) :
    (m.enterModule origin).Limited start (h ++ [.began origin]) :=
  l.note trivial (l.host.of_eq rfl) rfl (Nat.le_refl _)

theorem ended (l : m.Limited start h) (locals : List Scope) (file : String) :
    (m.leaveModule locals file).Limited start (h ++ [.ended]) :=
  l.note trivial (l.host.of_eq rfl) rfl (Nat.le_refl _)

theorem entered (l : m.Limited start h) (free : ¬m.calls.isFull) (frame : Frame) :
    (m.enterCall frame).Limited start (h ++ [.entered frame]) where
  host := l.host.of_eq rfl
  calls := by
    rw [History.calls_concat, ← l.calls]
    rfl
  past := l.past.entered (l.calls ▸ free) frame

theorem left (l : m.Limited start h) : m.leaveCall.Limited start (h ++ [.left]) := by
  refine l.note trivial (l.host.of_eq rfl) rfl ?_
  simp [Interpreter.leaveCall, CallStack.pop, CallStack.depth]

theorem thrown (l : m.Limited start h) {e : RuntimeError}
    (full : e.kind = .stackOverflow → m.calls.isFull ∧ ∃ span, e = m.calls.overflow span) :
    m.Limited start (h ++ [.thrown e m.calls]) ∧
      ∃ calls, Event.thrown e calls ∈ h ++ [.thrown e m.calls] :=
  ⟨l.note ⟨l.calls, full⟩ l.host rfl (Nat.le_refl _), m.calls, by simp⟩

end Interpreter.Limited

namespace Contract

/-- With standard builtins alone, an evaluation keeps to the recursion limits in force, and fails
only with errors that were thrown. -/
abbrev limiting (start : CallStack) : Contract where
  Ghost := Unit
  code _ := .all
  Inv _ := Interpreter.Limited start
  Fail _ e m h := m.Limited start h ∧ ∃ calls, Event.thrown e calls ∈ h
  HostFail _ e m h := m.Limited start h ∧ ∃ error, e = .unplaced (.builtin error)
  Stop _ h := h.Limited start
  Raises cause := cause.kind ≠ .stackOverflow
  Acts _ _ action _ := action.Plain

theorem limiting_closes {start : CallStack} {possible : Interpreter → Bool}
    {undo : Interpreter → Interpreter} {events : History}
    (closed : ∀ m h, m.Limited start h → (undo m).Limited start (h ++ events)) :
    (limiting start).Closes () () possible undo events := by
  refine .of_stop closed ?_ (fun m h inv => inv.past) fun e m h failed => failed.1.past
  intro e m h failed
  exact ⟨closed m h failed.1, failed.2.imp fun _ => List.mem_append_left _⟩

theorem limiting_kept (start : CallStack) : (limiting start).Kept where
  started job _ inv := inv.started job
  changed own inv := inv.changed own.keepsHost.ne_addBuiltin
  defined _ inv := inv.changed (by simp)
  raises own := own.kind_ne.2
  raisesTop _ _ := by simp [Cause.kind]
  raisesBody _ _ _ _ := by simp [Cause.kind]
  thrown _ raises inv := inv.thrown fun hk => absurd hk raises
  located _ hf := by
    obtain ⟨inv, error, rfl⟩ := hf
    exact inv.thrown fun hk => by
      simp [RuntimeError.kind, RuntimeError.locate, RuntimeError.unplaced, Cause.kind] at hk
  overflowed span inv full := inv.thrown fun _ => ⟨full, span, rfl⟩
  scope inv := by
    refine ⟨(), rfl, inv.of_eq rfl rfl, limiting_closes fun m h inv => ?_⟩
    rw [List.append_nil]
    exact inv.of_eq rfl rfl
  call {_ m _ name f span _} values inv _ _ free := by
    have entered := (inv.started (.callUser name f values span)).entered free
    exact ⟨(), fun _ _ => trivial, by simpa using entered ⟨f.name, m.file, span.line⟩,
      limiting_closes fun m h inv => inv.left⟩
  missed inv _ _ _ _ := by simpa using (inv.changed (by simp)).fetched _ _
  awaited inv _ _ := by simpa using ((inv.changed (by simp)).fetched _ _).past
  module {_ m h name log text program} inv _ _ _ := by
    have marked := inv.changed (c := .mark name) (by simp)
    have retained := (marked.fetched name (.found text)).changed (c := .retain program) (by simp)
    exact ⟨(), fun _ _ => trivial, by simpa using retained.began text.origin,
      limiting_closes fun m h inv => inv.ended _ _⟩
  builtin inv _ hr hv := Standard.plain_of_mem (inv.host.of_resolve hr) hv
  step plain inv := by
    refine step_of_plain plain inv id (fun hc => inv.changed hc.keepsHost.ne_addBuiltin) ?_ ?_
    · exact fun console => inv.of_eq rfl rfl
    · exact fun error => ⟨inv, error, rfl⟩
  halted _ inv := inv.past

end Contract

section Call

variable {fuel : Nat} {m inner : Interpreter} {h evaluated : History} {span : Span} {name : String}
  {arguments : List Expr} {values : List Value} {f : Function}

/-- What a call does once it is entered. -/
def Plan.body (f : Function) (values : List Value) : Plan Value := do
  bindAll f.parameters values
  start (.runBody f.name f.body)

theorem Job.record_evaluate_call
    (arrived : (Job.evaluateAll arguments).record fuel m
      (h ++ [.started (.evaluate (.call span name arguments)) m.calls]) =
        (.value values inner, evaluated)) :
    (Job.evaluate (.call span name arguments)).record (fuel + 1) m h =
      (Job.call name values span).record fuel inner evaluated := by
  change (Plan.evaluate (.call span name arguments)).record _ m _ = _
  simp only [Plan.evaluate, bind, Plan.record, arrived]

theorem Job.record_call (resolved : m.functions.resolve name = some (.user f)) :
    (Job.call name values span).record (fuel + 1) m h =
      (Job.callUser name f values span).record fuel m
        (h ++ [.started (.call name values span) m.calls]) := by
  change (Plan.call name values span).record _ m _ = _
  simp only [Plan.call, bind, Plan.record, resolved]

theorem Job.record_callUser (fitting : values.length = f.parameters.length) :
    (Job.callUser name f values span).record (fuel + 1) m h =
      (Plan.withCall ⟨f.name, m.file, span.line⟩ span (.body f values)).record
        (fun _ j => Job.record fuel j) m
        (h ++ [.started (.callUser name f values span) m.calls]) := by
  change (Plan.callUser f values span).record _ m _ = _
  rw [Plan.callUser, if_pos fitting]
  rfl

variable (fuel m h name span) in
/-- A call is rejected, and nothing happens any more, if as many calls are active as the limit
allows. Otherwise it is entered. -/
theorem Job.record_callUser_iff (fitting : values.length = f.parameters.length) :
    let begun := h ++ [.started (.callUser name f values span) m.calls]
    let overflow := m.calls.overflow span
    let done := (Job.callUser name f values span).record (fuel + 1) m h
    (m.calls.limit ≤ m.calls.depth ↔
      done = (.error overflow m, begun ++ [.thrown overflow m.calls])) ∧
    (m.calls.depth < m.calls.limit ↔
      begun ++ [.entered ⟨f.name, m.file, span.line⟩] <+: done.2) := by
  intro begun overflow done
  have full_iff : m.calls.isFull ↔ m.calls.limit ≤ m.calls.depth := by
    simp [CallStack.isFull, CallStack.depth]
  have full (hf : m.calls.isFull) :
      done = (.error overflow m, begun ++ [.thrown overflow m.calls]) := by
    simp only [done, record_callUser fitting, Plan.record, if_pos hf]
    rfl
  have free (hf : ¬m.calls.isFull) :
      begun ++ [.entered ⟨f.name, m.file, span.line⟩] <+: done.2 := by
    simp only [done, record_callUser fitting, Plan.record, if_neg hf]
    exact (Plan.prefix_record (fun _ => prefix_record fuel) _ _ _).trans
      (Outcome.prefix_noting _ _ _)
  have apart (hd : done = (.error overflow m, begun ++ [.thrown overflow m.calls])) :
      ¬begun ++ [.entered ⟨f.name, m.file, span.line⟩] <+: done.2 := by
    simp [hd]
  rw [← Nat.not_le, ← full_iff]
  grind

end Call

/-- With standard builtins alone and no active calls at the start: there are never more active calls
than the largest recursion limit so far allows; an overflow names the limit in force and carries all
active calls, which are as many as that or, once the limit has been lowered, perhaps more; and when
its arguments have been evaluated, a call is rejected, with nothing done or changed, if and only if
as many calls are active as the limit allows. -/
theorem calls_within_limits :
    (∀ {α : Type} (fuel : Nat) (job : Job α) (m : Interpreter), job.IsRun →
      m.OffersOnly (· ∈ Standard.builtins) → m.calls.depth = 0 →
      let h := job.history fuel m
      (∀ before : History, before <+: h →
        (before.calls m.calls).depth ≤ before.peak m.calls) ∧
      (∀ (before : History) event after calls, h = before ++ event :: after →
        event.calls? = some calls → calls = before.calls m.calls) ∧
      (∀ a m', job.run fuel m = .value a m' → m'.calls = h.calls m.calls) ∧
      (∀ e m', job.run fuel m = .error e m' → m'.calls = h.calls m.calls ∧
        ∃ calls, .thrown e calls ∈ h) ∧
      (∀ (before : History) e calls after, h = before ++ .thrown e calls :: after →
        e.kind = .stackOverflow →
        let limit := (before.calls m.calls).limit
        e.message = "maximum recursion depth " ++ toString limit ++ " exceeded" ∧
        e.trace = (before.calls m.calls).trace ∧ limit ≤ e.trace.length ∧
          (before.NeverLowers m.calls → e.trace.length = limit))) ∧
    (∀ (fuel : Nat) (name : String) (m : Interpreter), m.OffersOnly (· ∈ Standard.builtins) →
      m.calls.depth = 0 →
      ∀ module e m', Run.load fuel name m = .value (.error (.execution module e)) m' →
        ∃ calls, .thrown e calls ∈ (Job.load name).history fuel m) ∧
    ∀ (fuel : Nat) (m inner : Interpreter) (h evaluated : History) (span : Span) (name : String)
      (arguments : List Expr) (values : List Value) (f : Function),
      (Job.evaluateAll arguments).record (fuel + 2) m
        (h ++ [.started (.evaluate (.call span name arguments)) m.calls]) =
          (.value values inner, evaluated) →
      inner.functions.resolve name = some (.user f) → values.length = f.parameters.length →
      let called := evaluated ++ [.started (.call name values span) inner.calls,
        .started (.callUser name f values span) inner.calls]
      let overflow := inner.calls.overflow span
      let done := (Job.evaluate (.call span name arguments)).record (fuel + 3) m h
      (inner.calls.limit ≤ inner.calls.depth ↔
        done = (.error overflow inner, called ++ [.thrown overflow inner.calls])) ∧
      (inner.calls.depth < inner.calls.limit ↔
        called ++ [.entered ⟨f.name, inner.file, span.line⟩] <+: done.2) := by
  have inv {m : Interpreter} (host : m.OffersOnly (· ∈ Standard.builtins))
      (outermost : m.calls.depth = 0) : m.Limited m.calls [] :=
    ⟨host, rfl, .nil outermost⟩
  refine ⟨?_, ?_, ?_⟩
  · intro α fuel job m run host outermost h
    have ended := (Contract.limiting_kept m.calls).run (i := ()) fuel job
      (Contract.pre_of_isRun run (inv host outermost) (Code.all_admits job))
    have ended := Contract.post_of_isRun run ended
    have past : h.Limited m.calls := by
      generalize job.run fuel m = o at ended
      cases o with
      | value a m => exact ended.elim (·.past) fun ⟨e, failed⟩ => failed.1.past
      | error e m => exact ended.1.past
      | halted reason m => exact ended
    refine ⟨past.depth, ?_, ?_, ?_, fun before e calls after hh hk => past.overflow hh hk⟩
    · intro before event after calls hh hc
      have fits := past.fits before event after hh
      cases event with
      | started job active =>
        obtain rfl := Option.some.inj hc
        exact fits
      | thrown e active =>
        obtain rfl := Option.some.inj hc
        exact fits.1
      | _ => cases hc
    · intro a m' done
      rw [done] at ended
      exact ended.elim (·.calls) fun ⟨e, failed⟩ => failed.1.calls
    · intro e m' done
      rw [done] at ended
      exact ⟨ended.1.calls, ended.2⟩
  · intro fuel name m host outermost module e m' done
    have ended := (Contract.limiting_kept m.calls).run (i := ()) fuel (.load name)
      ⟨inv host outermost, trivial⟩
    rw [show (Job.load name).run fuel m = _ from done] at ended
    exact ended.2
  · intro fuel m inner h evaluated span name arguments values f arrived resolved fitting
    have called := (Job.record_evaluate_call arrived).trans (Job.record_call resolved)
    intro begun overflow done
    have decided := Job.record_callUser_iff fuel inner
      (evaluated ++ [.started (.call name values span) inner.calls]) span name fitting
    simpa [begun, overflow, done, called] using decided

/-- A function that lowers the limit and calls itself, called by another one. -/
def Program.loweringLimit : Program := [
  .function ⟨0, 1, 1⟩ "g" [] [
    .expr ⟨1, 2, 2⟩ (.call ⟨1, 2, 2⟩ "set_recursion_limit" [.literal ⟨2, 3, 2⟩ (.int 1)]),
    .expr ⟨3, 4, 3⟩ (.call ⟨3, 4, 3⟩ "g" [])],
  .function ⟨4, 5, 4⟩ "f" [] [.expr ⟨5, 6, 5⟩ (.call ⟨5, 6, 5⟩ "g" [])],
  .expr ⟨6, 7, 6⟩ (.call ⟨6, 7, 6⟩ "f" [])]

/-- An interpreter with more active calls than its limit allows. -/
def Interpreter.overfull : Interpreter :=
  { fresh with
    functions := fresh.functions.addUser "g" ⟨"g", [], [], ⟨0, 1, 1⟩⟩
    calls := ⟨#[⟨"f", "<script>", 6⟩, ⟨"g", "<script>", 5⟩], 1⟩ }

theorem calls_within_limits_lowered :
    (∃ (e : RuntimeError) (m : Interpreter) (before : History),
      Run.runProgram 40 .loweringLimit .fresh = .error e m ∧
        e.trace = [⟨"f", "<script>", 6⟩, ⟨"g", "<script>", 5⟩] ∧
        e.message = "maximum recursion depth 1 exceeded" ∧
        (before.calls Interpreter.fresh.calls).limit ≤ e.trace.length ∧
        ¬before.NeverLowers Interpreter.fresh.calls) ∧
    ∃ h, (Job.evaluate (.call ⟨3, 4, 3⟩ "g" [])).record 3 .overfull [] =
      (.error ⟨.recursionLimit 1, some ⟨3, 4, 3⟩,
        [⟨"f", "<script>", 6⟩, ⟨"g", "<script>", 5⟩]⟩ .overfull, h) := by
  constructor
  · obtain ⟨m, run⟩ : ∃ m, Run.runProgram 40 .loweringLimit .fresh =
        .error ⟨.recursionLimit 1, some ⟨3, 4, 3⟩,
          [⟨"f", "<script>", 6⟩, ⟨"g", "<script>", 5⟩]⟩ m := ⟨_, rfl⟩
    obtain ⟨-, -, -, fails, overflows⟩ := calls_within_limits.1 40 (.runProgram none .loweringLimit)
      .fresh trivial Interpreter.offersOnly_fresh rfl
    obtain ⟨-, calls, thrown⟩ := fails _ m run
    obtain ⟨before, after, hh⟩ := List.append_of_mem thrown
    obtain ⟨message, -, deep, rising⟩ := overflows before _ calls after hh rfl
    refine ⟨_, m, before, run, rfl, rfl, deep, fun never => ?_⟩
    have limit := rising never
    rw [← limit] at message
    exact absurd message (by decide)
  · have decided := calls_within_limits.2.2 0 .overfull .overfull [] _ ⟨3, 4, 3⟩ "g" [] []
      ⟨"g", [], [], ⟨0, 1, 1⟩⟩ rfl rfl rfl
    exact ⟨_, decided.1.mp (by decide)⟩

end Script
