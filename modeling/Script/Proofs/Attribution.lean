import Script.Proofs.Trace

namespace Script

/-- Whether a statement stands somewhere in a program. -/
inductive Stmt.Within (program : Program) : Stmt → Prop where
  | top {s : Stmt} : s ∈ program → Within program s
  | child {s c : Stmt} : Within program s → c ∈ s.children → Within program c
  | body {span : Span} {name : String} {parameters : List String} {stmts : List Stmt} {s : Stmt} :
    Within program (.function span name parameters stmts) → s ∈ stmts → Within program s

/-- Whether an expression stands somewhere in a program. -/
inductive Expr.Within (program : Program) : Expr → Prop where
  | ofStmt {s : Stmt} {e : Expr} : s.Within program → e ∈ s.exprs → Within program e
  | child {e c : Expr} : Within program e → c ∈ e.children → Within program c

def Code.within (programs : Program → Prop) : Code where
  expr e := ∃ program, programs program ∧ e.Within program
  stmt s := ∃ program, programs program ∧ s.Within program
  top s := ∃ program, programs program ∧ s.Within program
  body s := ∃ program, programs program ∧ s.Within program
  expr_children h hc := h.imp fun _ h => ⟨h.1, h.2.child hc⟩
  stmt_exprs h he := h.imp fun _ h => ⟨h.1, .ofStmt h.2 he⟩
  stmt_children h hc := h.imp fun _ h => ⟨h.1, h.2.child hc⟩
  function_body h hs := h.imp fun _ h => ⟨h.1, h.2.body hs⟩
  top_stmt h := h
  body_stmt h := h

/-- Two files an evaluation is in: the one that the code at work was written in, and the one of
the text that is run, which is the innermost module that is being loaded, or the script. -/
structure Level where
  written : String
  running : String

/-- Where an evaluation is, and what it goes back to. -/
structure Whereabouts where
  here : Level
  outer : List Level
  /-- The file that the function of a name was defined in. -/
  homes : String → String
  /-- The name that was called last. -/
  called : String

namespace Whereabouts

def enter (w : Whereabouts) (inner : Level) : Whereabouts :=
  { w with here := inner, outer := w.here :: w.outer }

def leave (w : Whereabouts) : Whereabouts :=
  { w with here := w.outer.headD w.here, outer := w.outer.tail }

/-- Where an evaluation is after an event. The body of a function is code of the file that the
function was defined in. -/
def follow (w : Whereabouts) : Event → Whereabouts
  | .started (.callUser name _ _ _) _ => { w with called := name }
  | .entered _ => w.enter ⟨w.homes w.called, w.here.running⟩
  | .began origin => w.enter ⟨origin, origin⟩
  | .left | .ended => w.leave
  | .changed (.define f) =>
    { w with homes := fun name => if f.name = name then w.here.written else w.homes name }
  | _ => w

theorem follow_started {α : Type} (w : Whereabouts) (job : Job α) (calls : CallStack) :
    ∃ called, w.follow (.started job calls) = { w with called := called } := by
  cases job
  case callUser name f values span => exact ⟨name, rfl⟩
  all_goals exact ⟨w.called, rfl⟩

theorem follow_changed (w : Whereabouts) {c : Change} (hc : ∀ f, c ≠ .define f) :
    w.follow (.changed c) = w := by
  cases c with
  | define f => exact absurd rfl (hc f)
  | _ => rfl

/-- Whether an evaluation has been in one file only. -/
structure Within (file : String) (w : Whereabouts) : Prop where
  here : w.here = ⟨file, file⟩
  outer : ∀ level ∈ w.outer, level = ⟨file, file⟩
  homes : ∀ name, w.homes name = file

theorem Within.follow {file : String} {w : Whereabouts} (h : w.Within file) {event : Event}
    (he : ∀ origin, event ≠ .began origin) : (w.follow event).Within file := by
  have left : w.leave.Within file := by
    refine ⟨?_, fun level hl => h.outer level (List.mem_of_mem_tail hl), h.homes⟩
    cases ho : w.outer with
    | nil => simpa [leave, ho] using h.here
    | cons level rest => simpa [leave, ho] using h.outer level (by simp [ho])
  cases event with
  | started job calls =>
    obtain ⟨called, follow⟩ := w.follow_started job calls
    rw [follow]
    exact ⟨h.here, h.outer, h.homes⟩
  | changed c =>
    cases c with
    | define f =>
      refine ⟨h.here, h.outer, fun name => ?_⟩
      simp only [Whereabouts.follow]
      split
      · rw [h.here]
      · exact h.homes name
    | _ => exact h
  | entered frame =>
    refine ⟨?_, ?_, h.homes⟩
    · simp [Whereabouts.follow, enter, h.homes, h.here]
    · simpa [Whereabouts.follow, enter, h.here] using h.outer
  | left => exact left
  | began origin => exact absurd rfl (he origin)
  | ended => exact left
  | fetched name result => exact h
  | thrown e calls => exact h

end Whereabouts

namespace History

/-- Where an evaluation is after a history that began in a text of the given file. -/
def whereabouts (file : String) (h : History) : Whereabouts :=
  h.foldl Whereabouts.follow ⟨⟨file, file⟩, [], fun _ => file, ""⟩

@[simp]
theorem whereabouts_concat (file : String) (h : History) (event : Event) :
    whereabouts file (h ++ [event]) = (h.whereabouts file).follow event := by
  simp [whereabouts]

theorem whereabouts_within {file : String} {h : History} (hb : ∀ origin, .began origin ∉ h) :
    (whereabouts file h).Within file := by
  suffices ∀ w : Whereabouts, w.Within file → (h.foldl Whereabouts.follow w).Within file from
    this _ ⟨rfl, by simp, fun _ => rfl⟩
  induction h with
  | nil => exact fun w hw => hw
  | cons event h ih =>
    intro w hw
    refine ih (fun origin ho => hb origin (List.mem_cons_of_mem event ho)) _ (hw.follow ?_)
    rintro origin rfl
    exact hb origin (by simp)

end History

/-- What holds of an event after a history. A frame names the file of the text that is run, and the
line of a call in the file that the code at work was written in. The active calls are those that
are pending, and errors carry them. -/
def Event.Fits (file : String) (texts : String → Program → Prop) (before : History) :
    Event → Prop
  | entered frame =>
    let w := before.whereabouts file
    frame.file = w.here.running ∧ ∃ program span arguments, texts w.here.written program ∧
      Expr.Within program (.call span w.called arguments) ∧ frame.line = span.line
  | started _ calls => calls.trace = before.pending
  | thrown e calls => calls.trace = before.pending ∧ e.trace = calls.trace
  | _ => True

/-- What holds in the course of an evaluation with standard builtins alone that began in a text of
the given file, where `texts` says which programs are written in which file. -/
structure Attributed (file : String) (texts : String → Program → Prop) (here : Level)
    (outer : List Level) (m : Interpreter) (h : History) : Prop where
  host : m.OffersOnly (· ∈ Standard.builtins)
  running : m.file = here.running
  here : (h.whereabouts file).here = here
  outer : (h.whereabouts file).outer = outer
  active : m.calls.trace = h.pending
  functions : ∀ name f, m.functions.user.get? name = some f →
    ∀ s ∈ f.body, ∃ program, texts ((h.whereabouts file).homes name) program ∧ s.Within program
  modules : ∀ name text program, m.source.fetch name = .found text →
    parseProgram text.source = .ok program → texts text.origin program
  past : h.Each (Event.Fits file texts)

namespace Attributed

variable {file : String} {texts : String → Program → Prop} {here inner : Level}
  {outer beyond : List Level} {m m' : Interpreter} {h : History}

theorem note (a : Attributed file texts here outer m h) {event : Event}
    (fits : event.Fits file texts h) (functions : m'.functions = m.functions)
    (source : m'.source = m.source)
    (homes : ((h.whereabouts file).follow event).homes = (h.whereabouts file).homes)
    (level : ((h.whereabouts file).follow event).here = inner)
    (levels : ((h.whereabouts file).follow event).outer = beyond)
    (running : m'.file = inner.running) (active : m'.calls.trace = event.track h.pending) :
    Attributed file texts inner beyond m' (h ++ [event]) where
  host := a.host.of_eq functions
  running := running
  here := by rw [History.whereabouts_concat, level]
  outer := by rw [History.whereabouts_concat, levels]
  active := by rw [History.pending_concat, active]
  functions := by
    rw [functions, History.whereabouts_concat, homes]
    exact a.functions
  modules := source ▸ a.modules
  past := History.each_concat.mpr ⟨a.past, fits⟩

theorem of_eq (a : Attributed file texts here outer m h) (functions : m'.functions = m.functions)
    (source : m'.source = m.source) (running : m'.file = m.file)
    (active : m'.calls.trace = m.calls.trace) : Attributed file texts here outer m' h where
  host := a.host.of_eq functions
  running := running.trans a.running
  here := a.here
  outer := a.outer
  active := active.trans a.active
  functions := functions ▸ a.functions
  modules := source ▸ a.modules
  past := a.past

theorem started (a : Attributed file texts here outer m h) {α : Type} (job : Job α) :
    Attributed file texts here outer m (h ++ [.started job m.calls]) := by
  obtain ⟨called, follow⟩ := (h.whereabouts file).follow_started job m.calls
  refine a.note a.active rfl rfl ?_ ?_ ?_ a.running a.active
  · rw [follow]
  · rw [follow]
    exact a.here
  · rw [follow]
    exact a.outer

theorem changed (a : Attributed file texts here outer m h) {c : Change}
    (hc : c.KeepsHost) (hf : ∀ f, c ≠ .define f) :
    Attributed file texts here outer (c.apply m) (h ++ [.changed c]) := by
  have follow := (h.whereabouts file).follow_changed hf
  refine a.note trivial ?_ ?_ ?_ ?_ ?_ ?_ ?_
  · cases c with
    | addBuiltin b => exact hc.elim
    | define f => exact absurd rfl (hf f)
    | _ => rfl
  · exact Interpreter.source_apply hc
  · rw [follow]
  · rw [follow]
    exact a.here
  · rw [follow]
    exact a.outer
  · cases c <;> exact a.running
  · rw [Interpreter.trace_apply]
    exact a.active

theorem defined (a : Attributed file texts here outer m h) {f : Function}
    (hf : ∀ s ∈ f.body, ∃ program, texts here.written program ∧ s.Within program) :
    Attributed file texts here outer ((Change.define f).apply m)
      (h ++ [.changed (.define f)]) where
  host := a.host.apply (by simp)
  running := a.running
  here := by
    rw [History.whereabouts_concat]
    exact a.here
  outer := by
    rw [History.whereabouts_concat]
    exact a.outer
  active := by
    rw [History.pending_concat]
    exact a.active
  functions := by
    intro name g hg
    rw [History.whereabouts_concat]
    simp only [Whereabouts.follow]
    rcases Dictionary.get?_of_insert hg with ⟨hn, rfl⟩ | ⟨hn, hg⟩
    · rw [if_pos hn, a.here]
      exact hf
    · rw [if_neg hn]
      exact a.functions name g hg
  modules := a.modules
  past := History.each_concat.mpr ⟨a.past, trivial⟩

theorem entered (a : Attributed file texts here outer m h) {name : String} {f : Function}
    {values : List Value} {span : Span} {arguments : List Expr}
    (call : ∃ program, texts here.written program ∧
      Expr.Within program (.call span name arguments)) :
    Attributed file texts ⟨(h.whereabouts file).homes name, here.running⟩ (here :: outer)
      (m.enterCall ⟨f.name, m.file, span.line⟩)
      (h ++ [.started (.callUser name f values span) m.calls,
        .entered ⟨f.name, m.file, span.line⟩]) := by
  have started := a.started (.callUser name f values span)
  rw [List.append_cons]
  refine started.note ?_ rfl rfl rfl ?_ ?_ a.running ?_
  · obtain ⟨program, written, within⟩ := call
    exact ⟨by rw [started.here, a.running], program, span, arguments, by rwa [started.here],
      by simpa [Whereabouts.follow] using within, rfl⟩
  · simp [Whereabouts.follow, Whereabouts.enter, a.here]
  · simp [Whereabouts.follow, Whereabouts.enter, a.here, a.outer]
  · rw [← started.active]
    simp [Interpreter.enterCall, Event.track]

theorem left (a : Attributed file texts inner (here :: outer) m h)
    (running : inner.running = here.running) :
    Attributed file texts here outer m.leaveCall (h ++ [.left]) := by
  refine a.note trivial rfl rfl rfl ?_ ?_ (a.running.trans running) ?_
  · simp [Whereabouts.follow, Whereabouts.leave, a.outer]
  · simp [Whereabouts.follow, Whereabouts.leave, a.outer]
  · rw [← a.active]
    simp [Interpreter.leaveCall, Event.track]

theorem fetched (a : Attributed file texts here outer m h) (name : String) (result : Fetched) :
    Attributed file texts here outer m (h ++ [.fetched name result]) :=
  a.note trivial rfl rfl rfl a.here a.outer a.running a.active

theorem began (a : Attributed file texts here outer m h) (origin : String) :
    Attributed file texts ⟨origin, origin⟩ (here :: outer) (m.enterModule origin)
      (h ++ [.began origin]) := by
  refine a.note trivial rfl rfl rfl rfl ?_ rfl a.active
  simp [Whereabouts.follow, Whereabouts.enter, a.here, a.outer]

theorem ended (a : Attributed file texts inner (here :: outer) m h) {locals : List Scope} :
    Attributed file texts here outer (m.leaveModule locals here.running) (h ++ [.ended]) := by
  refine a.note trivial rfl rfl rfl ?_ ?_ rfl a.active
  · simp [Whereabouts.follow, Whereabouts.leave, a.outer]
  · simp [Whereabouts.follow, Whereabouts.leave, a.outer]

theorem thrown (a : Attributed file texts here outer m h) (cause : Cause) (span : Span) :
    Attributed file texts here outer m
        (h ++ [.thrown ⟨cause, some span, m.calls.trace⟩ m.calls]) ∧
      ∃ calls, Event.thrown ⟨cause, some span, m.calls.trace⟩ calls ∈
        h ++ [.thrown ⟨cause, some span, m.calls.trace⟩ m.calls] :=
  ⟨a.note ⟨a.active, rfl⟩ rfl rfl rfl a.here a.outer a.running a.active, m.calls, by simp⟩

end Attributed

namespace Contract

/-- Frames name the text that is run, and lines of the text that the code at work stands in. A ghost
is the level of an evaluation with those outside it. -/
abbrev attribution (file : String) (texts : String → Program → Prop) : Contract where
  Ghost := Level × List Level
  code g := .within (texts g.1.written)
  Inv g := Attributed file texts g.1 g.2
  Fail g e m h := Attributed file texts g.1 g.2 m h ∧ ∃ calls, Event.thrown e calls ∈ h
  HostFail g e m h := Attributed file texts g.1 g.2 m h ∧ ∃ error, e = .unplaced (.builtin error)
  Stop _ h := h.Each (Event.Fits file texts)
  Raises _ := True
  Acts outer inner action _ := inner = outer ∧ action.Plain

theorem attribution_closes {file : String} {texts : String → Program → Prop}
    {inner outer : Level × List Level} {possible : Interpreter → Bool}
    {undo : Interpreter → Interpreter} {events : History}
    (left : ∀ m h, Attributed file texts inner.1 inner.2 m h →
      Attributed file texts outer.1 outer.2 (undo m) (h ++ events)) :
    (attribution file texts).Closes inner outer possible undo events := by
  refine .of_stop left ?_ (fun m h inv => inv.past) fun e m h failed => failed.1.past
  intro e m h failed
  exact ⟨left m h failed.1, failed.2.imp fun _ => List.mem_append_left _⟩

theorem attribution_kept (file : String) (texts : String → Program → Prop) :
    (attribution file texts).Kept where
  started job _ inv := inv.started job
  changed own inv := inv.changed own.keepsHost fun f hf => by simp [hf, Change.IsOwn] at own
  defined body inv := inv.defined body
  raises _ := trivial
  raisesTop _ _ := trivial
  raisesBody _ _ _ _ := trivial
  thrown span _ inv := inv.thrown _ span
  located span hf := by
    obtain ⟨inv, error, rfl⟩ := hf
    exact inv.thrown (.builtin error) span
  overflowed span inv _ := inv.thrown _ span
  scope {g m h} inv := by
    refine ⟨g, rfl, inv.of_eq rfl rfl rfl rfl, attribution_closes fun m h inv => ?_⟩
    rw [List.append_nil]
    exact inv.of_eq rfl rfl rfl rfl
  call {g m h name f span arguments} values inv call hr _ := by
    refine ⟨⟨⟨(h.whereabouts file).homes name, g.1.running⟩, g.1 :: g.2⟩,
      inv.functions name f (FunctionTable.user_of_resolve hr), inv.entered call,
      attribution_closes fun m h inv => ?_⟩
    exact inv.left rfl
  missed {_ _ _ name _ result} inv _ _ _ _ := by
    simpa using (inv.changed (c := .mark name) trivial (by simp)).fetched name result
  awaited {_ _ _ name _ path} inv _ _ := by
    simpa using ((inv.changed (c := .mark name) trivial (by simp)).fetched name (.unread path)).past
  module {g m h name log text program} inv _ hf hp := by
    have written := inv.modules name text program hf hp
    have marked := inv.changed (c := .mark name) trivial (by simp)
    have retained := (marked.fetched name (.found text)).changed (c := .retain program) trivial
      (by simp)
    refine ⟨⟨⟨text.origin, text.origin⟩, g.1 :: g.2⟩, fun s hs => ⟨program, written, .top hs⟩,
      by simpa using retained.began text.origin, attribution_closes fun m' h inv' => ?_⟩
    rw [inv.running]
    exact inv'.ended
  builtin inv _ hr hv := ⟨rfl, Standard.plain_of_mem (inv.host.of_resolve hr) hv⟩
  step acts inv := by
    obtain ⟨rfl, plain⟩ := acts
    refine step_of_plain plain inv (fun plain => ⟨rfl, plain⟩) ?_ ?_ ?_
    · exact fun hc => inv.changed hc.keepsHost fun f hf => by simp [hf, Change.IsPlain] at hc
    · exact fun console => inv.of_eq rfl rfl rfl rfl
    · exact fun error => ⟨inv, error, rfl⟩
  halted _ inv := inv.past

theorem past_of_attribution {file : String} {texts : String → Program → Prop}
    {g : Level × List Level} {last : Option Value} {program : Program} {o : Outcome Value}
    {h : History} (ho : ((attribution file texts).post g (.runProgram last program)).Holds (o, h)) :
    h.Each (Event.Fits file texts) := by
  cases o with
  | value a m => exact ho.2.past
  | error e m => exact ho.1.past
  | halted reason m => exact ho

end Contract

def Event.frame? : Event → Option Frame
  | entered frame => some frame
  | _ => none

theorem Event.entered_of_mem_filterMap {h : History} {frame : Frame}
    (hf : frame ∈ h.filterMap Event.frame?) : .entered frame ∈ h := by
  obtain ⟨event, he, hf⟩ := List.mem_filterMap.mp hf
  cases event with
  | entered other =>
    obtain rfl := Option.some.inj hf
    exact he
  | _ => cases hf

/-- Which programs are written in which file, for a script and the modules it may include. -/
def ModuleSource.texts (source : ModuleSource) (file : String) (script : Program)
    (origin : String) (program : Program) : Prop :=
  (origin = file ∧ program = script) ∨ ∃ name text, source.fetch name = .found text ∧
    text.origin = origin ∧ parseProgram text.source = .ok program

theorem Attributed.bare (settings : Settings) (source : ModuleSource) (world : World)
    (script : Program) :
    Attributed settings.fileName (source.texts settings.fileName script)
      ⟨settings.fileName, settings.fileName⟩ [] (.bare settings source world) [] where
  host := Interpreter.offersOnly_bare settings source world
  running := rfl
  here := rfl
  outer := rfl
  active := rfl
  functions _ _ hf := by cases hf
  modules name text program hf hp := .inr ⟨name, text, hf, rfl, hp⟩
  past := History.each_nil

/-- In the run of a script with standard builtins alone, a frame has the line of its call in the
file that this call is written in, but names the file of the text that is run, which is the
innermost module being loaded or else the script. So it names the file its call is written in if
and only if that is the text which is run: not in the body of a function that is called from
another file than its own. Error traces and stack traces hold no other frames. -/
theorem frame_file_eq_written_iff (fuel : Nat) (settings : Settings) (source : ModuleSource)
    (world : World) (script : Program) :
    let m := Interpreter.bare settings source world
    let h := (Job.runProgram none script).history fuel m
    (∀ before frame after, h = before ++ .entered frame :: after →
      let w := History.whereabouts settings.fileName before
      (∃ program span arguments,
        source.texts settings.fileName script w.here.written program ∧
          Expr.Within program (.call span w.called arguments) ∧ frame.line = span.line) ∧
        frame.file = w.here.running ∧
          (frame.file = w.here.written ↔ w.here.running = w.here.written) ∧
            ((∀ origin, .began origin ∉ before) → frame.file = w.here.written)) ∧
    (∀ before event after calls, h = before ++ event :: after → event.calls? = some calls →
      ∀ frame ∈ calls.trace, .entered frame ∈ before) ∧
    (∀ e m', (Job.runProgram none script).run fuel m = .error e m' →
      ∃ calls, .thrown e calls ∈ h ∧ e.trace = calls.trace) ∧
    ∀ fuel m', (Job.perform (Standard.stackTrace [])).run (fuel + 2) m' =
      .value (.array (m'.calls.trace.map fun frame => .string frame.text)) m' := by
  intro m h
  have ended := (Contract.attribution_kept _ _).run
    (i := (⟨settings.fileName, settings.fileName⟩, [])) fuel (.runProgram none script)
    ⟨Attributed.bare settings source world script, fun s hs => ⟨script, .inl ⟨rfl, rfl⟩, .top hs⟩⟩
  have past := Contract.past_of_attribution ended
  refine ⟨?_, ?_, ?_, fun _ _ => rfl⟩
  · intro before frame after hh w
    obtain ⟨running, call⟩ := past before _ after hh
    refine ⟨call, running, by rw [running], fun hb => ?_⟩
    rw [running, (History.whereabouts_within hb).here]
  · intro before event after calls hh hc frame hf
    have fits := past before event after hh
    refine History.entered_of_mem_pending ?_
    cases event with
    | started job calls =>
      obtain rfl := Option.some.inj hc
      exact fits ▸ hf
    | thrown e calls =>
      obtain rfl := Option.some.inj hc
      exact fits.1 ▸ hf
    | _ => cases hc
  · intro e m' run
    rw [run] at ended
    obtain ⟨-, calls, thrown⟩ := ended
    obtain ⟨before, after, hh⟩ := List.append_of_mem thrown
    exact ⟨calls, thrown, (past before _ after hh).2⟩

/-- A script that calls a function of a module which calls another one of its own. -/
def Program.callingOuter : Program :=
  [.include ⟨0, 1, 1⟩ "lib", .expr ⟨2, 3, 2⟩ (.call ⟨2, 3, 2⟩ "outer" [])]

def ModuleSource.outerAndInner : ModuleSource :=
  .table [("lib", "func inner() \x7b\n return stack_trace()\n\x7d\n" ++
    "func outer() \x7b\n return inner()\n\x7d")]

theorem Program.within_callingOuter {e : Expr} (h : e.Within callingOuter) :
    e = .call ⟨2, 3, 2⟩ "outer" [] := by
  have top {s : Stmt} (hs : s.Within callingOuter) : s ∈ callingOuter := by
    induction hs with
    | top hs => exact hs
    | child _ hc ih =>
      simp only [callingOuter, List.mem_cons, List.not_mem_nil, or_false] at ih
      rcases ih with rfl | rfl <;> cases hc
    | body _ _ ih => simp [callingOuter] at ih
  induction h with
  | ofStmt hs he =>
    have hs := top hs
    simp only [callingOuter, List.mem_cons, List.not_mem_nil, or_false] at hs
    rcases hs with rfl | rfl
    · cases he
    · exact List.mem_singleton.mp he
  | child _ hc ih =>
    subst ih
    cases hc

def Program.callingOuterHistory : History :=
  (Job.runProgram none callingOuter).history 40
    (.bare .default .outerAndInner ⟨.ofInput [], []⟩)

theorem Program.entered_inner : .entered ⟨"inner", "<script>", 5⟩ ∈ callingOuterHistory := by
  have frames : callingOuterHistory.filterMap Event.frame? =
      [⟨"outer", "<script>", 2⟩, ⟨"inner", "<script>", 5⟩] := by
    decide +kernel
  exact Event.entered_of_mem_filterMap (by simp [frames])

theorem Program.no_call_in_line_five {program : Program} {span : Span} {name : String}
    {arguments : List Expr}
    (text : ModuleSource.outerAndInner.texts "<script>" callingOuter "<script>" program)
    (within : Expr.Within program (.call span name arguments)) : 5 ≠ span.line := by
  rcases text with ⟨-, rfl⟩ | ⟨module, text, found, origin, -⟩
  · obtain ⟨rfl, -, -⟩ := Expr.call.inj (within_callingOuter within)
    decide
  · by_cases hm : "lib" = module
    · obtain rfl : (⟨module, _⟩ : ModuleText) = text := by
        simpa [ModuleSource.outerAndInner, ModuleSource.fetch, Dictionary.get?, hm] using found
      simp [← hm] at origin
    · simp [ModuleSource.outerAndInner, ModuleSource.fetch, Dictionary.get?, hm] at found

theorem frame_file_eq_written_iff_inner : ∃ before after,
    Program.callingOuterHistory = before ++ .entered ⟨"inner", "<script>", 5⟩ :: after ∧
      (History.whereabouts "<script>" before).here.running = "<script>" ∧
      (History.whereabouts "<script>" before).here.written ≠ "<script>" := by
  obtain ⟨before, after, hh⟩ := List.append_of_mem Program.entered_inner
  obtain ⟨⟨program, span, arguments, text, within, line⟩, running, -⟩ :=
    (frame_file_eq_written_iff 40 .default .outerAndInner ⟨.ofInput [], []⟩ .callingOuter).1
      before _ after hh
  refine ⟨before, after, hh, running.symm, fun written => ?_⟩
  change ModuleSource.outerAndInner.texts "<script>" .callingOuter
    (History.whereabouts "<script>" before).here.written program at text
  rw [written] at text
  exact Program.no_call_in_line_five text within line

/-- It is not true that frames name the file their calls are written in: the second call here is
written in the module, and its frame names the script, which has no such line. -/
theorem frame_file_ne_written :
    ¬∀ (fuel : Nat) (settings : Settings) (source : ModuleSource) (world : World)
      (script : Program) (frame : Frame),
      .entered frame ∈
        (Job.runProgram none script).history fuel (.bare settings source world) →
      ∃ program span name arguments, source.texts settings.fileName script frame.file program ∧
        Expr.Within program (.call span name arguments) ∧ frame.line = span.line := by
  intro claim
  obtain ⟨program, span, name, arguments, text, within, line⟩ :=
    claim 40 .default .outerAndInner ⟨.ofInput [], []⟩ .callingOuter _ Program.entered_inner
  exact Program.no_call_in_line_five text within line

end Script
