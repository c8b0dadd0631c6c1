import Mathlib.Data.List.Induction
import Script.Proofs.Fuel
import Script.Proofs.StandardHost

namespace Script

/-- Whether a module that was asked for is missing, or cannot be read or parsed. -/
def Fetched.fails (result : Fetched) : Bool :=
  result.program?.isNone && !result matches .unread _

/-- The log of modules after an event. -/
def ModuleLog.follow (log : ModuleLog) : Event → ModuleLog
  | .changed (.mark name) => (log.mark? name).getD log
  | .changed (.retain program) => log.retain program
  | _ => log

namespace Event

def fetched? : Event → Option String
  | fetched name _ => some name
  | _ => none

/-- Whether a module cannot be loaded, as is found out here. -/
def isFault : Event → Bool
  | fetched _ result => result.fails
  | _ => false

/-- Whether a module that is being loaded has neither been given up nor had its program kept. -/
def isPending : Event → Bool
  | changed (.mark _) => true
  | fetched _ result => !result.fails
  | _ => false

/-- Whether an event is a step of loading a module, up to the start of its program. -/
def isLoading : Event → Bool
  | changed (.mark _) | changed (.retain _) | fetched .. | began _ => true
  | _ => false

/-- The module that was asked for last and those whose programs were begun, after an event. -/
def advance (progress : String × List String) : Event → String × List String
  | fetched name _ => (name, progress.2)
  | began _ => (progress.1, progress.2 ++ [progress.1])
  | _ => progress

/-- The program of a module is begun as soon as the module has been entered in the log, fetched and
parsed. -/
def Begins (before : History) : Event → Prop
  | began origin => ∃ earlier name text program,
    before = earlier ++ [.changed (.mark name), .fetched name (.found text),
      .changed (.retain program)] ∧
      text.origin = origin ∧ parseProgram text.source = .ok program
  | _ => True

end Event

namespace History

def log (start : ModuleLog) (h : History) : ModuleLog := h.foldl ModuleLog.follow start

/-- The modules that the module source was asked for. -/
def fetches (h : History) : List String := h.filterMap Event.fetched?

/-- How many of the loads have failed before a program could be begun. -/
def faults (h : History) : Nat := h.countP Event.isFault

/-- The module that was asked for last, and those whose programs were begun. -/
def progress (h : History) : String × List String := h.foldl Event.advance ("", [])

/-- The modules whose programs were begun. -/
def runs (h : History) : List String := h.progress.2

/-- Whether no load is on its way to the start of a program. -/
def AtRest (h : History) : Prop := ∀ before event, h = before ++ [event] → ¬event.isPending

/-- Whether there is a program in the log for each name, but for those whose loads have failed. -/
def Balanced (start : ModuleLog) (h : History) : Prop :=
  (h.log start).retained.length + h.faults + start.loaded.length =
    (h.log start).loaded.length + start.retained.length

variable (start : ModuleLog) (h : History) (event : Event)

@[simp]
theorem log_concat : log start (h ++ [event]) = (h.log start).follow event := by simp [log]

@[simp]
theorem fetches_concat : fetches (h ++ [event]) = h.fetches ++ event.fetched?.toList := by
  cases hf : event.fetched? <;> simp [fetches, hf]

@[simp]
theorem faults_concat : faults (h ++ [event]) = h.faults + event.isFault.toNat := by
  cases hf : event.isFault <;> simp [faults, hf]

@[simp]
theorem progress_concat : progress (h ++ [event]) = event.advance h.progress := by
  simp [progress]

/-- What has happened when a module has been entered in the log and asked for. -/
def asking (h : History) (name : String) (result : Fetched) : History :=
  h ++ [.changed (.mark name)] ++ [.fetched name result]

variable (name : String) (result : Fetched)

@[simp]
theorem log_asking :
    log start (h.asking name result) = ((h.log start).mark? name).getD (h.log start) := by
  simp only [asking, log_concat, ModuleLog.follow]

@[simp]
theorem fetches_asking : (h.asking name result).fetches = h.fetches ++ [name] := by
  simp only [asking, fetches_concat, Event.fetched?, Option.toList, List.append_nil]

@[simp]
theorem faults_asking : (h.asking name result).faults = h.faults + result.fails.toNat := by
  simp only [asking, faults_concat, Event.isFault, Bool.toNat_false, Nat.add_zero]

@[simp]
theorem progress_asking : (h.asking name result).progress = (name, h.runs) := by
  simp only [asking, runs, progress_concat, Event.advance]

theorem loaded_log_prefix {before h : History} (hb : before <+: h) :
    (before.log start).loaded <+: (h.log start).loaded := by
  obtain ⟨after, rfl⟩ := hb
  induction after using List.reverseRecOn with
  | nil => simp
  | append_singleton after event ih =>
    refine ih.trans ?_
    rw [← List.append_assoc, log_concat]
    generalize log start (before ++ after) = log
    cases event with
    | changed c =>
      cases c with
      | mark name =>
        simp only [ModuleLog.follow]
        cases hm : log.mark? name with
        | none => exact List.prefix_rfl
        | some marked =>
          obtain ⟨-, rfl⟩ := ModuleLog.mark?_eq_some.mp hm
          exact List.prefix_append _ _
      | _ => exact List.prefix_rfl
    | _ => exact List.prefix_rfl

end History

/-- What is known of the loads in a history that began with the given log of modules. -/
structure History.Loads (start : ModuleLog) (h : History) : Prop where
  fresh : ∀ name ∈ h.fetches, name ∉ start.loaded
  once : h.fetches.Nodup
  runs : h.runs.Sublist h.fetches
  begun : h.Each Event.Begins
  balanced : ∀ before : History, before <+: h → before.AtRest → before.Balanced start

namespace History.Loads

variable {start : ModuleLog} {h : History} {event : Event}

theorem nil : History.Loads start [] where
  fresh := by simp [fetches]
  once := by simp [fetches]
  runs := List.Sublist.refl []
  begun := each_nil
  balanced := by
    intro before hb _
    obtain rfl := List.prefix_nil.mp hb
    simp [Balanced, log, faults, Nat.add_comm]

theorem concat (past : h.Loads start)
    (fresh : ∀ name ∈ event.fetched?, name ∉ start.loaded ∧ name ∉ h.fetches)
    (runs : (h ++ [event]).runs.Sublist (h ++ [event]).fetches) (begins : event.Begins h)
    (balanced : ¬event.isPending → History.Balanced start (h ++ [event])) :
    History.Loads start (h ++ [event]) where
  fresh := by
    intro name hn
    rw [fetches_concat, List.mem_append, Option.mem_toList] at hn
    exact hn.elim (past.fresh name) fun hn => (fresh name hn).1
  once := by
    rw [fetches_concat]
    cases hf : event.fetched? with
    | none => simpa using past.once
    | some name => exact List.nodup_append.mpr ⟨past.once, by simp, by grind⟩
  runs := runs
  begun := each_concat.mpr ⟨past.begun, begins⟩
  balanced := by
    intro before hb rest
    rcases List.prefix_concat_iff.mp hb with rfl | hb
    · exact balanced (rest h event rfl)
    · exact past.balanced before hb rest

end History.Loads

/-- What holds between two steps of evaluations that began with the given log of modules. -/
structure Interpreter.Loads (start : ModuleLog) (m : Interpreter) (h : History) : Prop where
  log : m.modules = h.log start
  loaded : m.modules.loaded = start.loaded ++ h.fetches
  balanced : h.Balanced start
  past : h.Loads start

namespace Interpreter.Loads

variable {start : ModuleLog} {m m' : Interpreter} {h : History}

theorem of_eq (l : m.Loads start h) (modules : m'.modules = m.modules) : m'.Loads start h where
  log := modules.trans l.log
  loaded := modules ▸ l.loaded
  balanced := l.balanced
  past := l.past

theorem note (l : m.Loads start h) {event : Event} (other : ¬event.isLoading)
    (modules : m'.modules = m.modules) : m'.Loads start (h ++ [event]) := by
  have log : (h ++ [event]).log start = h.log start := by
    rw [History.log_concat]
    cases event with
    | changed c => cases c <;> simp_all [ModuleLog.follow, Event.isLoading]
    | _ => rfl
  have quiet : event.fetched? = none ∧ event.isFault = false ∧
      event.advance h.progress = h.progress ∧ event.Begins h := by
    cases event <;>
      simp_all [Event.isLoading, Event.fetched?, Event.isFault, Event.advance, Event.Begins]
  obtain ⟨fetched, fault, progress, begins⟩ := quiet
  have balanced : (h ++ [event]).Balanced start := by
    simpa [History.Balanced, log, fault] using l.balanced
  refine ⟨?_, ?_, balanced, l.past.concat (by simp [fetched]) ?_ begins fun _ => balanced⟩
  · rw [modules, l.log, log]
  · simpa [modules, fetched] using l.loaded
  · simpa [History.runs, progress, fetched] using l.past.runs

variable {name : String} {log : ModuleLog}

theorem asked (l : m.Loads start h) (marked : m.modules.mark? name = some log) (result : Fetched) :
    (h.asking name result).Loads start ∧ (h.asking name result).log start = log ∧
      log.loaded = start.loaded ++ (h.fetches ++ [name]) ∧
      log.retained.length + h.faults + start.loaded.length + 1 =
        log.loaded.length + start.retained.length := by
  have last : (h.asking name result).log start = log := by simp [← l.log, marked]
  obtain ⟨unloaded, rfl⟩ := ModuleLog.mark?_eq_some.mp marked
  have fresh : name ∉ start.loaded ∧ name ∉ h.fetches := by simpa [l.loaded] using unloaded
  have count : m.modules.retained.length + h.faults + start.loaded.length + 1 =
      (m.modules.loaded ++ [name]).length + start.retained.length := by
    have balanced := l.balanced
    simp only [History.Balanced, ← l.log] at balanced
    simp only [List.length_append, List.length_singleton]
    omega
  refine ⟨?_, last, by simp [l.loaded], count⟩
  refine History.Loads.concat ?_ ?_ ?_ trivial fun settled => ?_
  · refine l.past.concat (by simp [Event.fetched?]) ?_ trivial fun settled => absurd rfl settled
    simpa [History.runs, Event.advance, Event.fetched?] using l.past.runs
  · simpa [Event.fetched?] using fresh
  · change (h.asking name result).runs.Sublist (h.asking name result).fetches
    simpa [History.runs] using l.past.runs.trans (List.sublist_append_left _ _)
  · have fails : result.fails = true := by simpa [Event.isPending] using settled
    change (h.asking name result).Balanced start
    simp only [History.Balanced, last, History.faults_asking, fails, Bool.toNat_true]
    omega

theorem missed (l : m.Loads start h) (marked : m.modules.mark? name = some log) {result : Fetched}
    (fails : result.fails) : ((Change.mark name).apply m).Loads start (h.asking name result) := by
  obtain ⟨past, last, loaded, count⟩ := l.asked marked result
  have modules : ((Change.mark name).apply m).modules = log := by simp [Change.apply, marked]
  refine ⟨modules.trans last.symm, ?_, ?_, past⟩
  · rw [modules, loaded, History.fetches_asking]
  · simp only [History.Balanced, last, History.faults_asking, fails, Bool.toNat_true]
    omega

theorem retained (l : m.Loads start h) (marked : m.modules.mark? name = some log)
    {text : ModuleText} {program : Program} (parsed : parseProgram text.source = .ok program) :
    ((Change.retain program).apply ((Change.mark name).apply m)).Loads start
      (h.asking name (.found text) ++ [.changed (.retain program)]) := by
  obtain ⟨past, last, loaded, count⟩ := l.asked marked (.found text)
  have modules : ((Change.retain program).apply ((Change.mark name).apply m)).modules =
      log.retain program := by simp [Change.apply, marked]
  have fine : (Fetched.found text).fails = false := by
    simp [Fetched.fails, Fetched.program?, parsed, Except.toOption]
  have balanced : History.Balanced start
      (h.asking name (.found text) ++ [.changed (.retain program)]) := by
    simp only [History.Balanced, History.log_concat, History.faults_concat, last,
      History.faults_asking, fine, Event.isFault, Bool.toNat_false, ModuleLog.follow,
      ModuleLog.retain, List.length_append, List.length_singleton]
    omega
  refine ⟨?_, ?_, balanced, past.concat (by simp [Event.fetched?]) ?_ trivial fun _ => balanced⟩
  · rw [modules, History.log_concat, last, ModuleLog.follow]
  · rw [modules, History.fetches_concat, History.fetches_asking]
    simpa [Event.fetched?, ModuleLog.retain] using loaded
  · simpa [History.runs, Event.advance, Event.fetched?] using past.runs

theorem begun (l : m.Loads start h) (marked : m.modules.mark? name = some log) {text : ModuleText}
    {program : Program} (parsed : parseProgram text.source = .ok program) :
    (((Change.retain program).apply ((Change.mark name).apply m)).enterModule text.origin).Loads
      start (h.asking name (.found text) ++ [.changed (.retain program)] ++
        [.began text.origin]) := by
  have kept := l.retained marked parsed
  generalize hk : h.asking name (.found text) ++ [.changed (.retain program)] = before at kept ⊢
  have fetches : before.fetches = h.fetches ++ [name] := by simp [← hk, Event.fetched?]
  have progress : before.progress = (name, h.runs) := by simp [← hk, Event.advance]
  have balanced : History.Balanced start (before ++ [.began text.origin]) := by
    simpa [History.Balanced, ModuleLog.follow, Event.isFault] using kept.balanced
  refine ⟨?_, ?_, balanced, kept.past.concat (by simp [Event.fetched?]) ?_ ?_ fun _ => balanced⟩
  · exact kept.log.trans (by simp [ModuleLog.follow])
  · exact kept.loaded.trans (by simp [Event.fetched?])
  · simp only [History.runs, History.progress_concat, progress, Event.advance,
      History.fetches_concat, fetches, Event.fetched?, Option.toList, List.append_nil]
    exact l.past.runs.append (List.Sublist.refl [name])
  · exact ⟨h, name, text, program, by simp [← hk, History.asking], rfl, parsed⟩

end Interpreter.Loads

namespace Contract

/-- Whatever the host does, loads are entered in the log of modules. -/
abbrev loading (start : ModuleLog) : Contract where
  Ghost := Unit
  code _ := .all
  Inv _ m h := m.Loads start h
  Fail _ _ m h := m.Loads start h
  HostFail _ _ m h := m.Loads start h
  Stop _ h := h.Loads start
  Raises _ := True
  Acts _ _ _ _ := True

theorem loading_closes {start : ModuleLog} {possible : Interpreter → Bool}
    {undo : Interpreter → Interpreter} {events : History}
    (closed : ∀ m h, m.Loads start h → (undo m).Loads start (h ++ events)) :
    (loading start).Closes () () possible undo events :=
  .of_stop closed (fun _ => closed) (fun _ _ inv => inv.past) fun _ _ _ inv => inv.past

theorem loading_kept (start : ModuleLog) : (loading start).Kept where
  started _ _ inv := inv.note (by simp [Event.isLoading]) rfl
  changed {_ _ _ c} own inv := by
    cases c with
    | declare | declareGlobal | assign => exact inv.note (by simp [Event.isLoading]) rfl
    | _ => exact own.elim
  defined _ inv := inv.note (by simp [Event.isLoading]) rfl
  raises _ := trivial
  raisesTop _ _ := trivial
  raisesBody _ _ _ _ := trivial
  thrown _ _ inv := inv.note (by simp [Event.isLoading]) rfl
  located _ inv := inv.note (by simp [Event.isLoading]) rfl
  overflowed _ inv _ := inv.note (by simp [Event.isLoading]) rfl
  scope inv := by
    refine ⟨(), rfl, inv.of_eq rfl, loading_closes fun m h inv => ?_⟩
    rw [List.append_nil]
    exact inv.of_eq rfl
  call {_ m h name f span _} values inv _ _ _ := by
    have started : m.Loads start (h ++ [.started (.callUser name f values span) m.calls]) :=
      inv.note (by simp [Event.isLoading]) rfl
    have entered : (m.enterCall ⟨f.name, m.file, span.line⟩).Loads start
        (h ++ [.started (.callUser name f values span) m.calls] ++
          [.entered ⟨f.name, m.file, span.line⟩]) := started.note (by simp [Event.isLoading]) rfl
    refine ⟨(), fun _ _ => trivial, by simpa using entered, loading_closes fun m h inv => ?_⟩
    exact inv.note (by simp [Event.isLoading]) rfl
  missed {_ _ _ _ _ result} inv marked _ unusable known := by
    have fails : result.fails := by
      cases result with
      | unread path => exact absurd rfl (known path)
      | _ => simp [Fetched.fails, unusable]
    simpa [History.asking] using inv.missed marked fails
  awaited inv marked _ := by simpa [History.asking] using (inv.asked marked _).1
  module inv marked _ parsed := by
    refine ⟨(), fun _ _ => trivial, by simpa [History.asking] using inv.begun marked parsed,
      loading_closes fun m h inv => ?_⟩
    exact inv.note (by simp [Event.isLoading]) rfl
  builtin _ _ _ _ := trivial
  step {_ _ _ _ _} _ inv := by
    refine step_of_any trivial (fun _ => trivial) (fun _ _ _ inv => inv) (fun {c} byHost => ?_)
      (fun _ => inv.of_eq rfl) inv (fun _ => inv) inv.past
    cases c with
    | define | mark | retain => exact byHost.elim
    | _ => exact inv.note (by simp [Event.isLoading]) rfl
  halted _ inv := inv.past

end Contract

/-- How a load ends whose program has ended like this. -/
def Outcome.ofLoad (name : String) : Outcome Value → Outcome (Except ModuleError Unit)
  | value _ m => value (.ok ()) m
  | error e m => value (.error (.execution name e)) m
  | halted reason m => halted reason m

namespace Run

variable {fuel : Nat} {name : String} {m : Interpreter}

theorem gives_load {o : Outcome (Except ModuleError Unit)}
    (h : ∃ enough, ∀ fuel, enough ≤ fuel → load (fuel + 1) name m = o) :
    (Plan.start (.load name)).Gives m o := by
  obtain ⟨enough, h⟩ := h
  refine ⟨enough + 1, fun fuel hf => ?_⟩
  obtain ⟨fuel, rfl⟩ : ∃ k, fuel = k + 1 := ⟨fuel - 1, by omega⟩
  exact h fuel (by omega)

theorem load_of_mem (h : name ∈ m.modules.loaded) :
    load (fuel + 1) name m = .value (.ok ()) m := by
  have marked : m.modules.mark? name = none := by simp [ModuleLog.mark?, ModuleLog.isLoaded, h]
  change (Plan.load name).run _ m = _
  simp only [Plan.load, Plan.markModule, bind, Plan.run, Outcome.bind, marked]
  rfl

variable (fuel) in
/-- What loading a module does that has not been asked for before. -/
theorem load_of_fresh (h : name ∉ m.modules.loaded) :
    load (fuel + 1) name m =
      let marked := (Change.mark name).apply m
      match m.source.fetch name with
      | .notFound searched => .value (.error (.fault (.notFound name searched))) marked
      | .unreadable reason => .value (.error (.fault (.unreadable name reason))) marked
      | .unread path => .halted (.awaitsFile path) marked
      | .found text =>
        match parseProgram text.source with
        | .error diagnostic => .value (.error (.fault (.unparsable name diagnostic))) marked
        | .ok program => (withModule text.origin (runProgram fuel program)
            ((Change.retain program).apply marked)).ofLoad name := by
  have fresh := ModuleLog.mark?_eq_some.mpr ⟨h, rfl⟩
  have loads : load (fuel + 1) name m = (Plan.load name).run (Job.runner fuel) m := rfl
  simp only [loads, Plan.load, Plan.markModule, Plan.fetchModule, bind, Plan.run, Outcome.bind,
    fresh, if_true, show ((Change.mark name).apply m).source = m.source from rfl]
  cases m.source.fetch name with
  | found text =>
    simp only [Plan.parseModule, Plan.run]
    cases parseProgram text.source with
    | error diagnostic => rfl
    | ok program =>
      simp only [bind, Plan.run, Outcome.bind, Run.attempt]
      rw [show (fun m => Job.run fuel (.runProgram none program) m) =
        runProgram fuel program from rfl]
      generalize withModule text.origin (runProgram fuel program) _ = o
      cases o <;> rfl
  | _ => rfl

variable (fuel) in
/-- Such a module is entered in the log, and that is all if it cannot be run. -/
theorem load_of_not_mem (h : name ∉ m.modules.loaded) :
    let marked := (Change.mark name).apply m
    ((m.source.fetch name).fails ∧
      ∃ fault, load (fuel + 1) name m = .value (.error (.fault fault)) marked) ∨
    ¬(m.source.fetch name).fails ∧
      ((∃ path, load (fuel + 1) name m = .halted (.awaitsFile path) marked) ∨
        ∃ (text : ModuleText) (program : Program), load (fuel + 1) name m =
          (withModule text.origin (runProgram fuel program)
            ((Change.retain program).apply marked)).ofLoad name) := by
  intro marked
  rw [load_of_fresh fuel h]
  cases m.source.fetch name with
  | notFound searched => exact .inl ⟨rfl, _, rfl⟩
  | unreadable reason => exact .inl ⟨rfl, _, rfl⟩
  | unread path => exact .inr ⟨by simp [Fetched.fails], .inl ⟨path, rfl⟩⟩
  | found text =>
    cases hp : parseProgram text.source with
    | error diagnostic =>
      refine .inl ⟨by simp [Fetched.fails, Fetched.program?, hp, Except.toOption], ?_⟩
      exact ⟨.unparsable name diagnostic, by simp only [hp]; rfl⟩
    | ok program =>
      refine .inr ⟨by simp [Fetched.fails, Fetched.program?, hp, Except.toOption], .inr ?_⟩
      exact ⟨text, program, by simp only [hp]; rfl⟩

end Run

/-- The state that an evaluation leaves when it has ended. -/
def Outcome.left? {α : Type} : Outcome α → Option Interpreter
  | value _ m | error _ m => some m
  | halted _ _ => none

/-- Whether a job may be asked for by a host. The body of a function is part of a call. -/
def Job.IsOutermost {α : Type} : Job α → Prop
  | callUser .. => False
  | _ => True

section Loading

variable {α : Type} {start : ModuleLog} {j : Job α} {m : Interpreter} {h : History}

theorem Contract.loads_of_loading {o : Outcome α}
    (ho : ((loading start).post () j).Holds (o, h)) :
    h.Loads start ∧ ∀ m, o.left? = some m → m.Loads start h := by
  cases o with
  | value a m =>
    have inv : m.Loads start h := by
      cases j with
      | perform action => exact ho
      | load name => rcases a with (_ | _) | _ <;> exact ho
      | _ => exact ho.2
    exact ⟨inv.past, fun _ left => Option.some.inj left ▸ inv⟩
  | error e m =>
    have inv : m.Loads start h := by
      cases j with
      | load name => exact ho.elim
      | _ => exact ho
    exact ⟨inv.past, fun _ left => Option.some.inj left ▸ inv⟩
  | halted reason m =>
    have stop : ((loading start).post () j).halted reason h := ho
    rw [post_halted] at stop
    exact ⟨stop, fun _ left => by cases left⟩

theorem Job.loads_record (fuel : Nat) (outermost : j.IsOutermost) (inv : m.Loads start h) :
    (j.record fuel m h).2.Loads start ∧
      ∀ m', (j.record fuel m h).1.left? = some m' → m'.Loads start (j.record fuel m h).2 := by
  have pre : (Contract.loading start).Pre () j m h := by
    cases j
    case perform action => exact ⟨(), trivial, inv⟩
    case callUser => exact outermost.elim
    all_goals exact ⟨inv, Code.all_admits _⟩
  exact Contract.loads_of_loading ((Contract.loading_kept start).meets fuel () j m h pre)

theorem Interpreter.Loads.nil (m : Interpreter) : m.Loads m.modules [] where
  log := rfl
  loaded := (List.append_nil _).symm
  balanced := History.Loads.nil.balanced [] List.prefix_rfl fun before event he => by simp at he
  past := .nil

/-- An evaluation takes no name out of the log. -/
theorem Job.loaded_prefix {m' : Interpreter} (fuel : Nat) (outermost : j.IsOutermost)
    (left : (j.run fuel m).left? = some m') : m.modules.loaded <+: m'.modules.loaded := by
  rw [← j.record_outcome fuel m []] at left
  have inv := (j.loads_record fuel outermost (.nil m)).2 m' left
  exact ⟨_, inv.loaded.symm⟩

end Loading

theorem Outcome.left?_ofLoad (name : String) (o : Outcome Value) :
    (o.ofLoad name).left? = o.left? := by
  cases o <;> rfl

theorem Outcome.left?_close {α : Type} {o : Outcome α} {possible : Interpreter → Bool}
    {undo : Interpreter → Interpreter} {m : Interpreter}
    (h : (o.close possible undo).left? = some m) : ∃ m', o.left? = some m' ∧ undo m' = m := by
  cases o with
  | value a m' | error e m' =>
    simp only [close] at h
    split at h
    · exact ⟨m', rfl, Option.some.inj h⟩
    · cases h
  | halted reason m' => cases h

theorem Run.mem_loaded_of_load {fuel : Nat} {name : String} {m m' : Interpreter}
    (h : name ∉ m.modules.loaded) (left : (load (fuel + 1) name m).left? = some m') :
    name ∈ m'.modules.loaded := by
  have marked : ((Change.mark name).apply m).modules.loaded = m.modules.loaded ++ [name] := by
    simp [Change.apply, ModuleLog.mark?_eq_some.mpr ⟨h, rfl⟩]
  have entered {m' : Interpreter}
      (hm : ((Change.mark name).apply m).modules.loaded <+: m'.modules.loaded) :
      name ∈ m'.modules.loaded := hm.mem (by simp [marked])
  rcases load_of_not_mem fuel h with
    ⟨-, fault, loads⟩ | ⟨-, ⟨path, loads⟩ | ⟨text, program, loads⟩⟩
  · rw [loads] at left
    exact entered (Option.some.inj left ▸ List.prefix_rfl)
  · rw [loads] at left
    cases left
  · rw [loads, Outcome.left?_ofLoad] at left
    obtain ⟨inner, ran, rfl⟩ := Outcome.left?_close left
    have grown := Job.loaded_prefix (j := .runProgram none program) fuel trivial ran
    exact entered grown

/-- What the life of an interpreter is: evaluations that a host asks for, one after the other, and
what it does in between, which changes the module source and more, but not the log of modules. -/
inductive Interpreter.Reaches (start : Interpreter) : Interpreter → History → Prop where
  | start : Reaches start start []
  | job {α : Type} {m m' : Interpreter} {h : History} (fuel : Nat) (job : Job α) :
    Reaches start m h → job.IsOutermost → (job.record fuel m h).1.left? = some m' →
      Reaches start m' (job.record fuel m h).2
  | host {m m' : Interpreter} {h : History} :
    Reaches start m h → m'.modules = m.modules → Reaches start m' h

theorem Interpreter.Reaches.loads {start m : Interpreter} {h : History}
    (reached : start.Reaches m h) : m.Loads start.modules h := by
  induction reached with
  | start => exact .nil start
  | job fuel job _ outermost left ih => exact (job.loads_record fuel outermost ih).2 _ left
  | host _ same ih => exact ih.of_eq same

/-- Loading a module that is in the log does nothing. Loading another one enters it, and does
nothing else if the module is missing, or cannot be read or parsed. So in the life of an interpreter
each module is fetched once at most, and its program run once at most; the log grows at its end
alone; and wherever no load is on its way to a program, there is a program in the log for each name,
but for those whose loads have failed. -/
theorem modules_loaded_once :
    (∀ (fuel : Nat) (name : String) (m : Interpreter), name ∈ m.modules.loaded →
      Run.load (fuel + 1) name m = .value (.ok ()) m) ∧
    (∀ (fuel : Nat) (name : String) (m : Interpreter), name ∉ m.modules.loaded →
      let load := Run.load (fuel + 1) name m
      (∀ m', load.left? = some m' → name ∈ m'.modules.loaded) ∧
      (∀ e m', load ≠ .error e m') ∧
      ((m.source.fetch name).fails ↔ ∃ fault m', load = .value (.error (.fault fault)) m') ∧
      ∀ fault m', load = .value (.error (.fault fault)) m' →
        m' = { m with modules := { m.modules with loaded := m.modules.loaded ++ [name] } }) ∧
    ∀ (start m : Interpreter) (h : History), start.Reaches m h →
      m.modules = h.log start.modules ∧
      m.modules.loaded = start.modules.loaded ++ h.fetches ∧ h.Balanced start.modules ∧
      ∀ {α : Type} (fuel : Nat) (job : Job α), job.IsOutermost →
        let later := (job.record fuel m h).2
        later.fetches.Nodup ∧ (∀ name ∈ later.fetches, name ∉ start.modules.loaded) ∧
        later.runs.Nodup ∧ later.Each Event.Begins ∧
        ∀ before : History, before <+: later →
          (before.log start.modules).loaded <+: (later.log start.modules).loaded ∧
          (before.AtRest → before.Balanced start.modules) := by
  refine ⟨fun fuel name m => Run.load_of_mem, ?_, ?_⟩
  · intro fuel name m hn load
    have marked : (Change.mark name).apply m =
        { m with modules := { m.modules with loaded := m.modules.loaded ++ [name] } } := by
      simp [Change.apply, ModuleLog.mark?_eq_some.mpr ⟨hn, rfl⟩]
    have faultless (o : Outcome Value) : (∀ e m', o.ofLoad name ≠ .error e m') ∧
        ∀ fault m', o.ofLoad name ≠ .value (.error (.fault fault)) m' := by
      cases o <;> simp [Outcome.ofLoad]
    refine ⟨fun m' => Run.mem_loaded_of_load hn, ?_⟩
    rcases Run.load_of_not_mem fuel hn with
      ⟨fails, fault, loads⟩ | ⟨fine, ⟨path, loads⟩ | ⟨text, program, loads⟩⟩
    · simp [load, loads, fails, marked]
    · simp [load, loads, fine]
    · have faultless := faultless
        (Run.withModule text.origin (Run.runProgram fuel program)
          ((Change.retain program).apply ((Change.mark name).apply m)))
      simp [load, loads, fine, faultless]
  · intro start m h reached
    have inv := reached.loads
    refine ⟨inv.log, inv.loaded, inv.balanced, fun fuel job outermost => ?_⟩
    have past := (job.loads_record fuel outermost inv).1
    refine ⟨past.once, past.fresh, past.runs.nodup past.once, past.begun, fun before hb => ?_⟩
    exact ⟨History.loaded_log_prefix _ hb, past.balanced before hb⟩

/-- Modules that include each other. -/
def Interpreter.withCycle : Interpreter :=
  { fresh with source := .table [("a", "include \"b\""), ("b", "include \"a\"")] }

/-- A script that includes one of them twice, and then a module that is not there. -/
def Program.includingCycle : Program :=
  [.include ⟨0, 1, 1⟩ "a", .include ⟨2, 3, 2⟩ "a", .include ⟨4, 5, 3⟩ "c"]

theorem modules_loaded_once_cycle : ∃ (m : Interpreter) (h : History),
    Interpreter.withCycle.Reaches m h ∧ h.fetches = ["a", "b", "c"] ∧ h.faults = 1 ∧
      m.modules.loaded = ["a", "b", "c"] ∧ m.modules.retained.length = 2 ∧
      Run.load 1 "c" m = .value (.ok ()) m := by
  let job : Job Value := .runProgram none .includingCycle
  have runs : (job.record 40 .withCycle []).1.left?.isSome ∧
      (job.record 40 .withCycle []).2.fetches = ["a", "b", "c"] ∧
      (job.record 40 .withCycle []).2.faults = 1 := by
    decide +kernel
  obtain ⟨ends, fetches, faults⟩ := runs
  obtain ⟨inner, left⟩ := Option.isSome_iff_exists.mp ends
  let m : Interpreter := { inner with source := .table [("c", "")] }
  have reached : Interpreter.withCycle.Reaches m _ := .host (.job 40 job .start trivial left) rfl
  obtain ⟨log, loaded, balanced, -⟩ := modules_loaded_once.2.2 _ _ _ reached
  have loaded : m.modules.loaded = ["a", "b", "c"] := by rw [loaded, fetches]; rfl
  have retained : m.modules.retained.length = 2 := by
    simp only [History.Balanced, ← log, loaded, faults] at balanced
    simpa [Interpreter.withCycle, Interpreter.fresh, Interpreter.bare, ModuleLog.empty]
      using balanced
  exact ⟨m, _, reached, fetches, faults, loaded, retained,
    modules_loaded_once.1 0 "c" m (by simp [loaded])⟩

end Script
