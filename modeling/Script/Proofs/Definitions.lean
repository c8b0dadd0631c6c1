import Mathlib.Data.List.Induction
import Mathlib.Data.List.Infix
import Script.Proofs.Loading
import Script.Proofs.OwnSteps
import Script.Proofs.Rules
import Script.Proofs.UsualChanges

namespace Script

/-- The function that is defined where a job is begun. -/
def Event.definition? : Event → Option Function
  | started job _ => job.definition?
  | _ => none

/-- The functions that calls can name after an event. -/
def FunctionTable.follow (t : FunctionTable) : Event → FunctionTable
  | .started job _ => job.definition?.elim t fun f => t.addUser f.name f
  | .changed (.addBuiltin b) => t.addBuiltin b
  | _ => t

theorem FunctionTable.user_follow (t : FunctionTable) (event : Event) :
    (t.follow event).user = event.definition?.elim t.user fun f => t.user.insert f.name f := by
  cases event with
  | started job calls =>
    simp only [follow, Event.definition?]
    cases job.definition? <;> rfl
  | changed c => cases c <;> rfl
  | _ => rfl

theorem FunctionTable.builtins_follow (t : FunctionTable) {event : Event}
    (h : ∀ b, event ≠ .changed (.addBuiltin b)) : (t.follow event).builtins = t.builtins := by
  cases event with
  | started job calls =>
    simp only [follow]
    cases job.definition? <;> rfl
  | changed c =>
    cases c with
    | addBuiltin b => exact absurd rfl (h b)
    | _ => rfl
  | _ => rfl

namespace History

def functions (start : FunctionTable) (h : History) : FunctionTable :=
  h.foldl FunctionTable.follow start

/-- The functions whose definitions have been executed, earliest first. -/
def definitions (h : History) : List Function := h.filterMap Event.definition?

/-- The function of this name whose definition has been executed last. -/
def lastDefinition? (h : History) (name : String) : Option Function :=
  h.definitions.reverse.find? (·.name = name)

/-- Whether no builtins have been added. -/
def AddsNoBuiltin (h : History) : Prop := ∀ b, .changed (.addBuiltin b) ∉ h

variable (start : FunctionTable) (h : History) (event : Event)

theorem functions_concat : functions start (h ++ [event]) = (h.functions start).follow event := by
  simp [functions]

theorem lastDefinition?_concat (name : String) :
    lastDefinition? (h ++ [event]) name =
      (event.definition?.filter (·.name = name)).or (h.lastDefinition? name) := by
  cases hd : event.definition? with
  | none => simp [lastDefinition?, definitions, hd]
  | some f =>
    by_cases hn : f.name = name <;> simp [lastDefinition?, definitions, hd, hn, Option.filter]

/-- A name stands for the user function that has been defined last. -/
theorem user_functions (name : String) :
    (h.functions start).user.get? name = (h.lastDefinition? name).or (start.user.get? name) := by
  induction h using List.reverseRecOn with
  | nil => rfl
  | append_singleton h event ih =>
    rw [functions_concat, FunctionTable.user_follow, lastDefinition?_concat]
    cases hd : event.definition? with
    | none => simpa using ih
    | some f =>
      simp only [Option.elim_some, Dictionary.get?_insert]
      by_cases hn : f.name = name
      · simp [hn, Option.filter]
      · simpa [hn, Option.filter] using ih

variable {start h}

theorem keys_prefix_functions {earlier : History} (he : earlier <+: h) :
    (earlier.functions start).user.keys <+: (h.functions start).user.keys := by
  obtain ⟨later, rfl⟩ := he
  induction later using List.reverseRecOn with
  | nil => simp
  | append_singleton later event ih =>
    refine ih.trans ?_
    rw [← List.append_assoc, functions_concat, FunctionTable.user_follow]
    cases event.definition? with
    | none => exact List.prefix_rfl
    | some f => exact Dictionary.keys_prefix_insert _ _ _

theorem builtins_functions (none_added : h.AddsNoBuiltin) :
    (h.functions start).builtins = start.builtins := by
  induction h using List.reverseRecOn with
  | nil => rfl
  | append_singleton h event ih =>
    rw [functions_concat, FunctionTable.builtins_follow, ih]
    · exact fun b hb => none_added b (List.mem_append_left _ hb)
    · rintro b rfl
      exact none_added b (by simp)

theorem AddsNoBuiltin.of_earlier {earlier : History} (none_added : h.AddsNoBuiltin)
    (he : earlier <+: h) : earlier.AddsNoBuiltin := fun b hb => none_added b (he.mem hb)

theorem Usual.addsNoBuiltin (usual : h.Usual) : h.AddsNoBuiltin := fun _ hb => usual _ hb

end History

theorem Plan.makes_perform_undefining (action : HostAction) :
    (perform action).Makes (fun _ c => ∀ f, c ≠ .define f) [] true := by
  cases action with
  | finish result => cases result <;> trivial
  | observe next | readCell cell next => exact makes_get_bind fun m => makes_start rfl
  | evaluate text next =>
    refine makes_bind ?_ fun result => makes_start rfl
    unfold evaluateSource
    split
    · trivial
    · refine makes_bind (x := attempt _) (.inl rfl) fun result => ?_
      split <;> trivial
  | load name next => exact makes_start_bind rfl fun result => makes_start rfl
  | assign name value next =>
    refine makes_get_bind fun m => ?_
    split
    · exact makes_change_bind nofun (makes_start rfl)
    · exact makes_start rfl
  | readLine next => exact makes_bind trivial fun line => makes_start rfl
  | newCell initial next =>
    exact makes_get_bind fun m => makes_change_bind nofun (makes_start rfl)
  | fault => trivial
  | _ => exact makes_change_bind nofun (makes_start rfl)

/-- Whether a history tells of all functions that calls can name. -/
def Interpreter.ToldBy (start : FunctionTable) (m : Interpreter) (h : History) : Prop :=
  m.functions = h.functions start

section Record

variable {α : Type} {start : FunctionTable} {m m' : Interpreter} {h : History}

namespace Interpreter.ToldBy

theorem of_eq (told : m.ToldBy start h) (functions : m'.functions = m.functions) :
    m'.ToldBy start h := functions.trans told

theorem note (told : m.ToldBy start h) {event : Event}
    (quiet : ∀ t, FunctionTable.follow t event = t) : m.ToldBy start (h ++ [event]) := by
  rw [ToldBy, History.functions_concat, quiet, told]

theorem apply (told : m.ToldBy start h) {c : Change} (hc : ∀ f, c ≠ .define f) :
    (c.apply m).ToldBy start (h ++ [.changed c]) := by
  cases c with
  | define f => exact absurd rfl (hc f)
  | addBuiltin b => rw [ToldBy, History.functions_concat, ← told]; rfl
  | _ => exact told.note fun _ => rfl

theorem started (told : m.ToldBy start h) {j : Job α} (hj : j.definition? = none) :
    m.ToldBy start (h ++ [.started j m.calls]) :=
  told.note fun t => by simp [FunctionTable.follow, hj]

theorem defined (told : m.ToldBy start h) {j : Job α} {f : Function} (hj : j.definition? = some f) :
    ((Change.define f).apply m).ToldBy start
      (h ++ [.started j m.calls] ++ [.changed (.define f)]) := by
  rw [ToldBy, History.functions_concat, History.functions_concat, ← told]
  simp [FunctionTable.follow, hj, Change.apply]

end Interpreter.ToldBy

theorem Outcome.toldBy_close {o : Outcome α} (told : o.state.ToldBy start h)
    {possible : Interpreter → Bool} {undo : Interpreter → Interpreter}
    (functions : ∀ m, (undo m).functions = m.functions) :
    (o.close possible undo).state.ToldBy start h := by
  cases o with
  | value a m | error e m =>
    simp only [close]
    split
    · exact told.of_eq (functions m)
    · exact told
  | halted reason m => exact told

theorem Outcome.toldBy_noting {o : Outcome α} (told : o.state.ToldBy start h) {event : Event}
    (quiet : ∀ t, FunctionTable.follow t event = t) :
    (o.noting event h).1.state.ToldBy start (o.noting event h).2 := by
  cases o with
  | value a m | error e m => exact Interpreter.ToldBy.note told quiet
  | halted reason m => exact told

/-- Whether jobs that are started with such a history end with one. -/
def Recorder.Tells (start : FunctionTable) (recorded : Recorder) : Prop :=
  ∀ (β : Type) (j : Job β) (m : Interpreter) (h : History), m.ToldBy start h →
    (recorded β j m h).1.state.ToldBy start (recorded β j m h).2

theorem Plan.toldBy_record {recorded : Recorder} (jobs : recorded.Tells start)
    {change : Bool → Change → Prop} (undefining : ∀ inside f, ¬change inside (.define f))
    {stmts : List Stmt} {inside : Bool} {x : Plan α} (makes : x.Makes change stmts inside)
    (told : m.ToldBy start h) :
    (x.record recorded m h).1.state.ToldBy start (x.record recorded m h).2 := by
  induction x generalizing m h inside with
  | bind x next ihx ihn =>
    have first := ihx makes.1 told
    simp only [record]
    generalize x.record recorded m h = r at first ⊢
    rcases r with ⟨_ | _ | _, h'⟩
    · exact ihn _ (makes.2 _) first
    · exact first
    · exact first
  | start j => exact jobs _ j m h told
  | change c =>
    refine told.apply fun f hf => undefining inside f ?_
    exact hf ▸ makes
  | readLine =>
    rcases Run.readLine_cases m with awaits | ⟨line, console, -, -, gives⟩
    · simp only [record, awaits]
      exact told
    · simp only [record, gives]
      exact told.of_eq rfl
  | fetch | throw => exact told.note fun _ => rfl
  | attempt x ih =>
    have inner := ih makes told
    simp only [record]
    generalize x.record recorded m h = r at inner ⊢
    rcases r with ⟨_ | _ | _, h'⟩ <;> exact inner
  | withScope body ih =>
    have inner := ih (m := m.enterScope) makes (told.of_eq rfl)
    exact Outcome.toldBy_close inner fun _ => rfl
  | withCall frame span body ih =>
    simp only [record]
    split
    · exact told.note fun _ => rfl
    · have entered : (m.enterCall frame).ToldBy start (h ++ [.entered frame]) :=
        Interpreter.ToldBy.note (told.of_eq rfl) fun _ => rfl
      have inner := ih makes entered
      refine Outcome.toldBy_noting ?_ fun _ => rfl
      exact Outcome.toldBy_close inner fun _ => rfl
  | withModule origin body ih =>
    have entered : (m.enterModule origin).ToldBy start (h ++ [.began origin]) :=
      Interpreter.ToldBy.note (told.of_eq rfl) fun _ => rfl
    have inner := ih makes entered
    refine Outcome.toldBy_noting ?_ fun _ => rfl
    exact Outcome.toldBy_close inner fun _ => rfl
  | _ => exact told

theorem Job.exists_makes {j : Job α} (hj : j.definition? = none) :
    ∃ (change : Bool → Change → Prop) (stmts : List Stmt) (inside : Bool),
      (∀ inside f, ¬change inside (.define f)) ∧ j.plan.Makes change stmts inside := by
  cases host : j.action? with
  | none =>
    refine ⟨j.MayMake, j.statements, false, fun inside f defines => ?_, j.makes host⟩
    have defines : j.definition? = some f := defines
    rw [hj] at defines
    cases defines
  | some action =>
    cases j with
    | perform action =>
      exact ⟨_, [], true, fun _ f differs => differs f rfl, Plan.makes_perform_undefining action⟩
    | _ => cases host

theorem Job.tells (start : FunctionTable) (fuel : Nat) :
    Recorder.Tells start fun _ j => Job.record fuel j := by
  induction fuel with
  | zero => exact fun β j m h told => told
  | succ fuel ih =>
    intro β j m h told
    cases hj : j.definition? with
    | none =>
      obtain ⟨change, stmts, inside, undefining, makes⟩ := j.exists_makes hj
      exact Plan.toldBy_record ih undefining makes (told.started hj)
    | some f =>
      cases j with
      | execute s =>
        cases s with
        | function span name parameters body =>
          obtain rfl := Option.some.inj hj
          exact told.defined rfl
        | _ => cases hj
      | _ => cases hj

namespace Plan

variable {recorded : Recorder} {P Q R : (β : Type) → Job β → Interpreter → History → Prop}

/-- Whether this holds of each job that a plan comes to start, of the state in which it is started,
and of what has happened until then. -/
def AtStarts (recorded : Recorder) (P : (β : Type) → Job β → Interpreter → History → Prop) :
    {α : Type} → Plan α → Interpreter → History → Prop
  | _, .start j, m, h => P _ j m h
  | _, .bind x next, m, h => x.AtStarts recorded P m h ∧
    ∀ b inner between, x.record recorded m h = (.value b inner, between) →
      (next b).AtStarts recorded P inner between
  | _, .attempt x, m, h => x.AtStarts recorded P m h
  | _, .withScope x, m, h => x.AtStarts recorded P m.enterScope h
  | _, .withCall frame _ x, m, h =>
    ¬m.calls.isFull → x.AtStarts recorded P (m.enterCall frame) (h ++ [.entered frame])
  | _, .withModule origin x, m, h =>
    x.AtStarts recorded P (m.enterModule origin) (h ++ [.began origin])
  | _, _, _, _ => True

theorem AtStarts.combine {x : Plan α} (hp : x.AtStarts recorded P m h)
    (hq : x.AtStarts recorded Q m h)
    (both : ∀ β j m h, P β j m h → Q β j m h → R β j m h) : x.AtStarts recorded R m h := by
  induction x generalizing m h with
  | start j => exact both _ j m h hp hq
  | bind x next ihx ihn =>
    refine ⟨ihx hp.1 hq.1, fun b inner between gives => ?_⟩
    exact ihn b (hp.2 b inner between gives) (hq.2 b inner between gives)
  | attempt x ih | withScope x ih | withModule _ x ih => exact ih hp hq
  | withCall _ _ x ih => exact fun room => ih (hp room) (hq room)
  | _ => trivial

theorem AtStarts.mono {x : Plan α} (hp : x.AtStarts recorded P m h)
    (imp : ∀ β j m h, P β j m h → Q β j m h) : x.AtStarts recorded Q m h :=
  hp.combine hp fun β j m h hp _ => imp β j m h hp

theorem atStarts_within
    (kept : ∀ (β : Type) (j : Job β) (m : Interpreter) (h : History), h <+: (recorded β j m h).2)
    (x : Plan α) (m : Interpreter) (h : History) :
    x.AtStarts recorded (fun β j m' h' => h <+: h' ∧
      (recorded β j m' h').2 <+: (x.record recorded m h).2) m h := by
  induction x generalizing m h with
  | start j => exact ⟨List.prefix_rfl, List.prefix_rfl⟩
  | bind x next ihx ihn =>
    refine ⟨(ihx m h).mono fun _ _ _ _ within => ?_, fun b inner between gives => ?_⟩
    · exact ⟨within.1, within.2.trans (prefix_record_bind kept x next m h)⟩
    · have before := prefix_record kept x m h
      rw [gives] at before
      refine (ihn b inner between).mono fun _ _ _ _ within => ⟨before.trans within.1, ?_⟩
      simpa only [record, gives] using within.2
  | attempt x ih => exact ih m h
  | withScope x ih => exact ih m.enterScope h
  | withCall frame span x ih =>
    intro room
    refine (ih _ _).mono fun _ _ _ _ within => ?_
    simp only [record, if_neg room]
    exact ⟨(List.prefix_append _ _).trans within.1,
      within.2.trans (Outcome.prefix_noting _ _ _)⟩
  | withModule origin x ih =>
    refine (ih _ _).mono fun _ _ _ _ within => ?_
    exact ⟨(List.prefix_append _ _).trans within.1,
      within.2.trans (Outcome.prefix_noting _ _ _)⟩
  | _ => trivial

theorem atStarts_toldBy (jobs : recorded.Tells start) {change : Bool → Change → Prop}
    (undefining : ∀ inside f, ¬change inside (.define f)) {stmts : List Stmt} {inside : Bool}
    {x : Plan α} (makes : x.Makes change stmts inside) (told : m.ToldBy start h) :
    x.AtStarts recorded (fun _ _ m' h' => m'.ToldBy start h') m h := by
  induction x generalizing m h inside with
  | start j => exact told
  | bind x next ihx ihn =>
    refine ⟨ihx makes.1 told, fun b inner between gives => ?_⟩
    have first := toldBy_record jobs undefining makes.1 told
    rw [gives] at first
    exact ihn b (makes.2 b) first
  | attempt x ih => exact ih makes told
  | withScope x ih => exact ih makes (told.of_eq rfl)
  | withCall frame span x ih =>
    exact fun _ => ih makes (Interpreter.ToldBy.note (told.of_eq rfl) fun _ => rfl)
  | withModule origin x ih =>
    exact ih makes (Interpreter.ToldBy.note (told.of_eq rfl) fun _ => rfl)
  | _ => trivial

end Plan

namespace Job

variable {P Q R : (β : Type) → Job β → Interpreter → History → Prop}

/-- Whether this holds wherever a job is begun in the course of this one, which is the first. -/
def AtStarts (P : (β : Type) → Job β → Interpreter → History → Prop) :
    Nat → {α : Type} → Job α → Interpreter → History → Prop
  | 0, _, _, _, _ => True
  | fuel + 1, _, j, m, h => P _ j m h ∧
    j.plan.AtStarts (fun _ j => Job.record fuel j) (fun _ j => AtStarts P fuel j) m
      (h ++ [.started j m.calls])

theorem AtStarts.combine {fuel : Nat} {j : Job α} (hp : j.AtStarts P fuel m h)
    (hq : j.AtStarts Q fuel m h) (both : ∀ β j m h, P β j m h → Q β j m h → R β j m h) :
    j.AtStarts R fuel m h := by
  induction fuel generalizing α m h with
  | zero => trivial
  | succ fuel ih =>
    refine ⟨both _ j m h hp.1 hq.1, hp.2.combine hq.2 ?_⟩
    exact fun β j m h hp hq => ih hp hq

theorem AtStarts.mono {fuel : Nat} {j : Job α} (hp : j.AtStarts P fuel m h)
    (imp : ∀ β j m h, P β j m h → Q β j m h) : j.AtStarts Q fuel m h :=
  hp.combine hp fun β j m h hp _ => imp β j m h hp

theorem atStarts_within (fuel : Nat) (j : Job α) (m : Interpreter) (h : History) :
    j.AtStarts (fun _ inner m' h' => h <+: h' ∧
      h' ++ [.started inner m'.calls] <+: (j.record fuel m h).2) fuel m h := by
  induction fuel generalizing α m h with
  | zero => trivial
  | succ fuel ih =>
    have kept {β : Type} (j : Job β) := j.prefix_record fuel
    refine ⟨⟨List.prefix_rfl, Plan.prefix_record (fun _ j => kept j) j.plan m _⟩, ?_⟩
    have inside := Plan.atStarts_within (fun _ j => kept j) j.plan m (h ++ [.started j m.calls])
    refine inside.mono fun _ inner m' h' within => (ih inner m' h').mono fun _ _ _ _ deeper => ?_
    exact ⟨(List.prefix_append _ _).trans (within.1.trans deeper.1), deeper.2.trans within.2⟩

/-- A history tells of all functions wherever a job is begun. -/
theorem atStarts_toldBy (fuel : Nat) {j : Job α} (told : m.ToldBy start h) :
    j.AtStarts (fun _ _ m' h' => m'.ToldBy start h') fuel m h := by
  induction fuel generalizing α m h with
  | zero => trivial
  | succ fuel ih =>
    refine ⟨told, ?_⟩
    cases hj : j.definition? with
    | none =>
      obtain ⟨change, stmts, inside, undefining, makes⟩ := j.exists_makes hj
      have begun := Plan.atStarts_toldBy (Job.tells start fuel) undefining makes (told.started hj)
      exact begun.mono fun _ _ _ _ told => ih told
    | some f =>
      cases j with
      | execute s =>
        cases s with
        | function span name parameters body => exact ⟨trivial, fun _ _ _ _ => trivial⟩
        | _ => cases hj
      | _ => cases hj

end Job

end Record

section Life

variable {α : Type} {start m : Interpreter} {h : History}

/-- What the life of an interpreter is whose functions are left to programs: evaluations, one after
the other, and what a host does in between. -/
inductive Interpreter.Lives (start : Interpreter) : Interpreter → History → Prop where
  | start : Lives start start []
  | job {α : Type} {m m' : Interpreter} {h : History} (fuel : Nat) (job : Job α) :
    Lives start m h → job.IsRun → (job.record fuel m h).1.left? = some m' →
      Lives start m' (job.record fuel m h).2
  | host {m m' : Interpreter} {h : History} :
    Lives start m h → m'.functions = m.functions → Lives start m' h

theorem Outcome.state_of_left? {o : Outcome α} (left : o.left? = some m) : o.state = m := by
  cases o with
  | value a m' | error e m' => exact Option.some.inj left
  | halted => cases left

theorem Interpreter.Lives.told (lives : start.Lives m h) : m.ToldBy start.functions h := by
  induction lives with
  | start => rfl
  | job fuel job _ _ left ih =>
    have told := job.tells start.functions fuel _ _ _ ih
    rwa [Outcome.state_of_left? left] at told
  | host _ functions ih => exact ih.of_eq functions

theorem Interpreter.Lives.standard (lives : start.Lives m h)
    (host : start.OffersOnly (· ∈ Standard.builtins)) : m.StaysStandard h := by
  induction lives with
  | start => exact ⟨host, nofun⟩
  | job fuel job _ run left ih => exact (job.standard_record fuel run ih).2 _ left
  | host _ functions ih => exact ⟨ih.host.of_eq functions, ih.usual⟩

end Life

/-- What calls reach that name functions, after a history that has begun with these ones. -/
structure Interpreter.Resolves (start : FunctionTable) (m : Interpreter) (h : History) : Prop where
  table : m.functions = h.functions start
  /-- A name stands for the user function that has been defined last, or for the one that was there
  before, or for the builtin. -/
  callee : ∀ name, m.functions.resolve name =
    (((h.lastDefinition? name).or (start.user.get? name)).map Callee.user).or
      ((start.builtins.get? name).map Callee.builtin)
  builtins : m.functions.builtins = start.builtins
  names : ∀ earlier : History, earlier <+: h →
    (earlier.functions start).user.keys <+: m.functions.user.keys
  kept : ∀ earlier : History, earlier <+: h →
    ∀ name, (earlier.functions start).has name → m.functions.has name
  /-- A builtin that has been hidden stays so. -/
  hidden : ∀ earlier : History, earlier <+: h → ∀ name,
    (earlier.functions start).user.has name → ∃ f, m.functions.resolve name = some (.user f)

namespace Dictionary

theorem has_iff_mem_keys {α : Type} (d : Dictionary α) (name : String) :
    d.has name ↔ name ∈ d.keys := by
  induction d with
  | nil => simp [has, get?, keys]
  | cons entry rest ih =>
    obtain ⟨key, value⟩ := entry
    by_cases hk : key = name
    · simp [has, get?, keys, hk]
    · simpa [has, get?, keys, hk, Ne.symm hk] using ih

end Dictionary

namespace FunctionTable

variable {t : FunctionTable} {name : String}

theorem resolve_eq (t : FunctionTable) (name : String) :
    t.resolve name =
      ((t.user.get? name).map Callee.user).or ((t.builtins.get? name).map Callee.builtin) := by
  unfold resolve
  cases t.user.get? name <;> rfl

theorem resolve_of_user (hn : t.user.has name) : ∃ f, t.resolve name = some (.user f) := by
  obtain ⟨f, found⟩ := Option.isSome_iff_exists.mp hn
  exact ⟨f, by simp [resolve_eq, found]⟩

theorem has_iff : t.has name ↔ t.user.has name ∨ t.builtins.has name := by
  simp [has, resolve_eq, Dictionary.has]

end FunctionTable

theorem Interpreter.ToldBy.resolves {start : FunctionTable} {m : Interpreter} {h : History}
    (told : m.ToldBy start h) (none_added : h.AddsNoBuiltin) : m.Resolves start h := by
  have builtins : m.functions.builtins = start.builtins := by
    rw [told, History.builtins_functions none_added]
  have names (earlier : History) (he : earlier <+: h) :
      (earlier.functions start).user.keys <+: m.functions.user.keys := by
    rw [told]
    exact History.keys_prefix_functions he
  have user (earlier : History) (he : earlier <+: h) (name : String)
      (hn : (earlier.functions start).user.has name) : m.functions.user.has name := by
    rw [Dictionary.has_iff_mem_keys] at hn ⊢
    exact (names earlier he).mem hn
  refine ⟨told, fun name => ?_, builtins, names, fun earlier he name hn => ?_, ?_⟩
  · rw [FunctionTable.resolve_eq, builtins, told, History.user_functions]
  · rw [FunctionTable.has_iff] at hn ⊢
    rw [History.builtins_functions (none_added.of_earlier he)] at hn
    rw [builtins]
    exact hn.imp_left (user earlier he name)
  · exact fun earlier he name hn => FunctionTable.resolve_of_user (user earlier he name hn)

/-- Whether a job is one that runs what a call has reached. -/
inductive Callee.Runs (name : String) (values : List Value) (span : Span) :
    Callee → {β : Type} → Job β → Prop where
  | user (f : Function) : Runs name values span (.user f) (.callUser name f values span)
  | builtin (b : Builtin) : Runs name values span (.builtin b) (.perform (b.call values))

namespace Plan

variable {α : Type} {recorded : Recorder} {m : Interpreter} {h : History}
variable {P : (β : Type) → Job β → Interpreter → History → Prop}

theorem atStarts_get_bind {next : Interpreter → Plan α}
    (hn : (next m).AtStarts recorded P m h) : (get >>= next).AtStarts recorded P m h := by
  refine ⟨trivial, fun b inner between gives => ?_⟩
  cases gives
  exact hn

theorem atStarts_raise (cause : Cause) (span : Span) :
    (raise cause span : Plan α).AtStarts recorded P m h := atStarts_get_bind trivial

theorem atStarts_ofHost (span : Span) (result : Except RuntimeError α) :
    (ofHost span result).AtStarts recorded P m h := by
  cases result with
  | ok a => trivial
  | error e => exact atStarts_get_bind trivial

variable (recorded m h) in
/-- A call starts what its name stands for when it is begun, and nothing else. -/
theorem atStarts_call (name : String) (values : List Value) (span : Span) :
    (call name values span).AtStarts recorded (fun _ j _ _ =>
      ∃ callee, m.functions.resolve name = some callee ∧ callee.Runs name values span j) m h := by
  refine atStarts_get_bind ?_
  split
  · exact atStarts_raise _ span
  next f found => exact ⟨.user f, found, .user f⟩
  next b found =>
    split
    · exact atStarts_raise _ span
    · exact ⟨⟨.builtin b, found, .builtin b⟩, fun result _ _ _ => atStarts_ofHost span result⟩

end Plan

/-- A call of a user function goes as the function does, whatever else has its name. -/
theorem Job.run_call_of_user {m : Interpreter} {name : String} {f : Function}
    (found : m.functions.resolve name = some (.user f)) (fuel : Nat) (values : List Value)
    (span : Span) : (Job.call name values span).run (fuel + 1) m =
      (Job.callUser name f values span).run fuel m := by
  have calls : (Job.call name values span).run (fuel + 1) m =
      (Plan.call name values span).run (Job.runner fuel) m := rfl
  simp only [calls, Plan.call, bind, Plan.run, Outcome.bind, found]

/-- In the life of an interpreter with standard builtins, a name stands at every point for the user
function of that name whose definition has been executed last, or else for what it stood for in the
beginning. That holds wherever a job is begun, and at the end of each evaluation, even of one that
fails. No function is ever taken away, the names of user functions are kept in order, and a call
runs what its name stands for and nothing else, so that a builtin which has been hidden is not
reached again. -/
theorem call_names_resolve (start : Interpreter)
    (host : start.OffersOnly (· ∈ Standard.builtins)) :
    (∀ (m : Interpreter) (h : History), start.Lives m h → m.Resolves start.functions h ∧
      ∀ {α : Type} (fuel : Nat) (job : Job α), job.IsRun →
        let ended := job.record fuel m h
        ended.1.state.Resolves start.functions ended.2 ∧
        job.AtStarts (fun _ inner m' h' => m'.Resolves start.functions h' ∧ h <+: h' ∧
          h' ++ [.started inner m'.calls] <+: ended.2) fuel m h) ∧
    ∀ (fuel : Nat) (name : String) (values : List Value) (span : Span) (m : Interpreter),
      (∀ h : History, (Plan.call name values span).AtStarts (fun _ j => Job.record fuel j)
        (fun _ j _ _ => ∃ callee, m.functions.resolve name = some callee ∧
          callee.Runs name values span j) m h) ∧
      ∀ f, m.functions.resolve name = some (.user f) →
        (Job.call name values span).run (fuel + 1) m =
          (Job.callUser name f values span).run fuel m := by
  refine ⟨fun m h lives => ?_, fun fuel name values span m => ⟨fun h => ?_, fun f found => ?_⟩⟩
  rotate_left
  · exact Plan.atStarts_call _ m h name values span
  · exact Job.run_call_of_user found fuel values span
  have standard := lives.standard host
  refine ⟨lives.told.resolves standard.usual.addsNoBuiltin, ?_⟩
  intro α fuel job run ended
  have none_added := (job.standard_record fuel run standard).1.addsNoBuiltin
  constructor
  · exact (job.tells start.functions fuel _ m h lives.told).resolves none_added
  · refine (job.atStarts_toldBy fuel lives.told).combine (job.atStarts_within fuel m h) ?_
    rintro β inner m' h' told ⟨since, within⟩
    refine ⟨told.resolves (none_added.of_earlier ?_), since, within⟩
    exact (List.prefix_append _ _).trans within

/-- An interpreter with a function that its host has registered. -/
def Interpreter.registered : Interpreter :=
  { fresh with functions := fresh.functions.addUser "h" ⟨"h", [], [], ⟨0, 1, 9⟩⟩ }

/-- Defines a function twice, the second time while another one runs, hides a builtin, and fails. -/
def Program.redefining : Program :=
  [.function ⟨0, 1, 1⟩ "g" [] [],
    .function ⟨1, 2, 2⟩ "f" [] [.block ⟨2, 3, 3⟩ [.function ⟨3, 4, 4⟩ "g" [] []]],
    .function ⟨4, 5, 5⟩ "print" ["x"] [],
    .expr ⟨5, 6, 6⟩ (.call ⟨5, 6, 6⟩ "f" []),
    .expr ⟨6, 7, 7⟩ (.name ⟨6, 7, 7⟩ "missing"),
    .function ⟨7, 8, 8⟩ "g" [] []]

theorem call_names_resolve_redefining : ∃ (m : Interpreter) (h : History),
    Interpreter.registered.Lives m h ∧ m.functions.user.keys = ["h", "g", "f", "print"] ∧
      (∃ g, m.functions.resolve "g" = some (.user g) ∧ g.span.line = 4) ∧
      (∃ f, m.functions.resolve "h" = some (.user f) ∧ f.span.line = 9) ∧
      ∃ p, m.functions.resolve "print" = some (.user p) := by
  let job : Job Value := .runProgram none .redefining
  have runs : (job.record 40 .registered []).1.left?.map (·.functions.user.keys) =
        some ["h", "g", "f", "print"] ∧
      ((job.record 40 .registered []).2.lastDefinition? "g").map (·.span.line) = some 4 ∧
      ((job.record 40 .registered []).2.lastDefinition? "h").isNone ∧
      ((job.record 40 .registered []).2.lastDefinition? "print").isSome := by
    decide +kernel
  obtain ⟨ends, last, never, hides⟩ := runs
  obtain ⟨m, left, keys⟩ := Option.map_eq_some_iff.mp ends
  obtain ⟨g, defined, line⟩ := Option.map_eq_some_iff.mp last
  obtain ⟨p, hides⟩ := Option.isSome_iff_exists.mp hides
  have host : Interpreter.registered.OffersOnly (· ∈ Standard.builtins) :=
    Interpreter.offersOnly_fresh
  have lives : Interpreter.registered.Lives m _ := .job 40 job .start trivial left
  have resolves := ((call_names_resolve .registered host).1 m _ lives).1
  refine ⟨m, _, lives, keys, ⟨g, ?_, line⟩, ⟨⟨"h", [], [], ⟨0, 1, 9⟩⟩, ?_, rfl⟩, p, ?_⟩
  · rw [resolves.callee, defined]
    rfl
  · rw [resolves.callee, Option.isNone_iff_eq_none.mp never]
    rfl
  · rw [resolves.callee, hides]
    rfl

end Script
