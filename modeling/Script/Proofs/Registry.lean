import Script.Host
import Script.Proofs.IgnoredRegistry
import Script.Proofs.Lasting

namespace Script

variable {fuel : Nat} {settings : Settings} {source : ModuleSource} {world : World}
  {entries : List Extension}

/-- Installs extensions in their order, as `Run.installAll` does. -/
def Plan.installAll : List Extension → Plan Unit
  | [] => pure ()
  | extension :: rest => do
    let _ ← attempt (start (.perform extension))
    installAll rest

theorem Run.installAll_eq (fuel : Nat) (entries : List Extension) :
    installAll fuel entries = (Plan.installAll entries).run fun _ j => Job.run fuel j := by
  induction entries with
  | nil => rfl
  | cons extension rest ih =>
    rw [installAll, ih]
    rfl

theorem Plan.record_installAll_append (recorded : Recorder) (earlier later : List Extension)
    (m : Interpreter) (h : History) : (installAll (earlier ++ later)).record recorded m h =
      ((installAll earlier).bind fun _ => installAll later).record recorded m h := by
  induction earlier generalizing m h with
  | nil => rfl
  | cons extension rest ih =>
    have first (more : List Extension) : installAll (extension :: more) =
      (attempt (start (.perform extension))).bind fun _ => installAll more := rfl
    simp only [List.cons_append, first, record] at ih ⊢
    rcases recorded _ (.perform extension) m h with ⟨_ | _ | _, h'⟩
    · exact ih _ h'
    · exact ih _ h'
    · rfl

theorem Run.installAll_append (fuel : Nat) (earlier later : List Extension) :
    installAll fuel (earlier ++ later) =
      installAll fuel earlier >>= fun _ => installAll fuel later := by
  have recorded {α : Type} (x : Plan α) (m : Interpreter) :
      x.run (fun _ j => Job.run fuel j) m = (x.record (fun _ j => Job.record fuel j) m []).1 :=
    (Plan.record_outcome (fun _ j m h => j.record_outcome fuel m h) x m []).symm
  funext m
  rw [installAll_eq, recorded, Plan.record_installAll_append, ← recorded, Plan.run,
    ← installAll_eq, installAll_eq fuel later]
  rfl

namespace Interpreter

/-- The making of an interpreter, with what happens in it. -/
def construction (fuel : Nat) (settings : Settings) (source : ModuleSource) (world : World)
    (entries : List Extension) : Outcome Unit × History :=
  (Plan.installAll entries).record (fun _ j => Job.record fuel j) (bare settings source world) []

theorem construction_outcome : (construction fuel settings source world entries).1 =
    create fuel settings source world entries := by
  rw [create, Run.installAll_eq]
  exact Plan.record_outcome (fun _ j m h => j.record_outcome fuel m h) _ _ _

theorem construction_lasting {Inv : Interpreter → History → Prop} (L : Lasting Inv)
    (inv : Inv (bare settings source world) []) :
    Inv (create fuel settings source world entries).state
      (construction fuel settings source world entries).2 := by
  rw [← construction_outcome]
  exact L.plan (fun _ j m h inv => L.job fuel j inv) _ inv

/-- What is made with extensions, which may come from anywhere. -/
structure Installs (fuel : Nat) (settings : Settings) (source : ModuleSource) (world : World) :
    Prop where
  /-- The standard builtins are there before any extension. -/
  nothing : create fuel settings source world [] = .value () (bare settings source world)
  inOrder : ∀ earlier later, create fuel settings source world (earlier ++ later) =
    (create fuel settings source world earlier).bind fun _ => Run.installAll fuel later
  recorded : ∀ entries, (construction fuel settings source world entries).1 =
    create fuel settings source world entries
  continued : ∀ earlier later, (construction fuel settings source world earlier).2 <+:
    (construction fuel settings source world (earlier ++ later)).2
  builtins : ∀ entries, (create fuel settings source world entries).state.HasLastBuiltins
    Standard.functions (construction fuel settings source world entries).2
  globals : ∀ entries, (create fuel settings source world entries).state.KeepsGlobals
    (construction fuel settings source world entries).2
  /-- What is registered is not looked at. -/
  apart : ∀ entries, create fuel settings source world entries =
    (create fuel settings source ⟨world.console, []⟩ entries).mapState (·.behind world.extensions)

theorem installs (fuel : Nat) (settings : Settings) (source : ModuleSource) (world : World) :
    Installs fuel settings source world where
  nothing := rfl
  inOrder earlier later := by
    rw [create, Run.installAll_append]
    rfl
  recorded entries := construction_outcome
  continued earlier later := by
    rw [construction, construction, Plan.record_installAll_append]
    exact Plan.prefix_record_bind (fun _ j m h => j.prefix_record fuel m h) _ _ _ _
  builtins entries := construction_lasting (lasting_hasLastBuiltins _) fun name => rfl
  globals entries := construction_lasting lasting_keepsGlobals fun before _ _ _ hh => by
    simp at hh
  apart entries := by
    have ignores : (Plan.installAll entries).IgnoresRegistry := by
      induction entries with
      | nil => exact .pure ()
      | cons extension rest ih => exact .bind (.attempt (.start _)) fun _ => ih
    have begun : bare settings source world =
        (bare settings source ⟨world.console, []⟩).behind world.extensions := by
      simp only [bare, behind, List.append_nil]
    rw [create, create, Run.installAll_eq, begun]
    exact ignores.run (fun _ j => j.run_ignoresRegistry fuel) _ _

end Interpreter

namespace Host

/-- What a host does about extensions. -/
inductive Step where
  | register (extension : Extension)
  | create (fuel : Nat) (settings : Settings) (source : ModuleSource)

namespace Step

def apply (h : Host) : Step → Host
  | register extension => h.register extension
  | create fuel settings source => h.create fuel settings source

/-- The extensions that a step registers, also those that are registered in the course of a
making. -/
def registered (h : Host) : Step → List Extension
  | register extension => [extension]
  | create fuel settings source =>
    (Interpreter.construction fuel settings source h.world h.world.extensions).2.registered

end Step

def run (h : Host) (steps : List Step) : Host := steps.foldl Step.apply h

/-- The extensions that steps register, in the order in which they do so. -/
def registered (h : Host) : List Step → List Extension
  | [] => []
  | step :: rest => step.registered h ++ registered (step.apply h) rest

theorem Step.extensions_apply (step : Step) (h : Host) :
    (step.apply h).world.extensions = h.world.extensions ++ step.registered h := by
  cases step with
  | register extension => rfl
  | create fuel settings source =>
    exact Interpreter.construction_lasting (lasting_registers h.world.extensions)
      (List.append_nil _).symm

theorem Step.instances_apply (step : Step) (h : Host) :
    h.instances.toList <+: (step.apply h).instances.toList := by
  cases step with
  | register extension => exact List.prefix_rfl
  | create fuel settings source => simp [apply, Host.create]

variable (h : Host) (steps earlier later : List Step)

theorem run_append : h.run (earlier ++ later) = (h.run earlier).run later := List.foldl_append

theorem registered_append : h.registered (earlier ++ later) =
    h.registered earlier ++ (h.run earlier).registered later := by
  induction earlier generalizing h with
  | nil => rfl
  | cons step rest ih => rw [List.cons_append, registered, ih, registered, List.append_assoc]; rfl

theorem extensions_run :
    (h.run steps).world.extensions = h.world.extensions ++ h.registered steps := by
  induction steps generalizing h with
  | nil => exact (List.append_nil _).symm
  | cons step rest ih =>
    have first : h.run (step :: rest) = (step.apply h).run rest := rfl
    rw [first, ih, step.extensions_apply, registered, List.append_assoc]

theorem instances_run : h.instances.toList <+: (h.run steps).instances.toList := by
  induction steps generalizing h with
  | nil => exact List.prefix_rfl
  | cons step rest ih => exact (step.instances_apply h).trans (ih (step.apply h))

/-- An interpreter is the one that is made explicitly with the extensions which have been registered
before its making began, by the host or in the making of others, in this order. It stays as it was
made, and every registration stays in the registry, in its place. -/
theorem instances_are_snapshots (start : Host) (steps : List Step) :
    (start.run steps).world.extensions = start.world.extensions ++ start.registered steps ∧
    (∀ earlier later, steps = earlier ++ later →
      start.registered earlier <+: start.registered steps ∧
      (start.run earlier).instances.toList <+: (start.run steps).instances.toList) ∧
    (∀ earlier later fuel settings source,
      steps = earlier ++ .create fuel settings source :: later →
      let before := start.run earlier
      let entries := start.world.extensions ++ start.registered earlier
      let explicit := Interpreter.create fuel settings source ⟨before.world.console, []⟩ entries
      (start.run steps).instances[before.instances.size]? =
        some (explicit.state.behind entries)) ∧
    ∀ fuel settings source world, Interpreter.Installs fuel settings source world := by
  refine ⟨extensions_run start steps, ?_, ?_, Interpreter.installs⟩
  · rintro earlier later rfl
    rw [registered_append, run_append]
    exact ⟨List.prefix_append _ _, instances_run _ _⟩
  · rintro earlier later fuel settings source rfl before entries explicit
    let made := (Interpreter.create fuel settings source before.world before.world.extensions).state
    have registry : before.world.extensions = entries := extensions_run start earlier
    have same : made = explicit.state.behind entries := by
      simp only [made]
      rw [(Interpreter.installs ..).apart, Outcome.state_mapState, registry]
    have created : (before.create fuel settings source).instances.toList[before.instances.size]? =
        some made := by
      simp [made, Host.create]
    have inside := (List.getElem?_eq_some_iff.mp created).1
    obtain ⟨others, kept⟩ := instances_run (before.create fuel settings source) later
    rw [run_append, ← same, ← Array.getElem?_toList]
    have stays : ((before.create fuel settings source).instances.toList ++ others)[
        before.instances.size]? = some made := (List.getElem?_append_left inside).trans created
    rw [kept] at stays
    exact stays

/-- Registers another extension while it is being installed itself. -/
def chaining : Extension :=
  .register (.setGlobal "CHAINED" .null (.ok .null)) (.setGlobal "CHAINING" .null (.ok .null))

/-- Three interpreters, before and after an extension is registered that registers another one. -/
def chainingSteps : List Step :=
  let create := Step.create 9 .default (.table [])
  [create, .register chaining, create, create]

theorem instances_are_snapshots_chaining :
    let ended := (start (.ofInput [])).run chainingSteps
    let globals (number : Nat) := ended.instances[number]?.map (·.environment.globals.keys)
    ended.world.extensions.length = 3 ∧ globals 0 = some [] ∧ globals 1 = some ["CHAINING"] ∧
      globals 2 = some ["CHAINING", "CHAINED"] := by
  obtain ⟨registry, -, made, -⟩ := instances_are_snapshots (start (.ofInput [])) chainingSteps
  have keys {number : Nat} {m : Interpreter} {names : List String} :
      ((start (.ofInput [])).run chainingSteps).instances[number]? = some m →
      m.environment.globals.keys = names →
      (((start (.ofInput [])).run chainingSteps).instances[number]?).map
        (·.environment.globals.keys) = some names := by
    rintro made rfl
    rw [made]
    rfl
  refine ⟨?_, ?_, ?_, ?_⟩
  · rw [registry]
    decide +kernel
  · exact keys (made [] _ _ _ _ rfl) (by decide +kernel)
  · exact keys (made [_, _] _ _ _ _ rfl) (by decide +kernel)
  · exact keys (made [_, _, _] _ _ _ _ rfl) (by decide +kernel)

end Host

end Script
