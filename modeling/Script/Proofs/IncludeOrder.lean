import Script.Proofs.Loading
import Script.Proofs.Termination

namespace Script

/-- The module that a statement includes. -/
def Stmt.included? : Stmt → Option String
  | .include _ name => some name
  | _ => none

/-- Whether a statement includes a module or defines a function. -/
def Stmt.isDeclaration : Stmt → Bool
  | .include .. | .function .. => true
  | _ => false

def Program.includes (program : Program) : List String := program.filterMap Stmt.included?

/-- The names that a walk over modules meets, in the order in which it does so, and the one where it
breaks off as there is no module of that name. -/
structure Walk where
  order : List String
  missing : Option String
  deriving DecidableEq

namespace Walk

def after (w : Walk) (name : String) : Walk := ⟨name :: w.order, w.missing⟩

/-- Goes on from the names met so far, unless the walk has broken off. -/
def andThen (w : Walk) (next : List String → Walk) : Walk :=
  match w.missing with
  | some name => ⟨w.order, some name⟩
  | none => ⟨w.order ++ (next w.order).order, (next w.order).missing⟩

theorem after_andThen (w : Walk) (name : String) (next : List String → Walk) :
    (w.after name).andThen next = (w.andThen fun met => next (name :: met)).after name := by
  obtain ⟨order, _ | missing⟩ := w <;> rfl

end Walk

/-- What the module of a name includes at its top level, if there is one. -/
def Dictionary.includes? (modules : Dictionary String) (name : String) : Option (List String) :=
  (modules.get? name).map fun text =>
    match parseProgram text with
    | .ok program => program.includes
    | .error _ => []

theorem ModuleLog.unloaded_lt_of_includes {modules : Dictionary String} {seen inner : List String}
    {name : String} (hn : name ∉ seen) (he : modules.includes? name = some inner) :
    unloaded ⟨seen ++ [name], []⟩ modules < unloaded ⟨seen, []⟩ modules := by
  obtain ⟨text, found, -⟩ := Option.map_eq_some_iff.mp he
  exact unloaded_lt_of_mark? (mark?_eq_some.mpr ⟨hn, rfl⟩) found

/-- The depth-first walk from the given names on, one after the other, over names not seen yet. -/
def depthFirst (modules : Dictionary String) (seen : List String) : List String → Walk
  | [] => ⟨[], none⟩
  | name :: rest =>
    if _hn : name ∈ seen then depthFirst modules seen rest
    else
      match _he : modules.includes? name with
      | none => ⟨[name], some name⟩
      | some inner => (depthFirst modules (seen ++ [name]) (inner ++ rest)).after name
termination_by pending => (ModuleLog.unloaded ⟨seen, []⟩ modules, pending.length)
decreasing_by
  · exact Prod.Lex.right _ (Nat.lt_succ_self _)
  · exact Prod.Lex.left _ _ (ModuleLog.unloaded_lt_of_includes _hn _he)

section DepthFirst

variable {modules : Dictionary String} {seen : List String} {name : String}

@[simp]
theorem depthFirst_nil : depthFirst modules seen [] = ⟨[], none⟩ := by rw [depthFirst]

theorem depthFirst_of_mem (hn : name ∈ seen) (rest : List String) :
    depthFirst modules seen (name :: rest) = depthFirst modules seen rest := by
  rw [depthFirst, dif_pos hn]

theorem depthFirst_of_none (hn : name ∉ seen) (he : modules.includes? name = none)
    (rest : List String) : depthFirst modules seen (name :: rest) = ⟨[name], some name⟩ := by
  rw [depthFirst, dif_neg hn]
  split
  · rfl
  next h => simp [he] at h

theorem depthFirst_of_some (hn : name ∉ seen) {inner : List String}
    (he : modules.includes? name = some inner) (rest : List String) :
    depthFirst modules seen (name :: rest) =
      (depthFirst modules (seen ++ [name]) (inner ++ rest)).after name := by
  rw [depthFirst, dif_neg hn]
  split
  next h => simp [he] at h
  next h => rw [Option.some.inj (h.symm.trans he)]

/-- A walk from some names and then others: what the first part has met counts as seen in the
second. -/
theorem depthFirst_append (first second : List String) :
    depthFirst modules seen (first ++ second) =
      (depthFirst modules seen first).andThen fun met =>
        depthFirst modules (seen ++ met) second := by
  fun_induction depthFirst modules seen first with
  | case1 seen => simp [Walk.andThen]
  | case2 seen name rest hn ih => rw [List.cons_append, depthFirst_of_mem hn, ih]
  | case3 seen name rest hn he => rw [List.cons_append, depthFirst_of_none hn he]; rfl
  | case4 seen name rest hn inner he ih =>
    rw [List.cons_append, depthFirst_of_some hn he, ← List.append_assoc, ih, Walk.after_andThen]
    simp only [List.append_assoc, List.singleton_append]

/-- A module that has not been seen comes before what it includes, and all that before what follows
it. -/
theorem depthFirst_cons (hn : name ∉ seen) {inner : List String}
    (he : modules.includes? name = some inner) (rest : List String) :
    depthFirst modules seen (name :: rest) =
      ((depthFirst modules (seen ++ [name]) inner).after name).andThen fun met =>
        depthFirst modules (seen ++ met) rest := by
  rw [depthFirst_of_some hn he, depthFirst_append, Walk.after_andThen]
  simp only [List.append_assoc, List.singleton_append]

end DepthFirst

/-- Whether an interpreter has met these names since another one, and looks for modules in the same
place. -/
structure Interpreter.Meets (m : Interpreter) (order : List String) (m' : Interpreter) : Prop where
  source : m'.source = m.source
  loaded : m'.modules.loaded = m.modules.loaded ++ order

theorem Interpreter.Meets.trans {m m' m'' : Interpreter} {order order' : List String}
    (h : m.Meets order m') (h' : m'.Meets order' m'') : m.Meets (order ++ order') m'' :=
  ⟨h'.source.trans h.source, by rw [h'.loaded, h.loaded, List.append_assoc]⟩

namespace Plan

variable {α β : Type} {m inner : Interpreter}

/-- Whether a plan meets the names of a walk, and ends with a value as required, or with the error
about the module where the walk breaks off. -/
inductive Follows (x : Plan α) (m : Interpreter) (w : Walk) (P : α → Prop) : Prop where
  | through (a : α) (inner : Interpreter) (missing : w.missing = none) (as : P a)
    (met : m.Meets w.order inner) (gives : x.Gives m (.value a inner))
  | broken (e : RuntimeError) (name : String) (inner : Interpreter)
    (missing : w.missing = some name)
    (cause : e.cause = .module (.notFound name [])) (met : m.Meets w.order inner)
    (gives : x.Gives m (.error e inner))

theorem Follows.bind {x : Plan β} {next : β → Plan α} {w : Walk} {further : List String → Walk}
    {P : β → Prop} {Q : α → Prop} (hx : x.Follows m w P)
    (hn : ∀ b inner, P b → m.Meets w.order inner → (next b).Follows inner (further w.order) Q) :
    (x >>= next).Follows m (w.andThen further) Q := by
  cases hx with
  | through b inner missing as met gives =>
    have joined : w.andThen further =
        ⟨w.order ++ (further w.order).order, (further w.order).missing⟩ := by
      simp only [Walk.andThen, missing]
    rw [joined]
    cases hn b inner as met with
    | through a last missing as met' gives' =>
      exact .through a last missing as (met.trans met') (gives_bind gives gives')
    | broken e name last missing cause met' gives' =>
      exact .broken e name last missing cause (met.trans met') (gives_bind gives gives')
  | broken e name inner missing cause met gives =>
    have cut : w.andThen further = ⟨w.order, some name⟩ := by simp only [Walk.andThen, missing]
    rw [cut]
    exact .broken e name inner rfl cause met (gives_bind_error gives)

theorem Follows.start {j : Job α} {w : Walk} {P : α → Prop} (h : j.plan.Follows m w P) :
    (start j).Follows m w P := by
  cases h with
  | through a inner missing as met gives =>
    exact .through a inner missing as met (gives_start gives)
  | broken e name inner missing cause met gives =>
    exact .broken e name inner missing cause met (gives_start gives)

end Plan

/-- How a load is reported whose walk ends without or with a missing module. -/
inductive Dictionary.Reports (modules : Dictionary String) (name : String) :
    Option String → Except ModuleError Unit → Prop where
  | ok : Reports modules name none (.ok ())
  | absent (gone : modules.get? name = none) :
    Reports modules name (some name) (.error (.fault (.notFound name [])))
  | broken {missing : String} {e : RuntimeError} (found : modules.get? name ≠ none)
    (cause : e.cause = .module (.notFound missing [])) :
    Reports modules name (some missing) (.error (.execution name e))

/-- Whether loading a module meets the names of the walk from it, and reports how that has ended. -/
def Interpreter.LoadsAlong (m : Interpreter) (modules : Dictionary String) (name : String) : Prop :=
  let w := depthFirst modules m.modules.loaded [name]
  ∃ result inner, (Plan.start (.load name)).Gives m (.value result inner) ∧
    m.Meets w.order inner ∧ modules.Reports name w.missing result

/-- Whether all modules have nothing but inclusions and definitions at their top level. -/
def Dictionary.Declares (modules : Dictionary String) : Prop :=
  ∀ name text, modules.get? name = some text →
    ∃ program, parseProgram text = .ok program ∧ ∀ s ∈ program, s.isDeclaration

section Loading

variable {modules : Dictionary String} {m : Interpreter} {name : String}

theorem Dictionary.Declares.includes (declares : modules.Declares) {text : String}
    (found : modules.get? name = some text) : ∃ program, parseProgram text = .ok program ∧
      (∀ s ∈ program, s.isDeclaration) ∧ modules.includes? name = some program.includes := by
  obtain ⟨program, parsed, all⟩ := declares name text found
  exact ⟨program, parsed, all, by simp [Dictionary.includes?, found, parsed]⟩

theorem follows_include (loads : m.LoadsAlong modules name) (span : Span) :
    (Plan.start (.execute (.include span name))).Follows m
      (depthFirst modules m.modules.loaded [name]) (· = .normal none) := by
  obtain ⟨result, inner, gives, met, reports⟩ := loads
  refine .start ?_
  generalize depthFirst modules m.modules.loaded [name] = w at met reports ⊢
  obtain ⟨order, missing⟩ := w
  cases reports with
  | ok => exact .through _ inner rfl rfl met (Plan.gives_bind gives (Plan.gives_pure _))
  | absent gone =>
    exact .broken _ name inner rfl rfl met (Plan.gives_bind gives ⟨0, fun _ _ => rfl⟩)
  | broken found cause =>
    exact .broken _ _ inner rfl cause met (Plan.gives_bind gives ⟨0, fun _ _ => rfl⟩)

theorem Interpreter.Meets.unloaded_le {m' : Interpreter} {order : List String}
    (met : m.Meets order m') : m'.modules.unloaded modules ≤ m.modules.unloaded modules := by
  refine List.countP_mono_left fun entry _ h => ?_
  simp only [ModuleLog.isLoaded, met.loaded, List.contains_eq_mem] at h ⊢
  simp_all

theorem follows_statement (loads : ∀ name, m.LoadsAlong modules name) {s : Stmt}
    (declared : s.isDeclaration) :
    (Plan.start (.execute s)).Follows m
      (depthFirst modules m.modules.loaded s.included?.toList) (· = .normal none) := by
  cases s with
  | «include» span name => exact follows_include (loads name) span
  | function span name parameters body =>
    refine .start ?_
    rw [show (Stmt.function span name parameters body).included?.toList = [] from rfl,
      depthFirst_nil]
    exact .through _ ((Change.define ⟨name, parameters, body, span⟩).apply m) rfl rfl
      ⟨rfl, (List.append_nil _).symm⟩ ⟨0, fun _ _ => rfl⟩
  | _ => cases declared

/-- A program of declarations follows the walk from what it includes, if the loads of all modules
do that are still to be loaded when it begins. -/
theorem follows_program {bound : Nat}
    (loads : ∀ (m : Interpreter) (name : String), m.source = .table modules →
      m.modules.unloaded modules ≤ bound → m.LoadsAlong modules name)
    (source : m.source = .table modules) (below : m.modules.unloaded modules ≤ bound)
    (program : Program) (declared : ∀ s ∈ program, s.isDeclaration) (last : Option Value) :
    (Plan.start (.runProgram last program)).Follows m
      (depthFirst modules m.modules.loaded program.includes) fun _ => True := by
  induction program generalizing m with
  | nil =>
    refine .start ?_
    rw [show Program.includes [] = [] from rfl, depthFirst_nil]
    exact .through _ m rfl trivial ⟨rfl, (List.append_nil _).symm⟩ (Plan.gives_pure _)
  | cons s rest ih =>
    have includes : Program.includes (s :: rest) = s.included?.toList ++ Program.includes rest := by
      cases hs : s.included? <;> simp [Program.includes, hs]
    have first := follows_statement (fun name => loads m name source below)
      (declared s List.mem_cons_self)
    refine .start ?_
    rw [includes, depthFirst_append]
    refine first.bind fun signal inner normal met => ?_
    subst normal
    rw [← met.loaded]
    exact ih (met.source.trans source) (Nat.le_trans met.unloaded_le below)
      fun s hs => declared s (List.mem_cons_of_mem _ hs)

theorem loadsAlong_of_mem (h : name ∈ m.modules.loaded) : m.LoadsAlong modules name := by
  refine ⟨.ok (), m, Run.gives_load ⟨0, fun _ _ => Run.load_of_mem h⟩, ?_⟩
  rw [depthFirst_of_mem h, depthFirst_nil]
  exact ⟨⟨rfl, (List.append_nil _).symm⟩, .ok⟩

theorem Interpreter.meets_mark (h : name ∉ m.modules.loaded) :
    m.Meets [name] ((Change.mark name).apply m) :=
  ⟨rfl, by simp [Change.apply, ModuleLog.mark?_eq_some.mpr ⟨h, rfl⟩]⟩

theorem loadsAlong_of_none (source : m.source = .table modules) (h : name ∉ m.modules.loaded)
    (gone : modules.get? name = none) : m.LoadsAlong modules name := by
  have fetched : m.source.fetch name = .notFound [] := by simp [source, ModuleSource.fetch, gone]
  have loads (fuel : Nat) : Run.load (fuel + 1) name m =
      .value (.error (.fault (.notFound name []))) ((Change.mark name).apply m) := by
    rw [Run.load_of_fresh fuel h, fetched]
  refine ⟨_, _, Run.gives_load ⟨0, fun fuel _ => loads fuel⟩, ?_⟩
  rw [depthFirst_of_none h (by simp [Dictionary.includes?, gone])]
  exact ⟨Interpreter.meets_mark h, .absent gone⟩

theorem loadsAlong_of_some (source : m.source = .table modules) (h : name ∉ m.modules.loaded)
    {text : String} (found : modules.get? name = some text) {program : Program}
    (parsed : parseProgram text = .ok program)
    (includes : modules.includes? name = some program.includes)
    (follows : ∀ m' : Interpreter, m.Meets [name] m' →
      (Plan.start (.runProgram none program)).Follows m'
        (depthFirst modules m'.modules.loaded program.includes) fun _ => True) :
    m.LoadsAlong modules name := by
  have fetched : m.source.fetch name = .found ⟨name, text⟩ := by
    simp [source, ModuleSource.fetch, found]
  have met := Interpreter.meets_mark h
  let begun := ((Change.retain program).apply ((Change.mark name).apply m)).enterModule name
  have begins : m.Meets [name] begun := ⟨met.source, met.loaded⟩
  have loads (fuel : Nat) : Run.load (fuel + 1) name m =
      ((Run.runProgram fuel program begun).close (fun _ => true)
        (Interpreter.leaveModule m.environment.locals m.file)).ofLoad name := by
    rw [Run.load_of_fresh fuel h, fetched]
    simp only [parsed]
    rfl
  have walk : depthFirst modules m.modules.loaded [name] =
      (depthFirst modules begun.modules.loaded program.includes).after name := by
    rw [depthFirst_of_some h includes, List.append_nil, begins.loaded]
  rw [Interpreter.LoadsAlong, walk]
  cases follows begun begins with
  | through a inner missing _ met' gives =>
    obtain ⟨enough, gives⟩ := gives
    refine ⟨.ok (), inner.leaveModule m.environment.locals m.file,
      Run.gives_load ⟨enough, ?_⟩, ?_, ?_⟩
    · intro fuel hf
      rw [loads, show Run.runProgram fuel program begun = _ from gives fuel hf]
      rfl
    · have all := begins.trans met'
      exact ⟨all.source, all.loaded⟩
    · rw [Walk.after, missing]
      exact .ok
  | broken e other inner missing cause met' gives =>
    obtain ⟨enough, gives⟩ := gives
    refine ⟨.error (.execution name e), inner.leaveModule m.environment.locals m.file,
      Run.gives_load ⟨enough, ?_⟩, ?_, ?_⟩
    · intro fuel hf
      rw [loads, show Run.runProgram fuel program begun = _ from gives fuel hf]
      rfl
    · have all := begins.trans met'
      exact ⟨all.source, all.loaded⟩
    · rw [Walk.after, missing]
      exact .broken (by simp [found]) cause

theorem loadsAlong (declares : modules.Declares) (bound : Nat) (m : Interpreter) (name : String)
    (source : m.source = .table modules) (below : m.modules.unloaded modules ≤ bound) :
    m.LoadsAlong modules name := by
  induction bound using Nat.strongRecOn generalizing m name with
  | ind bound ih =>
    by_cases h : name ∈ m.modules.loaded
    · exact loadsAlong_of_mem h
    · cases found : modules.get? name with
      | none => exact loadsAlong_of_none source h found
      | some text =>
        obtain ⟨program, parsed, declared, includes⟩ := declares.includes found
        refine loadsAlong_of_some source h found parsed includes fun m' met => ?_
        have less : m'.modules.unloaded modules < m.modules.unloaded modules := by
          have fewer := ModuleLog.unloaded_lt_of_includes h includes
          rwa [← met.loaded] at fewer
        exact follows_program (ih _ (Nat.lt_of_lt_of_le less below)) (met.source.trans source)
          (Nat.le_refl _) program declared none

end Loading

/-- Where modules do nothing at their top level but include modules and define functions, loading
one ends, and enters in the log the names that the depth-first walk from it meets, in that order. It
succeeds unless that walk comes to a missing module. It reports a missing module as such if that is
the one to be loaded, and else as the error that its execution ended with. -/
theorem load_depthFirst (m : Interpreter) (modules : Dictionary String)
    (source : m.source = .table modules) (declares : modules.Declares) (name : String)
    (fresh : name ∉ m.modules.loaded) :
    let walk := depthFirst modules m.modules.loaded [name]
    ∃ enough result m', (∀ fuel, enough ≤ fuel → Run.load fuel name m = .value result m') ∧
      m'.modules.loaded = m.modules.loaded ++ walk.order ∧
      (walk.missing = none ↔ result = .ok ()) ∧
      (modules.get? name = none ↔ result = .error (.fault (.notFound name []))) ∧
      ∀ missing, walk.missing = some missing → modules.get? name ≠ none →
        ∃ e, result = .error (.execution name e) ∧ e.kind = .module ∧
          e.cause = .module (.notFound missing []) := by
  intro walk
  obtain ⟨result, m', ⟨enough, gives⟩, met, reports⟩ :=
    loadsAlong declares _ m name source (Nat.le_refl _)
  refine ⟨enough, result, m', gives, met.loaded, ?_⟩
  change modules.Reports name walk.missing result at reports
  have missed (h : modules.get? name = none) : walk.missing = some name := by
    rw [show walk = _ from depthFirst_of_none fresh (by simp [Dictionary.includes?, h]) []]
  generalize walk.missing = missing at reports missed ⊢
  cases reports with
  | ok =>
    have found : modules.get? name ≠ none := fun h => by cases missed h
    simp [found]
  | absent gone => simp [gone]
  | broken found cause => simp [found, cause, RuntimeError.kind, Cause.kind]

/-- Modules that include themselves, each other, one that is loaded already and one that is not
there. -/
def Dictionary.branching : Dictionary String :=
  [("r", "include \"a\"\nfunc f() \x7b return 1 \x7d\ninclude \"b\""),
    ("a", "include \"a\"\ninclude \"c\"\ninclude \"r\""), ("b", "include \"d\"\ninclude \"gone\""),
    ("c", "include \"b\""), ("d", "include \"e\""), ("e", "")]

theorem Dictionary.declares_branching : branching.Declares := by
  have all : branching.all fun entry =>
      match parseProgram entry.2 with
      | .ok program => program.all Stmt.isDeclaration
      | .error _ => false := by
    decide +kernel
  intro name text found
  have checked := List.all_eq_true.mp all (name, text) (mem_of_get? found)
  cases parsed : parseProgram text with
  | ok program => exact ⟨program, rfl, List.all_eq_true.mp (by simpa [parsed] using checked)⟩
  | error diagnostic => simp [parsed] at checked

def Interpreter.withBranching : Interpreter :=
  { fresh with modules := ⟨["d"], []⟩, source := .table .branching }

theorem load_depthFirst_branching : ∃ fuel e m',
    Run.load fuel "r" .withBranching = .value (.error (.execution "r" e)) m' ∧
      m'.modules.loaded = ["d", "r", "a", "c", "b", "gone"] ∧
      e.cause = .module (.notFound "gone" []) := by
  have walk : depthFirst .branching Interpreter.withBranching.modules.loaded ["r"] =
      ⟨["r", "a", "c", "b", "gone"], some "gone"⟩ := by
    have r : Dictionary.branching.includes? "r" = some ["a", "b"] := by decide +kernel
    have a : Dictionary.branching.includes? "a" = some ["a", "c", "r"] := by decide +kernel
    have b : Dictionary.branching.includes? "b" = some ["d", "gone"] := by decide +kernel
    have c : Dictionary.branching.includes? "c" = some ["b"] := by decide +kernel
    have gone : Dictionary.branching.includes? "gone" = none := by decide +kernel
    rw [depthFirst_of_some (by decide) r, List.append_nil, depthFirst_of_some (by decide) a,
      List.cons_append, depthFirst_of_mem (by decide), List.cons_append,
      depthFirst_of_some (by decide) c, List.cons_append, depthFirst_of_some (by decide) b,
      List.cons_append, depthFirst_of_mem (by decide), List.cons_append,
      depthFirst_of_none (by decide) gone]
    rfl
  obtain ⟨enough, result, m', loads, loaded, -, -, broken⟩ :=
    load_depthFirst .withBranching .branching rfl Dictionary.declares_branching "r" (by decide)
  rw [walk] at loaded broken
  obtain ⟨e, rfl, -, cause⟩ := broken "gone" rfl (by decide)
  exact ⟨enough, e, m', loads enough (Nat.le_refl _), loaded, cause⟩

end Script
