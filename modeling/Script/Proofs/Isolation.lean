import Script.Proofs.Loading

namespace Script

namespace Interpreter

def withLocals (locals : List Scope) (m : Interpreter) : Interpreter :=
  { m with environment := { m.environment with locals := locals } }

/-- Whether two interpreters differ at most in the scopes above the global one. -/
def SameGlobally (m m' : Interpreter) : Prop := m'.withLocals [] = m.withLocals []

variable {m m' : Interpreter}

theorem SameGlobally.enterModule (same : m.SameGlobally m') (origin : String) :
    m'.enterModule origin = m.enterModule origin := by
  have inside (n : Interpreter) : n.enterModule origin = { n.withLocals [] with file := origin } :=
    rfl
  rw [inside, inside, same]

theorem SameGlobally.congr (same : m.SameGlobally m') {α : Type} (view : Interpreter → α)
    (blind : ∀ n : Interpreter, view (n.withLocals []) = view n) :
    view m' = view m := by
  rw [← blind m', ← blind m, same]

theorem SameGlobally.apply (same : m.SameGlobally m') {c : Change}
    (hc : ∀ n : Interpreter, (c.apply n).withLocals [] = c.apply (n.withLocals [])) :
    (c.apply m).SameGlobally (c.apply m') := by
  rw [SameGlobally, hc, hc, same]

end Interpreter

namespace Outcome

variable {α : Type}

/-- Whether two evaluations end in the same way and with the same result, in states that differ at
most in the scopes above the global one. -/
inductive Agrees : Outcome α → Outcome α → Prop where
  | value (a : α) {m m' : Interpreter} (same : m.SameGlobally m') :
    Agrees (.value a m) (.value a m')
  | error (e : RuntimeError) {m m' : Interpreter} (same : m.SameGlobally m') :
    Agrees (.error e m) (.error e m')
  | halted (reason : Halt) {m m' : Interpreter} (same : m.SameGlobally m') :
    Agrees (.halted reason m) (.halted reason m')

theorem agrees_leaveModule (o : Outcome α) (locals locals' : List Scope) (file : String) :
    (o.close (fun _ => true) (Interpreter.leaveModule locals file)).Agrees
      (o.close (fun _ => true) (Interpreter.leaveModule locals' file)) := by
  cases o with
  | value a => exact .value a rfl
  | error e => exact .error e rfl
  | halted reason => exact .halted reason rfl

theorem Agrees.ofLoad {o o' : Outcome Value} (h : o.Agrees o') (name : String) :
    (o.ofLoad name).Agrees (o'.ofLoad name) := by
  cases h with
  | value _ same => exact .value _ same
  | error _ same => exact .value _ same
  | halted reason same => exact .halted reason same

theorem Agrees.left {o o' : Outcome α} (h : o.Agrees o') {m m' : Interpreter}
    (hm : o.left? = some m) (hm' : o'.left? = some m') : m.SameGlobally m' := by
  cases h with
  | value _ same | error _ same =>
    obtain rfl := Option.some.inj hm
    obtain rfl := Option.some.inj hm'
    exact same
  | halted => cases hm

end Outcome

namespace Run

variable {α : Type} {m m' : Interpreter}

theorem withModule_agrees (same : m.SameGlobally m') (origin : String) (body : Run α) :
    (withModule origin body m).Agrees (withModule origin body m') := by
  have file : m'.file = m.file := same.congr Interpreter.file fun _ => rfl
  simp only [withModule, same.enterModule, file]
  exact Outcome.agrees_leaveModule _ _ _ _

/-- Two interpreters that differ in their local scopes load a module alike. -/
theorem load_agrees (fuel : Nat) (name : String) (same : m.SameGlobally m') :
    (load fuel name m).Agrees (load fuel name m') := by
  have modules : m'.modules = m.modules := same.congr Interpreter.modules fun _ => rfl
  have source : m'.source = m.source := same.congr Interpreter.source fun _ => rfl
  cases fuel with
  | zero => exact .halted _ same
  | succ fuel =>
    by_cases h : name ∈ m.modules.loaded
    · rw [load_of_mem h, load_of_mem (modules ▸ h)]
      exact .value _ same
    · have marked : ((Change.mark name).apply m).SameGlobally ((Change.mark name).apply m') :=
        same.apply fun _ => rfl
      rw [load_of_fresh fuel h, load_of_fresh fuel (modules ▸ h), source]
      cases m.source.fetch name with
      | found text =>
        cases hp : parseProgram text.source with
        | error diagnostic =>
          simp only [hp]
          exact .value _ marked
        | ok program =>
          simp only [hp]
          exact (withModule_agrees (marked.apply fun _ => rfl) _ _).ofLoad name
      | unread path => exact .halted _ marked
      | notFound | unreadable => exact .value _ marked

/-- Loading a module leaves the local scopes as they were. -/
theorem locals_of_load {fuel : Nat} {name : String}
    (left : (load fuel name m).left? = some m') :
    m'.environment.locals = m.environment.locals := by
  cases fuel with
  | zero => cases left
  | succ fuel =>
    by_cases h : name ∈ m.modules.loaded
    · rw [load_of_mem h] at left
      exact Option.some.inj left ▸ rfl
    · rcases load_of_not_mem fuel h with
        ⟨-, fault, loads⟩ | ⟨-, ⟨path, loads⟩ | ⟨text, program, loads⟩⟩
      · rw [loads] at left
        exact Option.some.inj left ▸ rfl
      · rw [loads] at left
        cases left
      · rw [loads, Outcome.left?_ofLoad] at left
        obtain ⟨inner, -, rfl⟩ := Outcome.left?_close left
        rfl

end Run

/-- Loading a module neither depends on the local scopes nor touches them: whatever they are, it
ends alike, and leaves them as they were. -/
theorem load_isolated (fuel : Nat) (name : String) (m m' : Interpreter)
    (same : m.SameGlobally m') :
    (Run.load fuel name m).Agrees (Run.load fuel name m') ∧
      (∀ left, (Run.load fuel name m).left? = some left →
        left.environment.locals = m.environment.locals) ∧
      ∀ left, (Run.load fuel name m').left? = some left →
        left.environment.locals = m'.environment.locals :=
  ⟨Run.load_agrees fuel name same, fun _ => Run.locals_of_load, fun _ => Run.locals_of_load⟩

/-- An interpreter with a function that reads a global variable, and a module that includes another
one, which writes to that variable, and then calls the function. -/
def Interpreter.withReader (locals : List Scope) : Interpreter :=
  { fresh with
    environment := ⟨[("x", .int 1)], locals⟩
    functions := fresh.functions.addUser "f"
      ⟨"f", [], [.return ⟨0, 1, 1⟩ (some (.name ⟨0, 1, 1⟩ "x"))], ⟨0, 1, 1⟩⟩
    source := .table [("a", "include \"b\"\nvar y = f()"), ("b", "x = 5")] }

theorem load_isolated_withReader : ∃ left left',
    (Run.load 40 "a" (.withReader [[("x", .int 7)]])).left? = some left ∧
    (Run.load 40 "a" (.withReader [[], [("x", .int 8)]])).left? = some left' ∧
    left.SameGlobally left' ∧ (left.environment.globals.get? "y").bind Value.int? = some 5 ∧
    left.environment.locals = [[("x", .int 7)]] ∧
    left'.environment.locals = [[], [("x", .int 8)]] := by
  have ends : (Run.load 40 "a" (.withReader [[("x", .int 7)]])).left?.bind
      (fun m => (m.environment.globals.get? "y").bind Value.int?) = some 5 ∧
      (Run.load 40 "a" (.withReader [[], [("x", .int 8)]])).left?.isSome := by
    decide +kernel
  obtain ⟨left, hl, read⟩ := Option.bind_eq_some_iff.mp ends.1
  obtain ⟨left', hl'⟩ := Option.isSome_iff_exists.mp ends.2
  obtain ⟨agrees, kept, kept'⟩ := load_isolated 40 "a" (.withReader [[("x", .int 7)]])
    (.withReader [[], [("x", .int 8)]]) rfl
  exact ⟨left, left', hl, hl', agrees.left hl hl', read, kept left hl, kept' left' hl'⟩

end Script
