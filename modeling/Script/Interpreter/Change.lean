import Script.Interpreter

namespace Script

/-- What an evaluation does to the state in one step; the scopes, calls and modules that it enters
and leaves again are no changes. -/
inductive Change where
  | declare (name : String) (value : Value)
  | declareGlobal (name : String) (value : Value)
  /-- Overwrites the nearest binding. -/
  | assign (name : String) (value : Value)
  | pushScope
  | popScope
  | define (function : Function)
  | addBuiltin (builtin : Builtin)
  | setLimit (limit : Nat)
  | setSource (source : ModuleSource)
  | mark (module : String)
  | retain (program : Program)
  | print (text : String)
  | register (extension : Extension)
  | newCell (initial : Value)
  | writeCell (cell : Nat) (value : Value)

namespace Change

/-- The state after a change. What is not there is neither overwritten nor taken away. -/
def apply (c : Change) (m : Interpreter) : Interpreter :=
  match c with
  | declare name value => { m with environment := m.environment.set name value }
  | declareGlobal name value => { m with environment := m.environment.setGlobal name value }
  | assign name value =>
    { m with environment := (m.environment.assign? name value).getD m.environment }
  | pushScope => { m with environment := m.environment.push }
  | popScope => { m with environment := m.environment.pop }
  | define function => { m with functions := m.functions.addUser function.name function }
  | addBuiltin builtin => { m with functions := m.functions.addBuiltin builtin }
  | setLimit limit => { m with calls := { m.calls with limit := limit } }
  | setSource source => { m with source := source }
  | mark module => { m with modules := (m.modules.mark? module).getD m.modules }
  | retain program => { m with modules := m.modules.retain program }
  | print text => m.write text
  | register extension =>
    { m with world := { m.world with extensions := m.world.extensions ++ [extension] } }
  | newCell initial => { m with cells := m.cells.push initial }
  | writeCell cell value => { m with cells := m.cells.setIfInBounds cell value }

/-- A user function is the one that a change has defined, or was there before. -/
theorem user_of_apply {c : Change} {m : Interpreter} {name : String} {f : Function}
    (h : (c.apply m).functions.user.get? name = some f) :
    c = define f ∨ m.functions.user.get? name = some f := by
  cases c with
  | define g =>
    rcases Dictionary.get?_of_insert h with ⟨-, rfl⟩ | ⟨-, h⟩
    · exact .inl rfl
    · exact .inr h
  | _ => exact .inr h

end Change

end Script
