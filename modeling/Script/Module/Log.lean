import Script.Program

namespace Script

/-- The modules that loading has been asked for, in that order, and the programs that were parsed
for them. -/
structure ModuleLog where
  loaded : List String
  retained : List Program

namespace ModuleLog

def empty : ModuleLog := ⟨[], []⟩

def isLoaded (log : ModuleLog) (name : String) : Bool := log.loaded.contains name

def mark? (log : ModuleLog) (name : String) : Option ModuleLog :=
  if log.isLoaded name then none else some { log with loaded := log.loaded ++ [name] }

theorem mark?_eq_some {log marked : ModuleLog} {name : String} :
    log.mark? name = some marked ↔
      name ∉ log.loaded ∧ { log with loaded := log.loaded ++ [name] } = marked := by
  simp [mark?, isLoaded]

theorem isLoaded_of_mark? {log marked : ModuleLog} {name : String}
    (h : log.mark? name = some marked) (other : String) :
    marked.isLoaded other = (log.isLoaded other || other == name) := by
  obtain ⟨-, rfl⟩ := mark?_eq_some.mp h
  simp [isLoaded, List.contains_eq_mem, Bool.beq_eq_decide_eq]

def retain (log : ModuleLog) (program : Program) : ModuleLog :=
  { log with retained := log.retained ++ [program] }

end ModuleLog

end Script
