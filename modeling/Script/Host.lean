import Script.Interpreter.Creation

namespace Script

/-- A host program: what its interpreters share, and the interpreters it has made. -/
structure Host where
  world : World
  instances : Array Interpreter

namespace Host

def start (console : Console) : Host := ⟨⟨console, []⟩, #[]⟩

/-- Appends an extension to the registry. Interpreters that exist already are not touched. -/
def register (h : Host) (extension : Extension) : Host :=
  { h with world := { h.world with extensions := h.world.extensions ++ [extension] } }

/-- Makes an interpreter with the extensions that are registered when its making begins. -/
def create (fuel : Nat) (settings : Settings) (source : ModuleSource) (h : Host) : Host :=
  let made := (Interpreter.create fuel settings source h.world h.world.extensions).state
  ⟨made.world, h.instances.push made⟩

def runOn {α : Type} (number : Nat) (x : Run α) (h : Host) : Option (Outcome α × Host) :=
  (h.instances[number]?).map fun m =>
    let outcome := x { m with world := h.world }
    (outcome, ⟨outcome.state.world, h.instances.setIfInBounds number outcome.state⟩)

end Host

end Script
