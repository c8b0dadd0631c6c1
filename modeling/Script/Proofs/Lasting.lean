import Mathlib.Data.List.Induction
import Script.Proofs.History
import Script.Proofs.Ensures
import Script.Proofs.Rules

namespace Script

/-- The parts of a state that opening and closing scopes, calls and modules and reading a line leave
as they are. -/
def Interpreter.lasting (m : Interpreter) : Scope × FunctionTable × List Extension :=
  (m.environment.globals, m.functions, m.world.extensions)

/-- A fact about what has happened that depends on such parts alone, and that each change keeps. -/
structure Lasting (Inv : Interpreter → History → Prop) : Prop where
  of_eq : ∀ {m : Interpreter} {h : History}, Inv m h →
    ∀ m' : Interpreter, m'.lasting = m.lasting → Inv m' h
  note : ∀ {m : Interpreter} {h : History}, Inv m h →
    ∀ event : Event, (∀ c, event ≠ .changed c) → Inv m (h ++ [event])
  apply : ∀ {m : Interpreter} {h : History} (c : Change), Inv m h →
    Inv (c.apply m) (h ++ [.changed c])

namespace Lasting

variable {α : Type} {Inv : Interpreter → History → Prop} {m : Interpreter} {h : History}
  {recorded : Recorder}

theorem close (L : Lasting Inv) {o : Outcome α} (inv : Inv o.state h)
    {possible : Interpreter → Bool} {undo : Interpreter → Interpreter}
    (same : ∀ m, (undo m).lasting = m.lasting) : Inv (o.close possible undo).state h := by
  cases o with
  | value a m | error e m =>
    simp only [Outcome.close]
    split
    · exact L.of_eq inv _ (same m)
    · exact inv
  | halted reason m => exact inv

theorem noting (L : Lasting Inv) {o : Outcome α} (inv : Inv o.state h) (event : Event)
    (quiet : ∀ c, event ≠ .changed c) :
    Inv (o.noting event h).1.state (o.noting event h).2 := by
  cases o with
  | value a m | error e m => exact L.note inv event quiet
  | halted reason m => exact inv

theorem plan (L : Lasting Inv)
    (jobs : ∀ (β : Type) (j : Job β) (m : Interpreter) (h : History), Inv m h →
      Inv (recorded β j m h).1.state (recorded β j m h).2)
    (x : Plan α) (inv : Inv m h) :
    Inv (x.record recorded m h).1.state (x.record recorded m h).2 := by
  induction x generalizing m h with
  | bind x next ihx ihn =>
    have first := ihx inv
    simp only [Plan.record]
    generalize x.record recorded m h = r at first ⊢
    rcases r with ⟨_ | _ | _, h'⟩
    · exact ihn _ first
    · exact first
    · exact first
  | start j => exact jobs _ j m h inv
  | change c => exact L.apply c inv
  | readLine =>
    rcases Run.readLine_cases m with awaits | ⟨line, console, -, -, gives⟩
    · simp only [Plan.record, awaits]
      exact inv
    · simp only [Plan.record, gives]
      exact L.of_eq inv _ rfl
  | fetch | throw => exact L.note inv _ (by simp)
  | attempt x ih =>
    have inner := ih inv
    simp only [Plan.record]
    generalize x.record recorded m h = r at inner ⊢
    rcases r with ⟨_ | _ | _, h'⟩ <;> exact inner
  | withScope body ih =>
    have inner := ih (L.of_eq inv m.enterScope rfl)
    exact L.close inner fun _ => rfl
  | withCall frame span body ih =>
    simp only [Plan.record]
    split
    · exact L.note inv _ (by simp)
    · have inner := ih (L.note (L.of_eq inv (m.enterCall frame) rfl) (.entered frame) (by simp))
      refine L.noting ?_ .left (by simp)
      exact L.close inner fun _ => rfl
  | withModule origin body ih =>
    have inner := ih (L.note (L.of_eq inv (m.enterModule origin) rfl) (.began origin) (by simp))
    refine L.noting ?_ .ended (by simp)
    exact L.close inner fun _ => rfl
  | _ => exact inv

theorem job (L : Lasting Inv) (fuel : Nat) (j : Job α) (inv : Inv m h) :
    Inv (j.record fuel m h).1.state (j.record fuel m h).2 := by
  induction fuel generalizing α m h with
  | zero => exact inv
  | succ fuel ih => exact L.plan (fun _ j m h inv => ih j inv) j.plan (L.note inv _ (by simp))

end Lasting

namespace Event

/-- The extension that an event adds to the registry. -/
def registered? : Event → Option Extension
  | changed (.register extension) => some extension
  | _ => none

def addedBuiltin? : Event → Option Builtin
  | changed (.addBuiltin b) => some b
  | _ => none

/-- Whether an event binds a variable of this name, or overwrites one. -/
def writes (name : String) : Event → Bool
  | changed (.declare written _) | changed (.declareGlobal written _)
  | changed (.assign written _) => written = name
  | _ => false

end Event

namespace History

/-- The extensions that have been registered, earliest first. -/
def registered (h : History) : List Extension := h.filterMap Event.registered?

/-- The builtin of this name that has been added last. -/
def lastBuiltin? (h : History) (name : String) : Option Builtin :=
  (h.filterMap Event.addedBuiltin?).reverse.find? (·.name = name)

variable (h : History) (event : Event)

theorem registered_concat :
    registered (h ++ [event]) = h.registered ++ event.registered?.toList := by
  cases he : event.registered? <;> simp [registered, he]

theorem lastBuiltin?_concat (name : String) : lastBuiltin? (h ++ [event]) name =
    (event.addedBuiltin?.filter (·.name = name)).or (h.lastBuiltin? name) := by
  cases hb : event.addedBuiltin? with
  | none => simp [lastBuiltin?, hb]
  | some b => by_cases hn : b.name = name <;> simp [lastBuiltin?, hb, hn, Option.filter]

end History

theorem Event.registered?_of_quiet {event : Event} (quiet : ∀ c, event ≠ .changed c) :
    event.registered? = none := by
  cases event with
  | changed c => exact absurd rfl (quiet c)
  | _ => rfl

theorem Event.addedBuiltin?_of_quiet {event : Event} (quiet : ∀ c, event ≠ .changed c) :
    event.addedBuiltin? = none := by
  cases event with
  | changed c => exact absurd rfl (quiet c)
  | _ => rfl

/-- Whether the registry has grown by the registrations that have been made. -/
def Interpreter.Registers (start : List Extension) (m : Interpreter) (h : History) : Prop :=
  m.world.extensions = start ++ h.registered

theorem lasting_registers (start : List Extension) : Lasting (Interpreter.Registers start) where
  of_eq inv _ same := by
    have registry := congrArg (·.2.2) same
    exact registry.trans inv
  note inv _ quiet := by
    rw [Interpreter.Registers, History.registered_concat, Event.registered?_of_quiet quiet, inv]
    simp
  apply c inv := by
    rw [Interpreter.Registers, History.registered_concat, ← List.append_assoc, ← inv]
    cases c with
    | register extension => rfl
    | _ => exact (List.append_nil _).symm

/-- Whether each name stands for the builtin of it that has been added last. -/
def Interpreter.HasLastBuiltins (start : FunctionTable) (m : Interpreter) (h : History) : Prop :=
  ∀ name, m.functions.builtins.get? name = (h.lastBuiltin? name).or (start.builtins.get? name)

theorem lasting_hasLastBuiltins (start : FunctionTable) :
    Lasting (Interpreter.HasLastBuiltins start) where
  of_eq inv _ same name := by
    have functions := congrArg (·.2.1) same
    exact (congrArg (·.builtins.get? name) functions).trans (inv name)
  note inv _ quiet name := by
    rw [History.lastBuiltin?_concat, Event.addedBuiltin?_of_quiet quiet, inv name]
    rfl
  apply c inv name := by
    rw [History.lastBuiltin?_concat]
    cases c with
    | addBuiltin b =>
      simp only [Change.apply, FunctionTable.addBuiltin, Dictionary.get?_insert,
        Event.addedBuiltin?]
      by_cases hn : b.name = name
      · simp [hn, Option.filter]
      · simpa [hn, Option.filter] using inv name
    | _ => exact inv name

/-- Whether global variables have the values that they have been declared with last, as long as
their names have not been written to since. -/
def Interpreter.KeepsGlobals (m : Interpreter) (h : History) : Prop :=
  ∀ before name value after, h = before ++ .changed (.declareGlobal name value) :: after →
    (∀ event ∈ after, event.writes name = false) →
    m.environment.globals.get? name = some value

theorem Change.globals_apply {c : Change} {name : String}
    (spared : (Event.changed c).writes name = false) (m : Interpreter) :
    (c.apply m).environment.globals.get? name = m.environment.globals.get? name := by
  cases c with
  | declare written value =>
    have other : written ≠ name := by simpa [Event.writes] using spared
    simp only [apply, Environment.set]
    split
    · simp [Dictionary.get?_insert, other]
    · rfl
  | declareGlobal written value =>
    have other : written ≠ name := by simpa [Event.writes] using spared
    simp [apply, Environment.setGlobal, Dictionary.get?_insert, other]
  | assign written value =>
    have other : written ≠ name := by simpa [Event.writes] using spared
    simp only [apply, Environment.assign?]
    split
    · rfl
    · split
      · simp [Dictionary.get?_insert, other]
      · rfl
  | _ => rfl

theorem lasting_keepsGlobals : Lasting Interpreter.KeepsGlobals where
  of_eq inv _ same before name value after hh spared := by
    have globals := congrArg (·.1) same
    exact (congrArg (·.get? name) globals).trans (inv before name value after hh spared)
  note inv _ quiet before name value after hh spared := by
    rcases History.concat_eq_append_cons hh with ⟨-, -, last⟩ | ⟨between, rfl, rfl⟩
    · exact absurd last (quiet _)
    · exact inv before name value between rfl fun event he =>
        spared event (List.mem_append_left _ he)
  apply c inv before name value after hh spared := by
    rcases History.concat_eq_append_cons hh with ⟨-, -, last⟩ | ⟨between, rfl, rfl⟩
    · obtain rfl := Event.changed.inj last
      simp [Change.apply, Environment.setGlobal, Dictionary.get?_insert]
    · rw [Change.globals_apply (spared _ (by simp))]
      exact inv before name value between rfl fun event he =>
        spared event (List.mem_append_left _ he)

end Script
