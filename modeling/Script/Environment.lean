import Script.Dictionary
import Script.Value.Text

namespace Script

abbrev Scope := Dictionary Value

/-- The global scope and the scopes opened above it, innermost first. -/
structure Environment where
  globals : Scope
  locals : List Scope

namespace Environment

def empty : Environment := ⟨[], []⟩

/-- The number of scopes, the global one included. -/
def depth (e : Environment) : Nat := e.locals.length + 1

/-- All scopes, the global one first. -/
def scopes (e : Environment) : List Scope := e.globals :: e.locals.reverse

def push (e : Environment) : Environment := { e with locals := [] :: e.locals }

def isGlobal (e : Environment) : Bool := e.locals.isEmpty

/-- The environment without its innermost scope, unless that is the global one. -/
def pop (e : Environment) : Environment := { e with locals := e.locals.tail }

/-- Binds a name in the innermost scope. -/
def set (e : Environment) (name : String) (value : Value) : Environment :=
  match e.locals with
  | [] => { e with globals := e.globals.insert name value }
  | scope :: outer => { e with locals := scope.insert name value :: outer }

def setGlobal (e : Environment) (name : String) (value : Value) : Environment :=
  { e with globals := e.globals.insert name value }

/-- The value that the innermost of the scopes binding the name gives it. -/
def find? : List Scope → String → Option Value
  | [], _ => none
  | scope :: outer, name =>
    match scope.get? name with
    | some value => some value
    | none => find? outer name

def get? (e : Environment) (name : String) : Option Value :=
  match find? e.locals name with
  | some value => some value
  | none => e.globals.get? name

def has (e : Environment) (name : String) : Bool := (e.get? name).isSome

/-- Overwrites the name in the innermost of the scopes that bind it. -/
def overwrite? : List Scope → String → Value → Option (List Scope)
  | [], _, _ => none
  | scope :: outer, name, value =>
    if scope.has name then some (scope.insert name value :: outer)
    else (overwrite? outer name value).map (scope :: ·)

/-- Overwrites the nearest binding of the name, if there is one. -/
def assign? (e : Environment) (name : String) (value : Value) : Option Environment :=
  match overwrite? e.locals name value with
  | some locals => some { e with locals := locals }
  | none =>
    if e.globals.has name then some { e with globals := e.globals.insert name value } else none

def scopeText (scope : Scope) : String :=
  String.join (scope.map fun (name, value) => "  " ++ name ++ " = " ++ value.echo ++ "\n")

/-- The scopes above the global one, numbered from the given depth. -/
def localsText (depth : Nat) : List Scope → String
  | [] => ""
  | scope :: inner =>
    "scope " ++ toString depth ++ ":\n" ++ scopeText scope ++ localsText (depth + 1) inner

@[simp]
theorem depth_push (e : Environment) : e.push.depth = e.depth + 1 := rfl

theorem depth_pop {e : Environment} (h : ¬e.isGlobal) : e.pop.depth + 1 = e.depth := by
  rcases e with ⟨globals, _ | ⟨scope, outer⟩⟩
  · exact absurd rfl h
  · rfl

@[simp]
theorem depth_set (e : Environment) (name : String) (value : Value) :
    (e.set name value).depth = e.depth := by
  rcases e with ⟨globals, _ | ⟨scope, outer⟩⟩ <;> rfl

@[simp]
theorem depth_setGlobal (e : Environment) (name : String) (value : Value) :
    (e.setGlobal name value).depth = e.depth := rfl

theorem length_of_overwrite? {scopes updated : List Scope} {name : String} {value : Value}
    (h : overwrite? scopes name value = some updated) : updated.length = scopes.length := by
  induction scopes generalizing updated with
  | nil => simp [overwrite?] at h
  | cons scope outer ih =>
    unfold overwrite? at h
    split at h
    · obtain rfl := Option.some.inj h
      rfl
    · obtain ⟨rest, hr, rfl⟩ := Option.map_eq_some_iff.mp h
      simp [ih hr]

theorem depth_of_assign? {e updated : Environment} {name : String} {value : Value}
    (h : e.assign? name value = some updated) : updated.depth = e.depth := by
  unfold assign? at h
  split at h
  next locals hl =>
    obtain rfl := Option.some.inj h
    simp [depth, length_of_overwrite? hl]
  next =>
    split at h
    · obtain rfl := Option.some.inj h
      rfl
    · cases h

theorem length_scopes (e : Environment) : e.scopes.length = e.depth := by simp [scopes, depth]

/-- To close a scope is to take the last one away. -/
theorem scopes_pop {e : Environment} (inside : ¬e.isGlobal) : e.pop.scopes = e.scopes.dropLast := by
  rcases e with ⟨globals, _ | ⟨scope, outer⟩⟩
  · exact absurd rfl inside
  · simp [pop, scopes, List.dropLast_cons_of_ne_nil]

theorem isSome_overwrite? (scopes : List Scope) (name : String) (value : Value) :
    (overwrite? scopes name value).isSome = (find? scopes name).isSome := by
  induction scopes with
  | nil => rfl
  | cons scope outer ih =>
    cases hs : scope.get? name with
    | some found => simp [overwrite?, find?, Dictionary.has, hs]
    | none => simp [overwrite?, find?, Dictionary.has, hs, ih]

theorem isSome_assign? (e : Environment) (name : String) (value : Value) :
    (e.assign? name value).isSome = e.has name := by
  have locals := isSome_overwrite? e.locals name value
  unfold assign? has get?
  split
  next updated ho =>
    rw [ho] at locals
    obtain ⟨found, hf⟩ := Option.isSome_iff_exists.mp locals.symm
    simp [hf]
  next ho =>
    rw [ho] at locals
    obtain hf : find? e.locals name = none := by simpa using locals.symm
    by_cases hg : e.globals.has name
    · rw [if_pos hg, hf]
      exact hg.symm
    · rw [if_neg hg, hf]
      exact (Bool.eq_false_iff.mpr hg).symm

/-- A listing of all variables, the global scope first. -/
def text (e : Environment) : String :=
  "scope 0 (global):\n" ++ scopeText e.globals ++ localsText 1 e.locals.reverse

end Environment

end Script
