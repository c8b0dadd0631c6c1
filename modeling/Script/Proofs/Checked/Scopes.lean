import Script.Interpreter.Run

namespace Script

namespace Scopes

/-- Binds a name in the scope at a position. -/
def bindAt? (position : Nat) (name : String) (value : Value) (scopes : List Scope) :
    Option (List Scope) :=
  scopes[position]?.map fun scope => scopes.set position (scope.insert name value)

/-- Binds a name in the innermost scope. -/
def bindLast? (name : String) (value : Value) (scopes : List Scope) : Option (List Scope) :=
  bindAt? (scopes.length - 1) name value scopes

/-- Takes the innermost scope away, which must not be the global one. -/
def pop? (scopes : List Scope) : Option (List Scope) :=
  if 1 < scopes.length then some scopes.dropLast else none

def splitAt? (position : Nat) (scopes : List Scope) : Option (List Scope × List Scope) :=
  if position ≤ scopes.length then some (scopes.splitAt position) else none

variable (e : Environment) (name : String) (value : Value)

theorem bindAt?_zero : bindAt? 0 name value e.scopes = some (e.setGlobal name value).scopes := rfl

theorem bindLast?_scopes : bindLast? name value e.scopes = some (e.set name value).scopes := by
  rcases e with ⟨globals, _ | ⟨scope, outer⟩⟩
  · rfl
  · have last : (globals :: (outer.reverse ++ [scope])).length - 1 =
        (globals :: outer.reverse).length := by simp
    have found : (globals :: (outer.reverse ++ [scope]))[(globals :: outer.reverse).length]? =
        some scope := by
      rw [← List.cons_append, List.getElem?_concat_length]
    simp only [bindLast?, bindAt?, Environment.scopes, Environment.set, List.reverse_cons, last,
      found, Option.map_some]
    rw [← List.cons_append, List.set_append_right _ _ (Nat.le_refl _), Nat.sub_self]
    rfl

theorem pop?_scopes : pop? e.scopes = if e.isGlobal then none else some e.pop.scopes := by
  have several : 1 < e.scopes.length ↔ ¬e.isGlobal := by
    rw [Environment.length_scopes]
    rcases e with ⟨globals, _ | ⟨scope, outer⟩⟩ <;> simp [Environment.depth, Environment.isGlobal]
  by_cases outermost : e.isGlobal
  · rw [if_pos outermost, pop?, if_neg fun more => several.mp more outermost]
  · rw [if_neg outermost, pop?, if_pos (several.mpr outermost), Environment.scopes_pop outermost]

theorem splitAt?_one : splitAt? 1 e.scopes = some ([e.globals], e.locals.reverse) := by
  rw [splitAt?, if_pos (by simp [Environment.scopes])]
  simp [Environment.scopes, List.splitAt_eq]

end Scopes

/-- The environment of these scopes, if there is a global one among them. -/
def Environment.ofScopes? : List Scope → Option Environment
  | [] => none
  | globals :: inner => some ⟨globals, inner.reverse⟩

@[simp]
theorem Environment.ofScopes?_scopes (e : Environment) : ofScopes? e.scopes = some e := by
  simp [ofScopes?, scopes]

/-- The stack without its last call, if there is one. -/
def CallStack.pop? (s : CallStack) : Option CallStack := if s.isEmpty then none else some s.pop

namespace Interpreter

variable {m : Interpreter}

/-- The state after an operation on the list of scopes. -/
def onScopes? (operation : List Scope → Option (List Scope)) (m : Interpreter) :
    Option Interpreter :=
  ((operation m.environment.scopes).bind Environment.ofScopes?).map fun environment =>
    { m with environment := environment }

theorem onScopes?_eq {operation : List Scope → Option (List Scope)} {e : Environment}
    (h : operation m.environment.scopes = some e.scopes) :
    m.onScopes? operation = some { m with environment := e } := by
  rw [onScopes?, h, Option.bind_some, Environment.ofScopes?_scopes]
  rfl

def enterScope? (m : Interpreter) : Option Interpreter :=
  m.onScopes? fun scopes => some (scopes ++ [[]])

def leaveScope? (m : Interpreter) : Option Interpreter := m.onScopes? Scopes.pop?

def enterCall? (frame : Frame) (m : Interpreter) : Option Interpreter :=
  enterScope? { m with calls := m.calls.push frame }

def leaveCall? (m : Interpreter) : Option Interpreter :=
  m.leaveScope?.bind fun m => m.calls.pop?.map fun calls => { m with calls := calls }

/-- The state in which a module begins, and the local scopes that are split off for it. -/
def enterModule? (origin : String) (m : Interpreter) : Option (Interpreter × List Scope) :=
  (Scopes.splitAt? 1 m.environment.scopes).bind fun (first, locals) =>
    (Environment.ofScopes? first).map fun environment =>
      ({ m with environment := environment, file := origin }, locals)

/-- Puts local scopes back in place of those that a module has left. -/
def leaveModule? (locals : List Scope) (file : String) (m : Interpreter) : Option Interpreter :=
  (m.onScopes? fun scopes => some (scopes.take 1 ++ locals)).map fun m => { m with file := file }

theorem enterScope?_eq (m : Interpreter) : m.enterScope? = some m.enterScope := by
  refine onScopes?_eq ?_
  simp [Environment.scopes, Environment.push]

theorem leaveScope?_eq (m : Interpreter) :
    m.leaveScope? = if m.canLeaveScope then some m.leaveScope else none := by
  have popped := Scopes.pop?_scopes m.environment
  cases outermost : m.environment.isGlobal with
  | true =>
    rw [outermost, if_pos rfl] at popped
    simp [leaveScope?, onScopes?, canLeaveScope, outermost, popped]
  | false =>
    rw [outermost, if_neg Bool.false_ne_true] at popped
    rw [leaveScope?, onScopes?_eq popped, if_pos (by simp [canLeaveScope, outermost])]
    rfl

theorem enterCall?_eq (frame : Frame) (m : Interpreter) :
    m.enterCall? frame = some (m.enterCall frame) := enterScope?_eq _

theorem leaveCall?_eq (m : Interpreter) :
    m.leaveCall? = if m.canLeaveCall then some m.leaveCall else none := by
  rw [leaveCall?, leaveScope?_eq]
  cases outermost : m.environment.isGlobal with
  | true => simp [canLeaveScope, canLeaveCall, outermost]
  | false =>
    have calls : m.leaveScope.calls = m.calls := rfl
    cases empty : m.calls.isEmpty with
    | true => simp [canLeaveScope, canLeaveCall, outermost, calls, CallStack.pop?, empty]
    | false =>
      simp only [canLeaveScope, canLeaveCall, outermost, empty, Bool.not_false, Bool.and_self,
        if_true, Option.bind_some, calls, CallStack.pop?, Bool.false_eq_true, if_false,
        Option.map_some]
      rfl

theorem enterModule?_eq (origin : String) (m : Interpreter) :
    m.enterModule? origin = some (m.enterModule origin, m.environment.locals.reverse) := by
  rw [enterModule?, Scopes.splitAt?_one]
  rfl

theorem leaveModule?_eq (locals : List Scope) (file : String) (m : Interpreter) :
    m.leaveModule? locals.reverse file = some (m.leaveModule locals file) := by
  have restored : some (m.environment.scopes.take 1 ++ locals.reverse) =
      some ({ m.environment with locals := locals } : Environment).scopes := rfl
  rw [leaveModule?, onScopes?_eq restored]
  rfl

end Interpreter

/-- The state after a change whose accesses to scopes are checked. -/
def Change.applyChecked (c : Change) (m : Interpreter) : Option Interpreter :=
  match c with
  | declare name value => m.onScopes? (Scopes.bindLast? name value)
  | declareGlobal name value => m.onScopes? (Scopes.bindAt? 0 name value)
  | pushScope => m.enterScope?
  | popScope => m.leaveScope?
  | _ => some (c.apply m)

/-- The one change that may fail is that a host function closes the global scope. -/
theorem Change.applyChecked_eq {c : Change} (h : c ≠ .popScope) (m : Interpreter) :
    c.applyChecked m = some (c.apply m) := by
  cases c with
  | declare name value =>
    exact Interpreter.onScopes?_eq (Scopes.bindLast?_scopes m.environment name value)
  | declareGlobal name value =>
    exact Interpreter.onScopes?_eq (Scopes.bindAt?_zero m.environment name value)
  | pushScope => exact m.enterScope?_eq
  | popScope => exact absurd rfl h
  | _ => rfl

end Script
