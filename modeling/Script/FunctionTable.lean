import Script.Host.Action

namespace Script

/-- The functions that calls can name: those of programs, and those of the host. -/
structure FunctionTable where
  user : Dictionary Function
  builtins : Dictionary Builtin

inductive Callee where
  | user (function : Function)
  | builtin (builtin : Builtin)

namespace FunctionTable

def empty : FunctionTable := ⟨[], []⟩

def addUser (t : FunctionTable) (name : String) (function : Function) : FunctionTable :=
  { t with user := t.user.insert name function }

def addBuiltin (t : FunctionTable) (builtin : Builtin) : FunctionTable :=
  { t with builtins := t.builtins.insert builtin.name builtin }

/-- A user function hides the builtin of its name. -/
def resolve (t : FunctionTable) (name : String) : Option Callee :=
  match t.user.get? name with
  | some function => some (.user function)
  | none => (t.builtins.get? name).map .builtin

theorem user_of_resolve {t : FunctionTable} {name : String} {f : Function}
    (h : t.resolve name = some (.user f)) : t.user.get? name = some f := by
  unfold resolve at h
  split at h <;> simp_all

theorem builtins_of_resolve {t : FunctionTable} {name : String} {b : Builtin}
    (h : t.resolve name = some (.builtin b)) : t.builtins.get? name = some b := by
  unfold resolve at h
  split at h <;> simp_all

def has (t : FunctionTable) (name : String) : Bool := (t.resolve name).isSome

end FunctionTable

end Script
