import Script.Host.Action
import Script.Number.Int64

namespace Script.Standard

open HostAction

/-- `assert(condition)` or `assert(condition, message)`. -/
def assert (arguments : List Value) : HostAction :=
  counted "assert" 1 2 arguments <| argument 0 arguments fun condition =>
    if condition.truthy then ok .null
    else refuse (.assertion (arguments[1]?.map Value.display))

def error : List Value → HostAction := unary fun x => refuse (.raised x.display)

/-- A count as an integer, the greatest one if it does not fit. -/
def ofCount (n : Nat) : Value := .int ((int64? n).getD Int64.maxValue)

def setRecursionLimit : List Value → HostAction := unary fun x =>
  match x with
  | .int limit =>
    if 0 < limit then .setLimit limit.toInt.toNat (ok .null)
    else refuse (.limitNotPositive limit)
  | _ => refuse (.wrongKind "set_recursion_limit" "Int" x.kind)

def getRecursionLimit : List Value → HostAction := nullary <|
  .observe fun view => ok (ofCount view.calls.limit)

def callDepth : List Value → HostAction := nullary <|
  .observe fun view => ok (ofCount view.calls.depth)

def stackTrace : List Value → HostAction := nullary <|
  .observe fun view => ok (.array (view.calls.trace.map fun frame => .string frame.text))

end Script.Standard
