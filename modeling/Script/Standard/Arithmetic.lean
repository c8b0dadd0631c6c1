import Script.Host.Action
import Script.Number.Int64

namespace Script.Standard

open HostAction

/-- Takes a number out of an argument, as a double. -/
def expectNumber (function : String) (x : Value) (next : Float → HostAction) : HostAction :=
  match x.number? with
  | some y => next y
  | none => refuse (.wrongKind function "numeric" x.kind)

def abs : List Value → HostAction := unary fun x =>
  match x with
  | .int n => orRefuse .absOverflow ((int64? n.toInt.natAbs).map .int)
  | _ => expectNumber "abs" x fun y => ok (.float y.abs)

def sqrt : List Value → HostAction := unary fun x =>
  expectNumber "sqrt" x fun y => if y < 0.0 then refuse .negativeRoot else ok (.float y.sqrt)

/-- The power with an exponent below `2 ^ 32`, if it fits. Bases of size two and more leave 64 bits
with the exponent 64 at the latest; the powers of the others depend on the exponent's parity. -/
def exactPower? (base : Int) (exponent : Nat) : Option Int64 :=
  if 0x100000000 ≤ exponent then none
  else if base.natAbs ≤ 1 then
    int64? (base.pow (if exponent = 0 then 0 else 2 - exponent % 2))
  else if 64 ≤ exponent then none
  else int64? (base.pow exponent)

/-- Powers of integers are integers while they fit, all others doubles. -/
def pow : List Value → HostAction := binary fun x y =>
  match integerPower? x y with
  | some n => ok (.int n)
  | none =>
    expectNumber "pow" x fun base => expectNumber "pow" y fun exponent =>
      ok (.float (base ^ exponent))
where
  integerPower? : Value → Value → Option Int64
    | .int base, .int exponent =>
      if exponent < 0 then none else exactPower? base.toInt exponent.toInt.toNat
    | _, _ => none

end Script.Standard
