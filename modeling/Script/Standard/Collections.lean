import Script.Host.Action
import Script.Number.Int64
import Script.Value.Elements

namespace Script.Standard

open HostAction

def len : List Value → HostAction := unary fun x =>
  match x with
  | .string s => ok (.int (Int64.ofNat s.length))
  | .array vs => ok (.int (Int64.ofNat vs.length))
  | _ => refuse (.wrongKind "len" "String or Array" x.kind)

def push : List Value → HostAction := binary fun x element =>
  match x with
  | .array vs => ok (.array (vs ++ [element]))
  | _ => refuse (.wrongKind "push" "Array" x.kind)

/-- Whether a point lies before `stop`, as seen in the direction of `step`. -/
def LiesBefore (stop step point : Int) : Prop :=
  0 < step ∧ point < stop ∨ step < 0 ∧ stop < point

instance (stop step point : Int) : Decidable (LiesBefore stop step point) :=
  inferInstanceAs (Decidable (_ ∨ _))

/-- Appends the integers from `point` on to those that there are already, one checked addition of
`step` after another, as long as they lie before `stop` and 64 bits hold the sum. -/
def walk (stop step : Int64) (points : Array Int64) (point : Int64) : Array Int64 :=
  if _before : LiesBefore stop.toInt step.toInt point.toInt then
    match _sum : int64? (point.toInt + step.toInt) with
    | some next => walk stop step (points.push point) next
    | none => points.push point
  else points
termination_by
  (if 0 < step.toInt then stop.toInt - point.toInt else point.toInt - stop.toInt).toNat
decreasing_by
  rw [toInt_of_int64? _sum]
  rcases _before with ⟨up, below⟩ | ⟨down, above⟩
  · simp only [up, if_true]
    omega
  · simp only [Int.not_lt.mpr (Int.le_of_lt down), if_false]
    omega

/-- The array of the integers from `start` on, in steps that move. -/
def rangeOf (start stop step : Int64) : HostAction :=
  if step = 0 then refuse .zeroStep
  else ok (.array ((walk stop step #[] start).toList.map .int))

def expectInt (function : String) (x : Value) (next : Int64 → HostAction) : HostAction :=
  match x with
  | .int n => next n
  | _ => refuse (.wrongKind function "Int" x.kind)

/-- Where a range starts and stops; a single argument is where it stops. -/
def rangeEnds (arguments : List Value) (next : Int64 → Int64 → HostAction) : HostAction :=
  match arguments with
  | [stop] => expectInt "range" stop (next 0)
  | _ =>
    argument 0 arguments fun start => expectInt "range" start fun start =>
      argument 1 arguments fun stop => expectInt "range" stop (next start)

/-- The step of a range. Without one the integers run toward `stop` one by one. -/
def rangeStep (arguments : List Value) (start stop : Int64) (next : Int64 → HostAction) :
    HostAction :=
  match arguments[2]? with
  | some step => expectInt "range" step next
  | none => next (if start ≤ stop then 1 else -1)

/-- `range(stop)`, `range(start, stop)` or `range(start, stop, step)`. -/
def range (arguments : List Value) : HostAction :=
  counted "range" 1 3 arguments <| rangeEnds arguments fun start stop =>
    rangeStep arguments start stop (rangeOf start stop)

end Script.Standard
