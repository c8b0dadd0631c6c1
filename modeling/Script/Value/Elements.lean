import Script.Value.OperationError

namespace Script

namespace Value

/-- The position that an index names in a list of so many elements. -/
def position? (index : Int64) (length : Nat) : Option Nat :=
  if 0 ≤ index.toInt ∧ index.toInt < length then some index.toInt.toNat else none

/-- The elements of an array, or the characters of a string. -/
def iterate : Value → Except OperationError (List Value)
  | array vs => .ok vs
  | string s => .ok (s.toList.map ofChar)
  | target => .error (.notIterable target.kind)

/-- The element or the character at an index counted from zero. A character that is not there would
be `null`. -/
def index (target index : Value) : Except OperationError Value :=
  match target, index with
  | array vs, int i =>
    match (position? i vs.length).bind (vs[·]?) with
    | some v => .ok v
    | none => .error (.indexOutOfBounds i vs.length)
  | string s, int i =>
    match position? i s.length with
    | some slot => .ok (s.toList[slot]?.elim null ofChar)
    | none => .error (.indexOutOfBounds i s.length)
  | _, _ => .error (.notIndexable target.kind index.kind)

/-- The array with the element at an index replaced. -/
def withElement (target index element : Value) : Except OperationError Value :=
  match target, index with
  | array vs, int i =>
    match position? i vs.length with
    | some n => .ok (array (vs.set n element))
    | none => .error (.indexOutOfBounds i vs.length)
  | _, _ => .error (.notIndexable target.kind index.kind)

end Value

end Script
