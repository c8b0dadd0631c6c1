import Script.Value.Text
import Script.Value.OperationError
import Script.Number.Int64

namespace Script

/-- A NaN stands in no order to any double. -/
def floatOrdering? (x y : Float) : Option Ordering :=
  if x < y then some .lt
  else if x == y then some .eq
  else if y < x then some .gt
  else none

/-- The orderings that make a comparison true. -/
def BinaryOp.accepts : BinaryOp → Ordering → Bool
  | less, .lt => true
  | lessEqual, .lt | lessEqual, .eq => true
  | greater, .gt => true
  | greaterEqual, .gt | greaterEqual, .eq => true
  | _, _ => false

namespace Value

/-- An exact result, or an overflow if 64 bits do not hold it. -/
def ofExact (symbol : String) (n : Int) : Except OperationError Value :=
  match int64? n with
  | some i => .ok (int i)
  | none => .error (.overflow symbol)

/-- Integers give an exact integer; if one operand is a double, both become doubles. -/
def arithmetic (op : BinaryOp) (exact : Int → Int → Int) (rounded : Float → Float → Float)
    (left right : Value) : Except OperationError Value :=
  match left, right with
  | int a, int b => ofExact op.symbol (exact a.toInt b.toInt)
  | _, _ =>
    match left.number?, right.number? with
    | some x, some y => .ok (float (rounded x y))
    | _, _ => .error (.binaryMismatch op left.kind right.kind)

/-- A string takes the other operand in by its text, and arrays are joined. -/
def add (left right : Value) : Except OperationError Value :=
  match left, right with
  | string s, _ => .ok (string (s ++ right.display))
  | _, string s => .ok (string (left.display ++ s))
  | array as, array bs => .ok (array (as ++ bs))
  | _, _ => arithmetic .add (· + ·) (· + ·) left right

def divideFloats (left right : Value) : Except OperationError Value :=
  match left.number?, right.number? with
  | some x, some y => if y == 0.0 then .error .divisionByZero else .ok (float (x / y))
  | _, _ => .error (.binaryMismatch .div left.kind right.kind)

/-- A quotient of integers is an integer if it is exact and fits, and a double otherwise. -/
def divide (left right : Value) : Except OperationError Value :=
  match left, right with
  | int a, int b =>
    if b.toInt = 0 then .error .divisionByZero
    else if a.toInt.tmod b.toInt = 0 then
      match int64? (a.toInt.tdiv b.toInt) with
      | some q => .ok (int q)
      | none => divideFloats left right
    else divideFloats left right
  | _, _ => divideFloats left right

/-- The remainder has the sign of the dividend. It overflows where the integer quotient does. -/
def remainder (left right : Value) : Except OperationError Value :=
  match left, right with
  | int a, int b =>
    if b.toInt = 0 then .error .divisionByZero
    else if (int64? (a.toInt.tdiv b.toInt)).isNone then .error (.overflow BinaryOp.mod.symbol)
    else .ok (int (Int64.ofInt (a.toInt.tmod b.toInt)))
  | _, _ =>
    match left.number?, right.number? with
    | some x, some y =>
      if y == 0.0 then .error .divisionByZero else .ok (float (floatRemainder x y))
    | _, _ => .error (.binaryMismatch .mod left.kind right.kind)

/-- Numbers are ordered by size and strings by their characters; a NaN makes every comparison
false. -/
def compare (op : BinaryOp) (left right : Value) : Except OperationError Value :=
  match left, right with
  | int a, int b => .ok (bool (op.accepts (Ord.compare a.toInt b.toInt)))
  | string a, string b => .ok (bool (op.accepts (Ord.compare a b)))
  | _, _ =>
    match left.number?, right.number? with
    | some x, some y => .ok (bool ((floatOrdering? x y).any op.accepts))
    | _, _ => .error (.binaryMismatch op left.kind right.kind)

def binary (op : BinaryOp) (left right : Value) : Except OperationError Value :=
  match op with
  | .add => add left right
  | .sub => arithmetic op (· - ·) (· - ·) left right
  | .mul => arithmetic op (· * ·) (· * ·) left right
  | .div => divide left right
  | .mod => remainder left right
  | .equal => .ok (bool (left.equal right))
  | .notEqual => .ok (bool (!left.equal right))
  | .less | .lessEqual | .greater | .greaterEqual => compare op left right
  | .and => .ok (bool (left.truthy && right.truthy))
  | .or => .ok (bool (left.truthy || right.truthy))

def unary (op : UnaryOp) (operand : Value) : Except OperationError Value :=
  match op, operand with
  | .negate, int n => ofExact op.symbol (-n.toInt)
  | .negate, float x => .ok (float (-x))
  | .negate, _ => .error (.unaryMismatch op operand.kind)
  | .not, _ => .ok (bool (!operand.truthy))

end Value

end Script
