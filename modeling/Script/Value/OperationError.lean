import Script.Value

namespace Script

inductive OperationError where
  | binaryMismatch (op : BinaryOp) (left right : Kind)
  | unaryMismatch (op : UnaryOp) (operand : Kind)
  | divisionByZero
  | overflow (symbol : String)
  | indexOutOfBounds (index : Int64) (length : Nat)
  | notIndexable (target index : Kind)
  | notIterable (kind : Kind)
  deriving DecidableEq

def OperationError.message : OperationError → String
  | binaryMismatch op left right =>
    "unsupported operand types for `" ++ op.symbol ++ "`: " ++ left.label ++ " and " ++ right.label
  | unaryMismatch op operand =>
    "unary `" ++ op.symbol ++ "` cannot be applied to " ++ operand.label
  | divisionByZero => "division by zero"
  | overflow symbol => "integer overflow in `" ++ symbol ++ "`"
  | indexOutOfBounds index length =>
    "index " ++ toString index.toInt ++ " out of bounds for length " ++ toString length
  | notIndexable target index => "cannot index " ++ target.label ++ " with " ++ index.label
  | notIterable kind => kind.label ++ " is not iterable"

end Script
