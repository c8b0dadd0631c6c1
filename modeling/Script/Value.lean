import Script.Number.Int64
import Script.Program

namespace Script

/-- The values that programs compute with. -/
inductive Value where
  | null
  | bool (value : Bool)
  | int (value : Int64)
  | float (value : Float)
  | string (value : String)
  | array (elements : List Value)
  deriving Inhabited

inductive Kind where
  | null | bool | int | float | string | array
  deriving DecidableEq, Repr

def Kind.label : Kind → String
  | null => "Null"
  | bool => "Bool"
  | int => "Int"
  | float => "Float"
  | string => "String"
  | array => "Array"

def Literal.value : Literal → Value
  | null => .null
  | bool b => .bool b
  | int n => .int n
  | float x => .float x
  | string s => .string s

namespace Value

def kind : Value → Kind
  | null => .null
  | bool _ => .bool
  | int _ => .int
  | float _ => .float
  | string _ => .string
  | array _ => .array

def isNull : Value → Bool
  | null => true
  | _ => false

def int? : Value → Option Int64
  | int n => some n
  | _ => none

def string? : Value → Option String
  | string s => some s
  | _ => none

def array? : Value → Option (List Value)
  | array vs => some vs
  | _ => none

/-- The number as a double; an integer becomes the double next to it. -/
def number? : Value → Option Float
  | int n => some (floatOfInt64 n)
  | float x => some x
  | _ => none

/-- Zero, the empty string, the empty array, `false` and `null` do not hold. -/
def truthy : Value → Bool
  | null => false
  | bool b => b
  | int n => n != 0
  | float x => x != 0.0
  | string s => s != ""
  | array vs => !vs.isEmpty

mutual

/-- Numbers are equal across the two kinds of numbers, arrays element by element. -/
def equal : Value → Value → Bool
  | null, null => true
  | bool a, bool b => a == b
  | string a, string b => a == b
  | array as, array bs => equalAll as bs
  | int a, int b => a == b
  | int a, float b => floatOfInt64 a == b
  | float a, int b => a == floatOfInt64 b
  | float a, float b => a == b
  | _, _ => false

def equalAll : List Value → List Value → Bool
  | [], [] => true
  | a :: as, b :: bs => a.equal b && equalAll as bs
  | _, _ => false

end

def ofChar (c : Char) : Value := string (String.singleton c)

end Value

end Script
