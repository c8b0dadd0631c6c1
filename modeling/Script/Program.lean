import Script.Span

namespace Script

inductive Literal where
  | null
  | bool (value : Bool)
  | int (value : Int64)
  | float (value : Float)
  | string (value : String)

inductive BinaryOp where
  | add | sub | mul | div | mod
  | equal | notEqual
  | less | lessEqual | greater | greaterEqual
  | and | or
  deriving DecidableEq, Repr

inductive UnaryOp where
  | negate | not
  deriving DecidableEq, Repr

namespace BinaryOp

def symbol : BinaryOp → String
  | add => "+"
  | sub => "-"
  | mul => "*"
  | div => "/"
  | mod => "%"
  | equal => "=="
  | notEqual => "!="
  | less => "<"
  | lessEqual => "<="
  | greater => ">"
  | greaterEqual => ">="
  | and => "&&"
  | or => "||"

/-- How tightly an operator binds; the loosest has level zero. -/
def level : BinaryOp → Nat
  | or => 0
  | and => 1
  | equal | notEqual => 2
  | less | lessEqual | greater | greaterEqual => 3
  | add | sub => 4
  | mul | div | mod => 5

end BinaryOp

/-- Unary and suffix expressions bind more tightly than the operators of every level below this. -/
def unaryLevel : Nat := 6

def UnaryOp.symbol : UnaryOp → String
  | negate => "-"
  | not => "!"

inductive Expr where
  | literal (span : Span) (value : Literal)
  | name (span : Span) (name : String)
  | binary (span : Span) (op : BinaryOp) (left right : Expr)
  | unary (span : Span) (op : UnaryOp) (operand : Expr)
  | call (span : Span) (function : String) (arguments : List Expr)
  | array (span : Span) (elements : List Expr)
  | group (span : Span) (inner : Expr)
  | index (span : Span) (target index : Expr)

def Expr.span : Expr → Span
  | .literal s _ | .name s _ | .binary s _ _ _ | .unary s _ _ | .call s _ _ | .array s _
  | .group s _ | .index s _ _ => s

/-- A `function` statement's span is also its definition's. -/
inductive Stmt where
  | var (span : Span) (name : String) (initial : Option Expr)
  | define (span : Span) (name : String) (value : Expr)
  | assign (span : Span) (target value : Expr)
  | function (span : Span) (name : String) (parameters : List String) (body : List Stmt)
  | include (span : Span) (module : String)
  | expr (span : Span) (value : Expr)
  | block (span : Span) (body : List Stmt)
  | ifThen (span : Span) (condition : Expr) (body : List Stmt)
  | ifElse (span : Span) (condition : Expr) (body otherwise : List Stmt)
  | while (span : Span) (condition : Expr) (body : List Stmt)
  | loop (span : Span) (body : List Stmt)
  | for (span : Span) (binding : String) (iterable : Expr) (body : List Stmt)
  | return (span : Span) (value : Option Expr)
  | break (span : Span)
  | continue (span : Span)

def Stmt.span : Stmt → Span
  | .var s _ _ | .define s _ _ | .assign s _ _ | .function s _ _ _ | .include s _ | .expr s _
  | .block s _ | .ifThen s _ _ | .ifElse s _ _ _ | .while s _ _ | .loop s _ | .for s _ _ _
  | .return s _ | .break s | .continue s => s

/-- A user function as it is kept once its definition has been executed. -/
structure Function where
  name : String
  parameters : List String
  body : List Stmt
  span : Span

abbrev Program := List Stmt

end Script
