import Script.Interpreter.Evaluation

namespace Script

def Expr.children : Expr → List Expr
  | .literal .. | .name .. => []
  | .binary _ _ left right => [left, right]
  | .unary _ _ operand => [operand]
  | .call _ _ arguments => arguments
  | .array _ elements => elements
  | .group _ inner => [inner]
  | .index _ target position => [target, position]

namespace Stmt

def exprs : Stmt → List Expr
  | var _ _ initial => initial.toList
  | define _ _ value => [value]
  | assign _ target value => [target, value]
  | expr _ value => [value]
  | ifThen _ condition _ | ifElse _ condition _ _ | .while _ condition _ => [condition]
  | .for _ _ iterable _ => [iterable]
  | .return _ value => value.toList
  | _ => []

/-- The statements directly inside a statement, those of a function's body apart. -/
def children : Stmt → List Stmt
  | block _ body | ifThen _ _ body | .while _ _ body | loop _ body | .for _ _ _ body => body
  | ifElse _ _ body otherwise => body ++ otherwise
  | _ => []

mutual

/-- Whether a statement holds a jump that may leave it: a `return` anywhere outside of inner
functions, a `break` or `continue` also outside of inner loops. -/
def jumps (jump : Jump) : Stmt → Bool
  | .return .. => jump = .return
  | .break _ => jump = .break
  | .continue _ => jump = .continue
  | block _ body | ifThen _ _ body => anyJumps jump body
  | ifElse _ _ body otherwise => anyJumps jump body || anyJumps jump otherwise
  | .while _ _ body | loop _ body | .for _ _ _ body => jump = .return && anyJumps jump body
  | _ => false

def anyJumps (jump : Jump) : List Stmt → Bool
  | [] => false
  | stmt :: rest => stmt.jumps jump || anyJumps jump rest

end

end Stmt

/-- Whether a signal is normal or comes from one of the given jumps. -/
def Signal.From (jumps : Jump → Bool) : Signal → Prop
  | normal _ => True
  | .return _ => jumps .return
  | .break => jumps .break
  | .continue => jumps .continue

theorem Signal.From.mono {p q : Jump → Bool} (h : ∀ jump, p jump → q jump) {signal : Signal}
    (hs : signal.From p) : signal.From q := by
  cases signal with
  | normal v => trivial
  | «return» v => exact h _ hs
  | «break» => exact h _ hs
  | «continue» => exact h _ hs

theorem Signal.From.head {s : Stmt} {rest : List Stmt} {signal : Signal}
    (h : signal.From (s.jumps ·)) : signal.From (Stmt.anyJumps · (s :: rest)) :=
  h.mono fun jump hj => by simp [Stmt.anyJumps, hj]

theorem Signal.From.tail {s : Stmt} {rest : List Stmt} {signal : Signal}
    (h : signal.From (Stmt.anyJumps · rest)) : signal.From (Stmt.anyJumps · (s :: rest)) :=
  h.mono fun jump hj => by simp [Stmt.anyJumps, hj]

/-- The jumps by which a loop with this body may end. -/
def Stmt.loopJumps (body : List Stmt) (jump : Jump) : Bool :=
  jump = .return && anyJumps jump body

theorem Signal.From.leavesLoop {body : List Stmt} {signal next : Signal}
    (h : signal.From (Stmt.anyJumps · body)) (hl : signal.leavesLoop? = some next) :
    next.From (Stmt.loopJumps body) := by
  cases signal with
  | normal v => simp [Signal.leavesLoop?] at hl
  | «return» v =>
    obtain rfl := Option.some.inj hl
    simpa [Signal.From, Stmt.loopJumps] using h
  | «break» =>
    obtain rfl := Option.some.inj hl
    trivial
  | «continue» => simp [Signal.leavesLoop?] at hl

/-- The parts of programs that may be run, as conditions that hold of whatever is inside. -/
structure Code where
  expr : Expr → Prop
  stmt : Stmt → Prop
  /-- Of the statements of programs and modules. -/
  top : Stmt → Prop
  /-- Of the statements of function bodies. -/
  body : Stmt → Prop
  expr_children : ∀ {e child}, expr e → child ∈ e.children → expr child
  stmt_exprs : ∀ {s e}, stmt s → e ∈ s.exprs → expr e
  stmt_children : ∀ {s child}, stmt s → child ∈ s.children → stmt child
  function_body : ∀ {span name parameters stmts s},
    stmt (.function span name parameters stmts) → s ∈ stmts → body s
  top_stmt : ∀ {s}, top s → stmt s
  body_stmt : ∀ {s}, body s → stmt s

namespace Code

def all : Code where
  expr _ := True
  stmt _ := True
  top _ := True
  body _ := True
  expr_children _ _ := trivial
  stmt_exprs _ _ := trivial
  stmt_children _ _ := trivial
  function_body _ _ := trivial
  top_stmt _ := trivial
  body_stmt _ := trivial

variable (c : Code)

/-- Whether all code that a job holds may be run. -/
def Admits {α : Type} : Job α → Prop
  | .evaluate e => c.expr e
  | .evaluateAll es => ∀ e ∈ es, c.expr e
  | .call name _ span => ∃ arguments, c.expr (.call span name arguments)
  | .callUser name _ _ span => ∃ arguments, c.expr (.call span name arguments)
  | .runBody _ stmts => ∀ s ∈ stmts, c.body s
  | .execute stmt => c.stmt stmt
  | .executeAll _ stmts => ∀ s ∈ stmts, c.stmt s
  | .whileLoop condition body => c.expr condition ∧ ∀ s ∈ body, c.stmt s
  | .endlessLoop body => ∀ s ∈ body, c.stmt s
  | .forLoop _ _ body => ∀ s ∈ body, c.stmt s
  | .assignTo target _ => c.expr target
  | .runProgram _ program => ∀ s ∈ program, c.top s
  | .perform _ | .load _ => True

theorem all_admits {α : Type} (j : Job α) : all.Admits j := by
  cases j with
  | call | callUser => exact ⟨[], trivial⟩
  | whileLoop => exact ⟨trivial, fun _ _ => trivial⟩
  | evaluateAll | runBody | executeAll | endlessLoop | forLoop | runProgram =>
    exact fun _ _ => trivial
  | _ => trivial

theorem targetWith {e : Expr} {path : List (Expr × Span)} {place : Target} (he : c.expr e)
    (hp : ∀ p ∈ path, c.expr p.1) (ht : e.targetWith path = some place) :
    ∀ p ∈ place.path, c.expr p.1 := by
  fun_induction Expr.targetWith path e with
  | case1 =>
    obtain rfl := Option.some.inj ht
    exact hp
  | case2 path span owner position ih =>
    refine ih (c.expr_children he (by simp [Expr.children])) ?_ ht
    intro p hm
    rcases List.mem_cons.mp hm with rfl | hm
    · exact c.expr_children he (by simp [Expr.children])
    · exact hp p hm
  | case3 => simp at ht

theorem exists_root {e : Expr} {path : List (Expr × Span)} {place : Target} (he : c.expr e)
    (ht : e.targetWith path = some place) : ∃ span, c.expr (.name span place.name) := by
  fun_induction Expr.targetWith path e with
  | case1 path span root =>
    obtain rfl := Option.some.inj ht
    exact ⟨span, he⟩
  | case2 path span owner position ih => exact ih (c.expr_children he (by simp [Expr.children])) ht
  | case3 => simp at ht

end Code

end Script
