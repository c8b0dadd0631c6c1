import Script.Proofs.Code

namespace Script

mutual

/-- Whether an expression passes a test with all expressions in it. -/
def Expr.every (test : Expr → Bool) : Expr → Bool
  | e@(.literal ..) | e@(.name ..) => test e
  | e@(.binary _ _ left right) => test e && left.every test && right.every test
  | e@(.unary _ _ inner) | e@(.group _ inner) => test e && inner.every test
  | e@(.call _ _ parts) | e@(.array _ parts) => test e && Expr.everyIn test parts
  | e@(.index _ target position) => test e && target.every test && position.every test

def Expr.everyIn (test : Expr → Bool) : List Expr → Bool
  | [] => true
  | e :: rest => e.every test && Expr.everyIn test rest

end

mutual

/-- Whether a statement passes a test with all statements and expressions in it, those of function
bodies included. -/
def Stmt.every (test : Stmt → Bool) (exprs : Expr → Bool) : Stmt → Bool
  | s@(.var _ _ e) | s@(.return _ e) => test s && Expr.everyIn exprs e.toList
  | s@(.define _ _ e) | s@(.expr _ e) => test s && e.every exprs
  | s@(.assign _ target e) => test s && target.every exprs && e.every exprs
  | s@(.include ..) | s@(.break _) | s@(.continue _) => test s
  | s@(.function _ _ _ body) | s@(.block _ body) | s@(.loop _ body) =>
    test s && Stmt.everyIn test exprs body
  | s@(.ifThen _ e body) | s@(.while _ e body) | s@(.for _ _ e body) =>
    test s && e.every exprs && Stmt.everyIn test exprs body
  | s@(.ifElse _ e body otherwise) =>
    test s && e.every exprs && Stmt.everyIn test exprs body && Stmt.everyIn test exprs otherwise

def Stmt.everyIn (test : Stmt → Bool) (exprs : Expr → Bool) : List Stmt → Bool
  | [] => true
  | s :: rest => s.every test exprs && Stmt.everyIn test exprs rest

end

def Expr.isCallOf (name : String) : Expr → Bool
  | .call _ function _ => function = name
  | _ => false

namespace Expr

variable {test : Expr → Bool}

theorem everyIn_iff {es : List Expr} : everyIn test es ↔ ∀ e ∈ es, e.every test := by
  induction es with
  | nil => simp [everyIn]
  | cons e rest ih => simp [everyIn, ih]

theorem every_iff {e : Expr} : e.every test ↔ test e ∧ ∀ c ∈ e.children, c.every test := by
  cases e <;> simp [every, children, everyIn_iff, and_assoc]

end Expr

namespace Stmt

variable {test : Stmt → Bool} {exprs : Expr → Bool}

theorem everyIn_iff {stmts : List Stmt} :
    everyIn test exprs stmts ↔ ∀ s ∈ stmts, s.every test exprs := by
  induction stmts with
  | nil => simp [everyIn]
  | cons s rest ih => simp [everyIn, ih]

/-- The statements of a function's body. -/
def definition : Stmt → List Stmt
  | function _ _ _ body => body
  | _ => []

theorem every_iff {s : Stmt} :
    s.every test exprs ↔ test s ∧ (∀ e ∈ s.exprs, e.every exprs) ∧
      ∀ c ∈ s.children ++ s.definition, c.every test exprs := by
  cases s <;>
    simp [every, children, definition, Stmt.exprs, Expr.everyIn_iff, everyIn_iff, or_imp,
      forall_and, and_assoc]

end Stmt

/-- The code that passes tests on all statements and expressions. -/
def Code.every (test : Stmt → Bool) (exprs : Expr → Bool) : Code where
  expr e := e.every exprs
  stmt s := s.every test exprs
  top s := s.every test exprs
  body s := s.every test exprs
  expr_children h hc := (Expr.every_iff.mp h).2 _ hc
  stmt_exprs h he := (Stmt.every_iff.mp h).2.1 _ he
  stmt_children h hc := (Stmt.every_iff.mp h).2.2 _ (List.mem_append_left _ hc)
  function_body h hs := (Stmt.every_iff.mp h).2.2 _ (List.mem_append_right _ hs)
  top_stmt h := h
  body_stmt h := h

/-- Whether all code that an interpreter may come to run passes tests: the functions of programs,
and the modules that can be found. -/
structure Interpreter.Holds (test : Stmt → Bool) (exprs : Expr → Bool) (m : Interpreter) :
    Prop where
  functions : ∀ name f, m.functions.user.get? name = some f → Stmt.everyIn test exprs f.body
  modules : ∀ name text program, m.source.fetch name = .found text →
    parseProgram text.source = .ok program → Stmt.everyIn test exprs program

namespace Interpreter.Holds

variable {test : Stmt → Bool} {exprs : Expr → Bool} {m m' : Interpreter}

theorem of_eq (h : m.Holds test exprs) (functions : m'.functions.user = m.functions.user)
    (source : m'.source = m.source) : m'.Holds test exprs where
  functions := functions ▸ h.functions
  modules := source ▸ h.modules

theorem apply (h : m.Holds test exprs) {c : Change} (hs : (c.apply m).source = m.source)
    (hf : ∀ f, c = .define f → Stmt.everyIn test exprs f.body) :
    (c.apply m).Holds test exprs where
  functions := by
    intro name g hg
    rcases Change.user_of_apply hg with rfl | hg
    · exact hf g rfl
    · exact h.functions name g hg
  modules := hs ▸ h.modules

theorem of_text {name text : String} (functions : m.functions.user = [])
    (source : m.source = .table [(name, text)])
    (passes : (parseProgram text).toOption.map (Stmt.everyIn test exprs) = some true) :
    m.Holds test exprs where
  functions _ _ h := by
    rw [functions] at h
    cases h
  modules other found program hf hp := by
    rw [source] at hf
    have found := ModuleSource.get?_of_fetch hf
    simp only [Dictionary.get?] at found
    split at found
    · rw [Option.some.inj found, hp] at passes
      exact Option.some.inj passes
    · cases found

end Interpreter.Holds

end Script
