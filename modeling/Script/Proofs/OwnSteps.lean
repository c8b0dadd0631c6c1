import Script.Interpreter.Evaluation

namespace Script

/-- Whether a statement declares a variable in the scope that it is executed in. -/
def Stmt.declares : Stmt → Bool
  | .var .. => true
  | _ => false

namespace Job

variable {α : Type}

/-- The statements that a job executes in the scope that it finds. -/
def statements : Job α → List Stmt
  | .execute s => [s]
  | .executeAll _ stmts | .runBody _ stmts | .runProgram _ stmts => stmts
  | _ => []

/-- The function that a job defines by itself. -/
def definition? : Job α → Option Function
  | .execute (.function span name parameters body) => some ⟨name, parameters, body, span⟩
  | _ => none

def action? : Job α → Option HostAction
  | .perform action => some action
  | _ => none

/-- Whether a job that is no step of a host function may make a change by itself, `inside` of a
scope of its own or not. -/
def MayMake (j : Job α) (inside : Bool) : Change → Prop
  | .declare .. => inside ∨ ∃ s ∈ j.statements, s.declares
  | .define f => j.definition? = some f
  | .declareGlobal .. | .assign .. | .mark _ | .retain _ => True
  | _ => False

end Job

namespace Plan

/-- Whether a plan, which may be carried out `inside` of a scope of its own, makes only such changes
by itself, and elsewhere starts the execution only of some statements. -/
def Makes (change : Bool → Change → Prop) (stmts : List Stmt) : Bool → {α : Type} → Plan α → Prop
  | inside, _, .bind x next =>
    x.Makes change stmts inside ∧ ∀ b, (next b).Makes change stmts inside
  | inside, _, .start j => inside ∨ j.statements ⊆ stmts
  | inside, _, .change c => change inside c
  | inside, _, .attempt x => x.Makes change stmts inside
  | _, _, .withScope x | _, _, .withCall _ _ x | _, _, .withModule _ x => x.Makes change stmts true
  | _, _, _ => True

variable {α β : Type} {change : Bool → Change → Prop} {stmts : List Stmt} {inside : Bool}

theorem makes_bind {x : Plan β} {next : β → Plan α} (hx : x.Makes change stmts inside)
    (hn : ∀ b, (next b).Makes change stmts inside) :
    (x >>= next).Makes change stmts inside := ⟨hx, hn⟩

theorem makes_start {j : Job α} (hj : j.statements = []) :
    (start j).Makes change stmts inside := .inr (by simp [hj])

theorem makes_start_bind {j : Job β} {next : β → Plan α} (hj : j.statements = [])
    (hn : ∀ b, (next b).Makes change stmts inside) :
    (start j >>= next).Makes change stmts inside := makes_bind (makes_start hj) hn

theorem makes_change_bind {c : Change} {next : Unit → Plan α} (hc : change inside c)
    (hn : (next ()).Makes change stmts inside) :
    (Plan.change c >>= next).Makes change stmts inside := makes_bind hc fun _ => hn

theorem makes_get_bind {next : Interpreter → Plan α}
    (hn : ∀ m, (next m).Makes change stmts inside) :
    (get >>= next).Makes change stmts inside := makes_bind trivial hn

theorem makes_raise (cause : Cause) (span : Span) :
    (raise cause span : Plan α).Makes change stmts inside := makes_get_bind fun _ => trivial

theorem makes_ofOperation (span : Span) (result : Except OperationError α) :
    (ofOperation span result).Makes change stmts inside := by
  cases result with
  | ok a => trivial
  | error e => exact makes_raise _ span

theorem makes_ofHost (span : Span) (result : Except RuntimeError α) :
    (ofHost span result).Makes change stmts inside := by
  cases result with
  | ok a => trivial
  | error e => exact makes_get_bind fun _ => trivial

theorem makes_lookup (name : String) (span : Span) :
    (lookup name span).Makes change stmts inside := by
  refine makes_get_bind fun m => ?_
  split
  · trivial
  · exact makes_raise _ span

theorem makes_store (assigns : ∀ name value, change inside (.assign name value)) (name : String)
    (span : Span) (path : List (Value × Span)) (value : Value) :
    (store name span path value).Makes change stmts inside := by
  refine makes_bind (makes_lookup name span) fun old => ?_
  split
  · refine makes_get_bind fun m => ?_
    split
    · exact assigns name _
    · exact makes_raise _ span
  · exact makes_raise _ _

theorem makes_bindAll (declares : ∀ name value, change inside (.declare name value))
    (names : List String) (values : List Value) :
    (bindAll names values).Makes change stmts inside := by
  induction names generalizing values with
  | nil => trivial
  | cons name names ih =>
    cases values with
    | nil => trivial
    | cons value values => exact makes_change_bind (declares name value) (ih values)

theorem makes_evaluateOr (default : Value) (e : Option Expr) :
    (evaluateOr default e).Makes change stmts inside := by
  cases e with
  | none => trivial
  | some e => exact makes_start rfl

theorem makes_afterBody (signal : Signal) {again : Plan Signal}
    (ha : again.Makes change stmts inside) :
    (afterBody signal again).Makes change stmts inside := by
  unfold afterBody
  split
  · trivial
  · exact ha

theorem makes_withScope {x : Plan α} (hx : x.Makes change stmts true) :
    x.withScope.Makes change stmts inside := hx

theorem makes_withCall {frame : Frame} {span : Span} {x : Plan α}
    (hx : x.Makes change stmts true) : (withCall frame span x).Makes change stmts inside := hx

theorem makes_block (j : Job α) : (withScope (start j)).Makes change stmts inside := .inl rfl

theorem makes_evaluate (e : Expr) : (evaluate e).Makes change stmts inside := by
  cases e with
  | literal span value => trivial
  | name span name => exact makes_lookup name span
  | binary span op left right =>
    refine makes_start_bind rfl fun x => ?_
    split
    · trivial
    · exact makes_start_bind rfl fun y => makes_ofOperation span _
  | unary span op operand => exact makes_start_bind rfl fun x => makes_ofOperation span _
  | call span function arguments => exact makes_start_bind rfl fun values => makes_start rfl
  | array span elements => exact makes_start_bind rfl fun values => trivial
  | group span inner => exact makes_start rfl
  | index span target position =>
    exact makes_start_bind rfl fun x => makes_start_bind rfl fun y => makes_ofOperation span _

theorem makes_evaluateAll (es : List Expr) : (evaluateAll es).Makes change stmts inside := by
  cases es with
  | nil => trivial
  | cons e rest =>
    exact makes_start_bind rfl fun value => makes_start_bind rfl fun values => trivial

theorem makes_call (name : String) (values : List Value) (span : Span) :
    (call name values span).Makes change stmts inside := by
  refine makes_get_bind fun m => ?_
  split
  · exact makes_raise _ span
  · exact makes_start rfl
  · split
    · exact makes_raise _ span
    · exact makes_bind (x := attempt _) (makes_start rfl) fun result => makes_ofHost span result

theorem makes_callUser (declares : ∀ name value, change true (.declare name value))
    (f : Function) (values : List Value) (span : Span) :
    (callUser f values span).Makes change stmts inside := by
  unfold callUser
  split
  · refine makes_get_bind fun m => ?_
    refine makes_withCall ?_
    exact makes_bind (makes_bindAll declares _ _) fun _ => .inl rfl
  · exact makes_raise _ span

theorem makes_rest {j : Job α} {s : Stmt} (hs : s :: j.statements ⊆ stmts) :
    (start j).Makes change stmts inside :=
  .inr fun _ ht => hs (List.mem_cons_of_mem s ht)

theorem makes_execute_bind {s : Stmt} {rest : List Stmt} (hs : s :: rest ⊆ stmts)
    {next : Signal → Plan α} (hn : ∀ signal, (next signal).Makes change stmts inside) :
    (start (.execute s) >>= next).Makes change stmts inside := by
  refine makes_bind (.inr fun t ht => hs ?_) hn
  obtain rfl := List.mem_singleton.mp ht
  simp

theorem makes_runBody (function : String) {body : List Stmt} (hb : body ⊆ stmts) :
    (runBody function body).Makes change stmts inside := by
  cases body with
  | nil => trivial
  | cons s rest =>
    refine makes_execute_bind hb fun signal => ?_
    cases signal with
    | normal value => exact makes_rest hb
    | «return» value => trivial
    | «break» => exact makes_raise _ _
    | «continue» => exact makes_raise _ _

theorem makes_executeAll (last : Option Value) {body : List Stmt} (hb : body ⊆ stmts) :
    (executeAll last body).Makes change stmts inside := by
  cases body with
  | nil => trivial
  | cons s rest =>
    refine makes_execute_bind hb fun signal => ?_
    split
    next value => exact makes_rest hb
    next => trivial

theorem makes_runProgram (last : Option Value) {program : Program} (hp : program ⊆ stmts) :
    (runProgram last program).Makes change stmts inside := by
  cases program with
  | nil => trivial
  | cons s rest =>
    refine makes_execute_bind hp fun signal => ?_
    cases signal with
    | normal value => exact makes_rest hp
    | «return» value => exact makes_raise _ _
    | «break» => exact makes_raise _ _
    | «continue» => exact makes_raise _ _

theorem makes_execute (s : Stmt) :
    (execute s).Makes (Job.execute s).MayMake stmts false := by
  cases s with
  | var span name initial =>
    refine makes_bind (makes_evaluateOr _ initial) fun value => makes_change_bind ?_ trivial
    exact .inr ⟨_, List.mem_singleton_self _, rfl⟩
  | define span name e =>
    exact makes_start_bind rfl fun value => makes_change_bind trivial trivial
  | assign span target e =>
    exact makes_start_bind rfl fun value => makes_start_bind rfl fun _ => trivial
  | function span name parameters body => exact makes_change_bind rfl trivial
  | «include» span name =>
    refine makes_start_bind rfl fun result => ?_
    rcases result with (fault | ⟨_, e⟩) | _
    · exact makes_raise _ span
    · trivial
    · trivial
  | expr span e => exact makes_start_bind rfl fun value => trivial
  | block span body => exact makes_block _
  | ifThen span condition body =>
    refine makes_start_bind rfl fun value => ?_
    split
    · exact makes_block _
    · trivial
  | ifElse span condition body otherwise =>
    refine makes_start_bind rfl fun value => ?_
    split
    · exact makes_block _
    · exact makes_block _
  | «while» span condition body => exact makes_start rfl
  | loop span body => exact makes_start rfl
  | «for» span binding e body =>
    refine makes_start_bind rfl fun value => ?_
    exact makes_bind (makes_ofOperation _ _) fun items => makes_start rfl
  | «return» span e => exact makes_bind (makes_evaluateOr _ e) fun value => trivial
  | «break» | «continue» => trivial

theorem makes_load (name : String) : (load name).Makes (Job.load name).MayMake [] false := by
  refine makes_bind (makes_get_bind fun m => ?_) fun unloaded => ?_
  · split
    · trivial
    · exact makes_change_bind trivial trivial
  split
  · refine makes_bind (makes_bind trivial fun result => ?_) fun result => ?_
    · cases result <;> trivial
    · split
      · trivial
      next text =>
        refine makes_bind ?_ fun result => ?_
        · unfold parseModule
          split
          · trivial
          · exact makes_change_bind trivial trivial
        · split
          · trivial
          next program =>
            refine makes_bind (x := attempt _) (.inl rfl) fun result => ?_
            split <;> trivial
  · trivial

end Plan

theorem Job.makes {α : Type} {j : Job α} (hj : j.action? = none) :
    j.plan.Makes j.MayMake j.statements false := by
  have inside {α : Type} {j : Job α} (name : String) (value : Value) :
      j.MayMake true (.declare name value) := .inl rfl
  cases j with
  | evaluate e => exact Plan.makes_evaluate e
  | evaluateAll es => exact Plan.makes_evaluateAll es
  | call name values span => exact Plan.makes_call name values span
  | callUser name f values span => exact Plan.makes_callUser inside f values span
  | runBody function stmts => exact Plan.makes_runBody function (List.Subset.refl _)
  | perform action => cases hj
  | execute s => exact Plan.makes_execute s
  | executeAll last stmts => exact Plan.makes_executeAll last (List.Subset.refl _)
  | whileLoop condition body =>
    refine Plan.makes_start_bind rfl fun value => ?_
    split
    · exact Plan.makes_bind (Plan.makes_block _) fun signal =>
        Plan.makes_afterBody signal (Plan.makes_start rfl)
    · trivial
  | endlessLoop body =>
    exact Plan.makes_bind (Plan.makes_block _) fun signal =>
      Plan.makes_afterBody signal (Plan.makes_start rfl)
  | forLoop binding items body =>
    cases items with
    | nil => trivial
    | cons item rest =>
      refine Plan.makes_bind (Plan.makes_withScope ?_) fun signal =>
        Plan.makes_afterBody signal (Plan.makes_start rfl)
      exact Plan.makes_change_bind (inside _ item) (.inl rfl)
  | assignTo target value =>
    simp only [Job.plan, Plan.assignTo]
    split
    · exact Plan.makes_raise _ _
    · exact Plan.makes_start_bind rfl fun indices => Plan.makes_store (fun _ _ => trivial) _ _ _ _
  | runProgram last program => exact Plan.makes_runProgram last (List.Subset.refl _)
  | load name => exact Plan.makes_load name

end Script
