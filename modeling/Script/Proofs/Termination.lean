import Script.Proofs.Balance
import Script.Proofs.Everywhere
import Script.Proofs.Settling

namespace Script

/-- Whether a statement is a loop that nothing bounds. -/
def Stmt.isOpenLoop : Stmt → Bool
  | .while .. | .loop .. => true
  | _ => false

/-- Whether a program loops over elements of values only, and calls nothing that might raise the
recursion limit. -/
def Program.isBounded (program : Program) : Bool :=
  Stmt.everyIn (!·.isOpenLoop) (!·.isCallOf "set_recursion_limit") program

abbrev Code.bounded : Code := .every (!·.isOpenLoop) (!·.isCallOf "set_recursion_limit")

theorem Span.one_le_sizeOf (span : Span) : 1 ≤ sizeOf span := by
  cases span
  simp only [mk.sizeOf_spec]
  omega

theorem Expr.sizeOf_lt_of_mem_children {part e : Expr} (h : part ∈ e.children) :
    sizeOf part < sizeOf e := by
  cases e with
  | literal | name => cases h
  | call span function parts =>
    have : sizeOf part < sizeOf parts := List.sizeOf_lt_of_mem h
    simp only [call.sizeOf_spec]
    omega
  | array span parts =>
    have : sizeOf part < sizeOf parts := List.sizeOf_lt_of_mem h
    simp only [array.sizeOf_spec]
    omega
  | _ => grind [children]

theorem Stmt.sizeOf_lt_of_mem_exprs {e : Expr} {s : Stmt} (h : e ∈ s.exprs) :
    sizeOf e < sizeOf s := by
  cases s <;> grind [exprs]

theorem Expr.sizeOf_of_targetWith {e : Expr} {path : List (Expr × Span)} {place : Target}
    (h : e.targetWith path = some place) :
    sizeOf (place.path.map Prod.fst) < sizeOf e + sizeOf (path.map Prod.fst) := by
  fun_induction targetWith path e with
  | case1 path span root =>
    obtain rfl := Option.some.inj h
    simp only [name.sizeOf_spec]
    omega
  | case2 path span owner position ih =>
    have inner := ih h
    simp only [List.map_cons, List.cons.sizeOf_spec, index.sizeOf_spec] at inner ⊢
    omega
  | case3 => cases h

namespace ModuleLog

variable {log marked : ModuleLog} {name : String} {modules : Dictionary String}

/-- How many of the modules have not been asked for. -/
def unloaded (log : ModuleLog) (modules : Dictionary String) : Nat :=
  modules.countP fun entry => !log.isLoaded entry.1

theorem unloaded_of_mark? (h : log.mark? name = some marked) :
    marked.unloaded modules ≤ log.unloaded modules := by
  refine List.countP_mono_left fun entry _ hm => ?_
  rw [isLoaded_of_mark? h] at hm
  simp_all

theorem unloaded_lt_of_mark? (h : log.mark? name = some marked) {text : String}
    (hm : modules.get? name = some text) : marked.unloaded modules < log.unloaded modules := by
  have fresh : log.isLoaded name = false := by simpa [isLoaded] using (mark?_eq_some.mp h).1
  induction modules with
  | nil => cases hm
  | cons entry rest ih =>
    obtain ⟨key, value⟩ := entry
    have rest_le : unloaded marked rest ≤ unloaded log rest := unloaded_of_mark? h
    have head (log : ModuleLog) : unloaded log ((key, value) :: rest) =
        unloaded log rest + if log.isLoaded key then 0 else 1 := by
      cases hl : log.isLoaded key <;> simp [unloaded, hl]
    rw [head marked, head log, isLoaded_of_mark? h]
    by_cases hk : key = name
    · subst hk
      simp only [fresh, BEq.rfl, Bool.or_true, if_true, Bool.false_eq_true, if_false]
      omega
    · have rest_lt := ih (by simpa [Dictionary.get?, hk] using hm)
      have same : (key == name) = false := by simpa using hk
      simp only [same, Bool.or_false]
      omega

end ModuleLog

/-- What bounds the runs of an interpreter: the modules there are, how many of them are still to be
loaded and how many more calls may be made, at most, and whether its input is closed. -/
structure Bounds where
  modules : Dictionary String
  closed : Bool
  unloaded : Nat
  room : Nat

structure Interpreter.Bounded (b : Bounds) (m : Interpreter) : Prop where
  host : m.OffersStandard
  code : m.Holds (!·.isOpenLoop) (!·.isCallOf "set_recursion_limit")
  source : m.source = .table b.modules
  input : m.world.console.closed = b.closed
  unloaded : m.modules.unloaded b.modules ≤ b.unloaded
  room : m.calls.limit - m.calls.depth ≤ b.room

namespace Interpreter.Bounded

variable {b : Bounds} {m : Interpreter}

theorem apply (h : m.Bounded b) {c : Change} (hc : c.KeepsHost)
    (hl : ∀ limit, c ≠ .setLimit limit)
    (hf : ∀ f, c = .define f → Program.isBounded f.body) : (c.apply m).Bounded b where
  host := h.host.apply hc.ne_addBuiltin
  code := h.code.apply (Interpreter.source_apply hc) hf
  source := (Interpreter.source_apply hc).trans h.source
  input := by cases c <;> exact h.input
  unloaded := by
    cases c with
    | mark name =>
      simp only [Change.apply]
      cases hm : m.modules.mark? name with
      | none => exact h.unloaded
      | some marked => exact Nat.le_trans (ModuleLog.unloaded_of_mark? hm) h.unloaded
    | _ => exact h.unloaded
  room := by
    cases c with
    | setLimit limit => exact absurd rfl (hl limit)
    | _ => exact h.room

theorem changed (h : m.Bounded b) {c : Change} (own : c.IsOwn) : (c.apply m).Bounded b := by
  refine h.apply own.keepsHost ?_ ?_
  · rintro limit rfl
    exact own
  · rintro f rfl
    exact own.elim

theorem marked (h : m.Bounded b) {name : String} {log : ModuleLog}
    (hm : m.modules.mark? name = some log) :
    ((Change.mark name).apply m).Bounded { b with unloaded := log.unloaded b.modules } where
  host := h.host.of_eq rfl
  code := h.code.of_eq rfl rfl
  source := h.source
  input := h.input
  unloaded := by simp [Change.apply, hm]
  room := h.room

theorem withConsole (h : m.Bounded b) {console : Console} (hc : console.closed = b.closed) :
    (m.withConsole console).Bounded b :=
  ⟨h.host.of_eq rfl, h.code.of_eq rfl rfl, h.source, hc, h.unloaded, h.room⟩

theorem enterScope (h : m.Bounded b) : m.enterScope.Bounded b :=
  ⟨h.host.of_eq rfl, h.code.of_eq rfl rfl, h.source, h.input, h.unloaded, h.room⟩

theorem leaveScope (h : m.Bounded b) : m.leaveScope.Bounded b :=
  ⟨h.host.of_eq rfl, h.code.of_eq rfl rfl, h.source, h.input, h.unloaded, h.room⟩

theorem enterCall (h : m.Bounded b) (hf : ¬m.calls.isFull) (frame : Frame) :
    ∃ room < b.room, (m.enterCall frame).Bounded { b with room := room } := by
  have free : m.calls.depth < m.calls.limit := by
    simpa [CallStack.isFull, CallStack.depth] using hf
  have left := h.room
  refine ⟨b.room - 1, by omega, h.host.of_eq rfl, h.code.of_eq rfl rfl, h.source, h.input,
    h.unloaded, ?_⟩
  have pushed : (m.enterCall frame).calls.depth = m.calls.depth + 1 := by
    simp [Interpreter.enterCall, CallStack.push, CallStack.depth]
  have same : (m.enterCall frame).calls.limit = m.calls.limit := rfl
  rw [pushed, same]
  change m.calls.limit - (m.calls.depth + 1) ≤ b.room - 1
  omega

theorem leaveCall {room : Nat} (hr : room < b.room) (h : m.Bounded { b with room := room })
    (possible : m.canLeaveCall) : m.leaveCall.Bounded b := by
  refine ⟨h.host.of_eq rfl, h.code.of_eq rfl rfl, h.source, h.input, h.unloaded, ?_⟩
  have called : m.calls.depth ≠ 0 := by
    simp only [canLeaveCall, CallStack.isEmpty, Bool.and_eq_true, Bool.not_eq_true'] at possible
    simpa [CallStack.depth] using possible.2
  have popped : m.leaveCall.calls.depth = m.calls.depth - 1 := by
    simp [Interpreter.leaveCall, CallStack.pop, CallStack.depth]
  have same : m.leaveCall.calls.limit = m.calls.limit := rfl
  have left : m.calls.limit - m.calls.depth ≤ room := h.room
  rw [popped, same]
  omega

theorem enterModule (h : m.Bounded b) (origin : String) : (m.enterModule origin).Bounded b :=
  ⟨h.host.of_eq rfl, h.code.of_eq rfl rfl, h.source, h.input, h.unloaded, h.room⟩

theorem leaveModule {unloaded : Nat} (hu : unloaded < b.unloaded)
    (h : m.Bounded { b with unloaded := unloaded }) (locals : List Scope) (file : String) :
    (m.leaveModule locals file).Bounded b :=
  ⟨h.host.of_eq rfl, h.code.of_eq rfl rfl, h.source, h.input,
    Nat.le_trans h.unloaded (Nat.le_of_lt hu), h.room⟩

end Interpreter.Bounded

namespace Job

variable {α : Type}

/-- How much syntax is left to go through. -/
noncomputable def weight : Job α → Nat
  | evaluate e => sizeOf e
  | evaluateAll es => sizeOf es
  | call .. => 1
  | runBody _ stmts | executeAll _ stmts | runProgram _ stmts => sizeOf stmts
  | execute s => sizeOf s
  | assignTo target _ => sizeOf target + 1
  | callUser .. | perform _ | whileLoop .. | endlessLoop _ | forLoop .. | load _ => 0

/-- Whether a job is one that comes to an end and leaves the bounds as they are. Loops are seen to
where they are started, and so are modules. -/
def IsBounded : Job α → Prop
  | perform action => action.Modest True False
  | callUser _ f _ _ => Program.isBounded f.body
  | whileLoop .. | endlessLoop _ | forLoop .. | load _ => False
  | job => Code.bounded.Admits job

end Job

namespace Plan

variable {α : Type} {b : Bounds} {m : Interpreter} {Q : α → Interpreter → Prop}

theorem settles_ofOperation {span : Span} {result : Except OperationError α}
    (next : ∀ a, Q a m) : (ofOperation span result).Settles b.closed Q m := by
  cases result with
  | ok a => exact settles_pure (next a)
  | error e => exact settles_raise

theorem settles_ofHost {span : Span} {result : Except RuntimeError α} (next : ∀ a, Q a m) :
    (ofHost span result).Settles b.closed Q m := by
  cases result with
  | ok a => exact settles_pure (next a)
  | error e => exact ⟨0, trivial⟩

theorem settles_lookup {name : String} {span : Span} {Q : Value → Interpreter → Prop}
    (next : ∀ x, Q x m) : (lookup name span).Settles b.closed Q m := by
  refine settles_get_bind ?_
  split
  · exact settles_pure (next _)
  · exact settles_raise

theorem settles_overwrite (inv : m.Bounded b) {name : String} {value : Value} {span : Span} :
    (overwrite name value span).Settles b.closed (fun _ m => m.Bounded b) m := by
  refine settles_get_bind ?_
  split
  · exact ⟨0, inv.changed trivial⟩
  · exact settles_raise

theorem settles_store (inv : m.Bounded b) {name : String} {span : Span}
    {path : List (Value × Span)} {value : Value} :
    (store name span path value).Settles b.closed (fun _ m => m.Bounded b) m := by
  refine settles_bind (settles_lookup fun old => ?_)
  split
  · exact settles_overwrite inv
  · exact settles_raise

theorem settles_bindAll {names : List String} {values : List Value} {Q : Unit → Interpreter → Prop}
    (inv : m.Bounded b) (next : ∀ m, m.Bounded b → Q () m) :
    (bindAll names values).Settles b.closed Q m := by
  fun_induction bindAll names values generalizing m with
  | case1 name names value values ih =>
    exact settles_change_bind (ih (inv.changed (c := .declare name value) trivial))
  | case2 => exact settles_pure (next m inv)

theorem settles_perform {action : HostAction} (modest : action.Modest True False)
    (inv : m.Bounded b) :
    (perform action).Settles b.closed (fun _ m => m.Bounded b) m := by
  induction modest generalizing m with
  | ok value => exact settles_pure inv
  | refuse error => exact ⟨0, trivial⟩
  | observe same hn ih => exact settles_get_bind (settles_start (ih m.calls inv))
  | setLimit allowed => exact allowed.elim
  | print text hn ih =>
    have inv := inv.apply (c := .print text) trivial (by simp) (by simp)
    exact settles_change_bind (settles_start (ih inv))
  | readLine hn ih =>
    refine settles_readLine_bind inv.input fun line console hr hl => settles_start ?_
    exact ih line hl (inv.withConsole ((Console.closed_readLine hr).trans inv.input))

end Plan

/-- Whether all jobs of less weight come to an end within bounds. -/
def Bounds.Settle (b : Bounds) (weight : Nat) : Prop :=
  ∀ {α : Type} (j : Job α) (m : Interpreter), j.weight < weight → j.IsBounded → m.Bounded b →
    (Plan.start j).Settles b.closed (fun _ m => m.Bounded b) m

namespace Bounds.Settle

variable {α β : Type} {b : Bounds} {weight : Nat} {m : Interpreter}
  {Q : α → Interpreter → Prop}

theorem start (below : b.Settle weight) (inv : m.Bounded b) {j : Job α} (light : j.weight < weight)
    (code : j.IsBounded) (next : ∀ a m, m.Bounded b → Q a m) :
    (Plan.start j).Settles b.closed Q m :=
  (below j m light code inv).mono next

theorem bind (below : b.Settle weight) (inv : m.Bounded b) {j : Job β} (light : j.weight < weight)
    (code : j.IsBounded) {next : β → Plan α}
    (hn : ∀ x m, m.Bounded b → (next x).Settles b.closed Q m) :
    (Plan.start j >>= next).Settles b.closed Q m :=
  Plan.settles_bind (below.start inv light code hn)

theorem child {e part : Expr} (below : b.Settle (Job.evaluate e).weight) (inv : m.Bounded b)
    (code : Code.bounded.expr e) {next : Value → Plan α}
    (hn : ∀ x m, m.Bounded b → (next x).Settles b.closed Q m)
    (hp : part ∈ e.children := by simp [Expr.children]) :
    (Plan.start (.evaluate part) >>= next).Settles b.closed Q m :=
  below.bind inv (j := .evaluate part) (Expr.sizeOf_lt_of_mem_children hp)
    (Code.bounded.expr_children code hp) hn

theorem evaluate {e : Expr} (below : b.Settle (Job.evaluate e).weight) (inv : m.Bounded b)
    (code : Code.bounded.expr e) :
    (Plan.evaluate e).Settles b.closed (fun _ m => m.Bounded b) m := by
  cases e with
  | literal span value => exact Plan.settles_pure inv
  | name span name => exact Plan.settles_lookup fun _ => inv
  | binary span op left right =>
    refine below.child inv code fun x m inv => ?_
    split
    · exact Plan.settles_pure inv
    · refine below.child inv code fun y m inv => ?_
      exact Plan.settles_ofOperation fun _ => inv
  | unary span op operand =>
    exact below.child inv code fun x m inv => Plan.settles_ofOperation fun _ => inv
  | call span function arguments =>
    refine below.bind inv ?_ ?_ fun values m inv => ?_
    · simp only [Job.weight, Expr.call.sizeOf_spec]
      omega
    · exact fun x hx => Code.bounded.expr_children code hx
    · refine below.start inv ?_ ⟨arguments, code⟩ fun _ _ inv => inv
      have := span.one_le_sizeOf
      simp only [Job.weight, Expr.call.sizeOf_spec]
      omega
  | array span elements =>
    refine below.bind inv ?_ ?_ fun values m inv => Plan.settles_pure inv
    · simp only [Job.weight, Expr.array.sizeOf_spec]
      omega
    · exact fun x hx => Code.bounded.expr_children code hx
  | group span inner =>
    have hp : inner ∈ (Expr.group span inner).children := by simp [Expr.children]
    exact below.start inv (Expr.sizeOf_lt_of_mem_children hp)
      (Code.bounded.expr_children code hp) fun _ _ inv => inv
  | index span target position =>
    refine below.child inv code fun x m inv => ?_
    refine below.child inv code fun y m inv => ?_
    exact Plan.settles_ofOperation fun _ => inv

theorem evaluateAll {es : List Expr} (below : b.Settle (Job.evaluateAll es).weight)
    (inv : m.Bounded b) (code : ∀ e ∈ es, Code.bounded.expr e) :
    (Plan.evaluateAll es).Settles b.closed (fun _ m => m.Bounded b) m := by
  cases es with
  | nil => exact Plan.settles_pure inv
  | cons e rest =>
    refine below.bind inv ?_ ?_ fun x m inv => ?_
    · simp only [Job.weight, List.cons.sizeOf_spec]
      omega
    · exact code e (by simp)
    refine below.bind inv ?_ ?_ fun xs m inv => Plan.settles_pure inv
    · simp only [Job.weight, List.cons.sizeOf_spec]
      omega
    · exact fun e he => code e (by simp [he])

theorem call {name : String} {values : List Value} {span : Span}
    (below : b.Settle (Job.call name values span).weight) (inv : m.Bounded b)
    (code : ∃ arguments, Code.bounded.expr (.call span name arguments)) :
    (Plan.call name values span).Settles b.closed (fun _ m => m.Bounded b) m := by
  refine Plan.settles_get_bind ?_
  split
  · exact Plan.settles_raise
  next f hr =>
    have body : Program.isBounded f.body :=
      inv.code.functions name f (FunctionTable.user_of_resolve hr)
    exact below.start inv (j := .callUser name f values span) Nat.one_pos body fun _ _ inv => inv
  next builtin hr =>
    split
    · exact Plan.settles_raise
    next hu =>
      obtain ⟨arguments, code⟩ := code
      have other : name ≠ "set_recursion_limit" := by
        simpa [Expr.isCallOf] using (Expr.every_iff.mp code).1
      have modest : (builtin.call values).Modest True False :=
        (inv.host.modest_of_resolve hr hu).imp (fun _ => trivial) other
      refine Plan.settles_attempt_bind ?_ fun e m => ⟨0, trivial⟩
      refine (Plan.settles_start (Plan.settles_perform modest inv)).mono fun a m inv => ?_
      exact Plan.settles_ofHost fun _ => inv

theorem first {s : Stmt} {rest : List Stmt} (below : b.Settle (sizeOf (s :: rest)))
    (inv : m.Bounded b) (code : ∀ t ∈ s :: rest, Code.bounded.stmt t) {next : Signal → Plan α}
    (hn : ∀ signal m, m.Bounded b → (next signal).Settles b.closed Q m) :
    (Plan.start (.execute s) >>= next).Settles b.closed Q m := by
  refine below.bind inv (j := .execute s) ?_ (code s (by simp)) hn
  simp only [Job.weight, List.cons.sizeOf_spec]
  omega

theorem further {s : Stmt} {rest : List Stmt} (below : b.Settle (sizeOf (s :: rest)))
    (inv : m.Bounded b) {j : Job α} (hj : j.weight = sizeOf rest) (code : j.IsBounded) :
    (Plan.start j).Settles b.closed (fun _ m => m.Bounded b) m := by
  refine below.start inv ?_ code fun _ _ inv => inv
  simp only [hj, List.cons.sizeOf_spec]
  omega

theorem runBody {function : String} {stmts : List Stmt}
    (below : b.Settle (Job.runBody function stmts).weight) (inv : m.Bounded b)
    (code : ∀ s ∈ stmts, Code.bounded.stmt s) :
    (Plan.runBody function stmts).Settles b.closed (fun _ m => m.Bounded b) m := by
  cases stmts with
  | nil => exact Plan.settles_pure inv
  | cons s rest =>
    refine below.first inv code fun signal m inv => ?_
    cases signal with
    | normal value => exact below.further inv rfl fun t ht => code t (by simp [ht])
    | «return» value => exact Plan.settles_pure inv
    | «break» => exact Plan.settles_raise
    | «continue» => exact Plan.settles_raise

theorem runProgram {last : Option Value} {program : Program}
    (below : b.Settle (Job.runProgram last program).weight) (inv : m.Bounded b)
    (code : ∀ s ∈ program, Code.bounded.stmt s) :
    (Plan.runProgram last program).Settles b.closed (fun _ m => m.Bounded b) m := by
  cases program with
  | nil => exact Plan.settles_pure inv
  | cons s rest =>
    refine below.first inv code fun signal m inv => ?_
    cases signal with
    | normal value => exact below.further inv rfl fun t ht => code t (by simp [ht])
    | «return» value => exact Plan.settles_raise
    | «break» => exact Plan.settles_raise
    | «continue» => exact Plan.settles_raise

theorem executeAll {last : Option Value} {stmts : List Stmt}
    (below : b.Settle (Job.executeAll last stmts).weight) (inv : m.Bounded b)
    (code : ∀ s ∈ stmts, Code.bounded.stmt s) :
    (Plan.executeAll last stmts).Settles b.closed (fun _ m => m.Bounded b) m := by
  cases stmts with
  | nil => exact Plan.settles_pure inv
  | cons s rest =>
    refine below.first inv code fun signal m inv => ?_
    split
    · exact below.further inv rfl fun t ht => code t (by simp [ht])
    · exact Plan.settles_pure inv

theorem assignTo {target : Expr} {value : Value}
    (below : b.Settle (Job.assignTo target value).weight) (inv : m.Bounded b)
    (code : Code.bounded.expr target) :
    (Plan.assignTo target value).Settles b.closed (fun _ m => m.Bounded b) m := by
  unfold Plan.assignTo
  split
  · exact Plan.settles_raise
  next place ht =>
    refine below.bind inv ?_ ?_ fun indices m inv => Plan.settles_store inv
    · have inner := Expr.sizeOf_of_targetWith ht
      simpa [Job.weight] using inner
    · intro e he
      obtain ⟨p, hp, rfl⟩ := List.mem_map.mp he
      exact Code.bounded.targetWith code (by simp) ht p hp

theorem block (below : b.Settle weight) (inv : m.Bounded b) {stmts : List Stmt}
    (light : sizeOf stmts < weight) (code : ∀ s ∈ stmts, Code.bounded.stmt s) :
    (Plan.withScope (Plan.start (.executeAll none stmts))).Settles b.closed
      (fun _ m => m.Bounded b) m := by
  refine Plan.settles_withScope ?_
  exact below.start inv.enterScope (j := .executeAll none stmts) light code
    fun _ _ inv _ => inv.leaveScope

theorem forLoop (below : b.Settle weight) (inv : m.Bounded b) {binding : String}
    {items : List Value} {body : List Stmt} (light : sizeOf body < weight)
    (code : ∀ s ∈ body, Code.bounded.stmt s) :
    (Plan.start (.forLoop binding items body)).Settles b.closed (fun _ m => m.Bounded b) m := by
  induction items generalizing m with
  | nil => exact Plan.settles_start (Plan.settles_pure inv)
  | cons item rest ih =>
    refine Plan.settles_start (Plan.settles_bind (Plan.settles_withScope ?_))
    refine Plan.settles_change_bind ?_
    have bound := inv.enterScope.changed (c := .declare binding item) trivial
    refine below.start bound (j := .executeAll none body) light code fun signal m inv _ => ?_
    unfold Plan.afterBody
    split
    · exact Plan.settles_pure inv.leaveScope
    · exact ih inv.leaveScope

theorem evaluateOr (below : b.Settle weight) (inv : m.Bounded b) {default : Value}
    {e : Option Expr} (light : ∀ x ∈ e.toList, sizeOf x < weight)
    (code : ∀ x ∈ e.toList, Code.bounded.expr x) {Q : Value → Interpreter → Prop}
    (next : ∀ x m, m.Bounded b → Q x m) :
    (Plan.evaluateOr default e).Settles b.closed Q m := by
  cases e with
  | none => exact Plan.settles_pure (next default m inv)
  | some e =>
    exact below.start inv (j := .evaluate e) (light e (by simp)) (code e (by simp)) next

theorem part {s : Stmt} {e : Expr} (below : b.Settle (Job.execute s).weight) (inv : m.Bounded b)
    (code : Code.bounded.stmt s) {next : Value → Plan α}
    (hn : ∀ x m, m.Bounded b → (next x).Settles b.closed Q m)
    (he : e ∈ s.exprs := by simp [Stmt.exprs]) :
    (Plan.start (.evaluate e) >>= next).Settles b.closed Q m :=
  below.bind inv (j := .evaluate e) (Stmt.sizeOf_lt_of_mem_exprs he)
    (Code.bounded.stmt_exprs code he) hn

theorem branch {s : Stmt} {stmts : List Stmt} (below : b.Settle (Job.execute s).weight)
    (inv : m.Bounded b) (code : Code.bounded.stmt s) (light : sizeOf stmts < sizeOf s)
    (hs : ∀ t ∈ stmts, t ∈ s.children := by simp +contextual [Stmt.children]) :
    (Plan.withScope (Plan.start (.executeAll none stmts))).Settles b.closed
      (fun _ m => m.Bounded b) m :=
  below.block inv light fun t ht => Code.bounded.stmt_children code (hs t ht)

/-- Whether loading modules comes to an end within bounds. Nothing is asked where it fails. -/
def Loads (b : Bounds) : Prop :=
  ∀ name m, m.Bounded b →
    (Plan.start (.load name)).Settles b.closed (fun result m => result = .ok () → m.Bounded b) m

theorem execute {s : Stmt} (below : b.Settle (Job.execute s).weight) (loads : Loads b)
    (inv : m.Bounded b) (code : Code.bounded.stmt s) :
    (Plan.execute s).Settles b.closed (fun _ m => m.Bounded b) m := by
  have light {e} (he : e ∈ s.exprs) : sizeOf e < sizeOf s := Stmt.sizeOf_lt_of_mem_exprs he
  have exprs {e} (he : e ∈ s.exprs) : Code.bounded.expr e := Code.bounded.stmt_exprs code he
  cases s with
  | var span name initial =>
    refine Plan.settles_bind (below.evaluateOr inv (fun e => light) (fun e => exprs) ?_)
    exact fun value m inv => ⟨0, inv.changed (c := .declare name value) trivial⟩
  | define span name e =>
    exact below.part inv code fun value m inv =>
      ⟨0, inv.changed (c := .declareGlobal name value) trivial⟩
  | assign span target e =>
    refine below.part inv code (e := e) fun value m inv => ?_
    refine below.bind inv ?_ ?_ fun _ m inv => Plan.settles_pure inv
    · have := span.one_le_sizeOf
      simp only [Job.weight, Stmt.assign.sizeOf_spec]
      omega
    · exact exprs (e := target) (by simp [Stmt.exprs])
  | function span name parameters body =>
    have body : Program.isBounded body :=
      Stmt.everyIn_iff.mpr fun t ht => Code.bounded.function_body code ht
    refine ⟨0, inv.apply (c := .define ⟨name, parameters, _, span⟩) trivial (by simp) ?_⟩
    rintro f ⟨⟩
    exact body
  | «include» span name =>
    refine Plan.settles_bind_of (loads name m inv) fun result m loaded => ?_
    rcases result with (fault | ⟨_, e⟩) | _
    · exact Plan.settles_raise
    · exact ⟨0, trivial⟩
    · exact Plan.settles_pure (loaded rfl)
  | expr span e => exact below.part inv code fun value m inv => Plan.settles_pure inv
  | block span body =>
    exact below.branch inv code (by simp only [Stmt.block.sizeOf_spec]; omega)
  | ifThen span condition body =>
    refine below.part inv code fun value m inv => ?_
    split
    · exact below.branch inv code (by simp only [Stmt.ifThen.sizeOf_spec]; omega)
    · exact Plan.settles_pure inv
  | ifElse span condition body otherwise =>
    refine below.part inv code fun value m inv => ?_
    split
    · exact below.branch inv code (by simp only [Stmt.ifElse.sizeOf_spec]; omega)
    · exact below.branch inv code (by simp only [Stmt.ifElse.sizeOf_spec]; omega)
  | «while» | loop => simp [Code.every, Stmt.every, Stmt.isOpenLoop] at code
  | «for» span binding e body =>
    refine below.part inv code fun value m inv => ?_
    refine Plan.settles_bind (Plan.settles_ofOperation fun items => ?_)
    have light : sizeOf body < (Job.execute (.for span binding e body)).weight := by
      simp only [Job.weight, Stmt.for.sizeOf_spec]
      omega
    refine below.forLoop inv light fun t ht => ?_
    exact Code.bounded.stmt_children code ht
  | «return» span e =>
    refine Plan.settles_bind (below.evaluateOr inv (fun e => light) (fun e => exprs) ?_)
    exact fun value m inv => Plan.settles_pure inv
  | «break» | «continue» => exact Plan.settles_pure inv

end Bounds.Settle

namespace Bounds

variable {b : Bounds} {m : Interpreter}

/-- A call comes to an end if the bodies of functions do that have less room. -/
theorem settles_callUser (bodies : ∀ room < b.room, ∀ weight, Settle { b with room } weight)
    (inv : m.Bounded b) {f : Function} {values : List Value} {span : Span}
    (body : Program.isBounded f.body) :
    (Plan.callUser f values span).Settles b.closed (fun _ m => m.Bounded b) m := by
  unfold Plan.callUser
  split
  · refine Plan.settles_get_bind (Plan.settles_withCall fun hf => ?_)
    obtain ⟨room, less, entered⟩ := inv.enterCall hf ⟨f.name, m.file, span.line⟩
    refine Plan.settles_bind (Plan.settles_bindAll (b := { b with room }) entered fun m inv => ?_)
    refine Settle.start (bodies room less _) inv (j := .runBody f.name f.body)
      (Nat.lt_succ_self _) ?_ ?_
    · exact Stmt.everyIn_iff.mp body
    · exact fun _ m inv possible => Interpreter.Bounded.leaveCall less inv possible
  · exact Plan.settles_raise

/-- A module that is found is one less to be loaded while it runs. -/
theorem settles_load
    (programs : ∀ unloaded < b.unloaded, ∀ weight, Settle { b with unloaded } weight)
    (inv : m.Bounded b) (name : String) :
    (Plan.load name).Settles b.closed (fun result m => result = .ok () → m.Bounded b) m := by
  have unloaded := inv.unloaded
  refine Plan.settles_bind (Plan.settles_get_bind ?_)
  split
  · exact Plan.settles_pure (Plan.settles_pure fun _ => inv)
  next marked hm =>
    refine Plan.settles_change_bind (Plan.settles_pure ?_)
    have inv := inv.marked hm
    refine Plan.settles_bind (Plan.settles_fetch_bind ?_)
    split
    next text hf =>
      have found := ModuleSource.get?_of_fetch (inv.source ▸ hf)
      have less := Nat.lt_of_lt_of_le (ModuleLog.unloaded_lt_of_mark? hm found) unloaded
      refine Plan.settles_pure (Plan.settles_bind ?_)
      unfold Plan.parseModule
      split
      · exact Plan.settles_pure (Plan.settles_pure (by simp))
      next program hp =>
        have code := inv.code.modules name text program hf hp
        have inv := inv.apply (c := .retain program) trivial (by simp) (by simp)
        refine Plan.settles_change_bind (Plan.settles_pure ?_)
        refine Plan.settles_attempt_bind ?_ fun e m => Plan.settles_pure (by simp)
        refine Plan.settles_withModule ?_
        refine Settle.start (programs _ less _) (inv.enterModule text.origin)
          (j := .runProgram none program) (Nat.lt_succ_self _) (Stmt.everyIn_iff.mp code) ?_
        exact fun _ m inv => Plan.settles_pure fun _ => Interpreter.Bounded.leaveModule less inv _ _
    · exact Plan.settles_pure (Plan.settles_pure (by simp))
    · exact Plan.settles_pure (Plan.settles_pure (by simp))
    next path hf =>
      rw [inv.source] at hf
      exact absurd hf (ModuleSource.fetch_table_ne_unread _ name path)

/-- Jobs of every weight come to an end. -/
theorem settle (b : Bounds) (weight : Nat) : b.Settle weight := by
  obtain ⟨modules, closed, unloaded, room⟩ := b
  induction unloaded using Nat.strongRecOn generalizing room weight with
  | ind unloaded programs =>
  induction room using Nat.strongRecOn generalizing weight with
  | ind room bodies =>
  induction weight with
  | zero => exact fun j m light => absurd light (Nat.not_lt_zero _)
  | succ weight below =>
    intro α j m light code inv
    have below : Settle ⟨modules, closed, unloaded, room⟩ j.weight := fun k m lighter =>
      below k m (Nat.lt_of_lt_of_le lighter (Nat.le_of_lt_succ light))
    refine Plan.settles_start ?_
    cases j with
    | evaluate e => exact below.evaluate inv code
    | evaluateAll es => exact below.evaluateAll inv code
    | call name values span => exact below.call inv code
    | callUser name f values span =>
      exact settles_callUser (fun room less weight => bodies room less weight) inv code
    | runBody function stmts => exact below.runBody inv code
    | perform action => exact Plan.settles_perform code inv
    | execute s =>
      refine below.execute ?_ inv code
      refine fun name m inv => Plan.settles_start (settles_load ?_ inv name)
      exact fun unloaded less weight => programs unloaded less weight room
    | executeAll last stmts => exact below.executeAll inv code
    | assignTo target value => exact below.assignTo inv code
    | runProgram last program => exact below.runProgram inv code
    | «whileLoop» | endlessLoop | forLoop | load => exact code.elim

end Bounds

/-- Whether an evaluation has ended with a value or with an error. As long as its input is not
closed, it may also wait for a line. -/
def Outcome.Ended {α : Type} (closed : Bool) : Outcome α → Prop
  | value .. | error .. => True
  | halted reason _ => reason = .awaitsLine ∧ closed = false

theorem Outcome.Settled.ended {α : Type} {closed : Bool} {Q : α → Interpreter → Prop}
    {o : Outcome α} {s : Shape} (h : o.Settled closed Q) (ends : o.EndsIn s) : o.Ended closed := by
  cases o with
  | value a m => trivial
  | error e m => trivial
  | halted reason m => exact h.resolve_left ends

/-- With standard builtins, modules in a table and nothing but loops over elements, the recursion
limit makes every program end, if no code has a call of the name that sets it. More fuel than some
amount changes nothing. -/
theorem runProgram_ended (m : Interpreter) (program : Program) (modules : Dictionary String)
    (host : m.OffersStandard) (source : m.source = .table modules)
    (code : m.Holds (!·.isOpenLoop) (!·.isCallOf "set_recursion_limit"))
    (bounded : Program.isBounded program) :
    ∃ enough, (Run.runProgram enough program m).Ended m.world.console.closed ∧
      ∀ fuel, enough ≤ fuel → Run.runProgram fuel program m = Run.runProgram enough program m := by
  let b : Bounds := ⟨modules, m.world.console.closed, m.modules.unloaded modules,
    m.calls.limit - m.calls.depth⟩
  have inv : m.Bounded b := ⟨host, code, source, rfl, Nat.le_refl _, Nat.le_refl _⟩
  let job : Job Value := .runProgram none program
  obtain ⟨enough, settled⟩ := b.settle (job.weight + 1) job m (Nat.lt_succ_self _)
    (Stmt.everyIn_iff.mp bounded) inv
  have balanced : Contract.balance.Inv m.shape m [] :=
    ⟨rfl, host.offersOnly.imp fun _ => Standard.restores_of_mem⟩
  have ends : (job.run enough m).EndsIn m.shape :=
    Contract.endsIn_of_balance
      (Contract.balance_kept.run enough job ⟨balanced, fun _ _ => trivial⟩)
  exact ⟨enough, settled.ended ends, fun fuel more => job.run_of_le more m settled.not_isCut⟩

/-- The text of a module that includes itself, with a function that calls itself twice. -/
def runawayText : String := "include \"lib\"\nfunc f() \x7b for x in [1, 2] \x7b f() \x7d \x7d"

def Interpreter.withRunaway : Interpreter := { fresh with source := .table [("lib", runawayText)] }

theorem Interpreter.holds_withRunaway :
    withRunaway.Holds (!·.isOpenLoop) (!·.isCallOf "set_recursion_limit") :=
  .of_text rfl rfl (by decide +kernel)

def Program.includingRunaway : Program :=
  [.include ⟨0, 1, 1⟩ "lib", .expr ⟨2, 3, 2⟩ (.call ⟨2, 3, 2⟩ "f" [])]

theorem runProgram_ended_includingRunaway :
    ∃ enough, (Run.runProgram enough .includingRunaway .withRunaway).Ended true := by
  obtain ⟨enough, ended, -⟩ := runProgram_ended .withRunaway .includingRunaway _
    (Interpreter.offersStandard_bare _ _ _) rfl Interpreter.holds_withRunaway rfl
  exact ⟨enough, ended⟩

end Script
