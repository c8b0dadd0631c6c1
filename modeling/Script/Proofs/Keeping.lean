import Script.Proofs.Contract

namespace Script

namespace Contract

variable {C : Contract} {job : Recorder} {i : C.Ghost} {m : Interpreter} {h : History}
variable {α β : Type}

theorem pre_of_isPlain {j : Job α} (plain : j.IsPlain) (inv : C.Inv i m h)
    (code : (C.code i).Admits j) : C.Pre i j m h := by
  cases j
  case perform | callUser | load => exact plain.elim
  all_goals exact ⟨inv, code⟩

theorem pre_of_isRun {j : Job α} (run : j.IsRun) (inv : C.Inv i m h) (code : (C.code i).Admits j) :
    C.Pre i j m h := by
  cases j
  case perform | callUser => exact run.elim
  all_goals exact ⟨inv, code⟩

theorem exists_inv_of_pre {j : Job α} (pre : C.Pre i j m h) : ∃ k, C.Inv k m h := by
  cases j
  case perform action =>
    obtain ⟨k, -, inv⟩ := pre
    exact ⟨k, inv⟩
  all_goals exact ⟨i, pre.1⟩

theorem post_of_isPlain {j : Job α} (plain : j.IsPlain) : C.post i j = C.gives i j.Yields := by
  cases j
  case perform | callUser | load => exact plain.elim
  all_goals rfl

theorem Meets.start (meets : C.Meets job) {j : Job α} (inv : C.Inv i m h)
    (code : (C.code i).Admits j) {Q : α → Interpreter → History → Prop}
    (next : ∀ a m h, j.Yields a → C.Inv i m h → Q a m h) (plain : j.IsPlain := by trivial) :
    (Plan.start j).Ensures job ⟨Q, C.Fail i, C.Stop⟩ m h := by
  refine (meets i j m h (pre_of_isPlain plain inv code)).mono ?_ ?_ ?_ <;>
    rw [post_of_isPlain plain]
  · exact fun a m h hq => next a m h hq.1 hq.2
  · exact fun _ _ _ hf => hf
  · exact fun _ _ hs => hs

theorem Meets.bind (meets : C.Meets job) {j : Job β} (inv : C.Inv i m h)
    (code : (C.code i).Admits j) {next : β → Plan α} {Q : α → Interpreter → History → Prop}
    (hn : ∀ b m h, j.Yields b → C.Inv i m h →
      (next b).Ensures job ⟨Q, C.Fail i, C.Stop⟩ m h) (plain : j.IsPlain := by trivial) :
    (Plan.start j >>= next).Ensures job ⟨Q, C.Fail i, C.Stop⟩ m h :=
  Plan.ensures_bind (meets.start inv code hn plain)

theorem Kept.raise (K : C.Kept) (inv : C.Inv i m h) (cause : Cause) (span : Span)
    {Q : α → Interpreter → History → Prop} (own : cause.IsOwn := by trivial) :
    (Plan.raise cause span).Ensures job ⟨Q, C.Fail i, C.Stop⟩ m h :=
  Plan.ensures_get_bind (K.thrown span (K.raises own) inv)

theorem Kept.ofOperation (K : C.Kept) (inv : C.Inv i m h) (span : Span)
    (result : Except OperationError α) {Q : α → Interpreter → History → Prop}
    (next : ∀ a, Q a m h) :
    (Plan.ofOperation span result).Ensures job ⟨Q, C.Fail i, C.Stop⟩ m h := by
  cases result with
  | ok a => exact next a
  | error e => exact K.raise inv _ span

theorem Kept.ofHost (K : C.Kept) (span : Span) (result : Except RuntimeError α)
    (hr : match result with
      | .ok _ => C.Inv i m h
      | .error e => C.HostFail i e m h) :
    (Plan.ofHost span result).Ensures job (C.gives i fun _ => True) m h := by
  cases result with
  | ok a => exact ⟨trivial, hr⟩
  | error e => exact Plan.ensures_get_bind (K.located span hr)

theorem Kept.lookup (K : C.Kept) (inv : C.Inv i m h) (name : String) (span : Span)
    {Q : Value → Interpreter → History → Prop} (next : ∀ x, Q x m h) :
    (Plan.lookup name span).Ensures job ⟨Q, C.Fail i, C.Stop⟩ m h := by
  refine Plan.ensures_get_bind ?_
  split
  · exact next _
  · exact K.raise inv _ span

theorem Kept.overwrite (K : C.Kept) (inv : C.Inv i m h) (name : String) (value : Value)
    (span : Span) :
    (Plan.overwrite name value span).Ensures job (C.gives i fun _ => True) m h := by
  refine Plan.ensures_get_bind ?_
  split
  · exact ⟨trivial, K.changed trivial inv⟩
  · exact K.raise inv _ span

theorem Kept.store (K : C.Kept) (inv : C.Inv i m h) (name : String) (span : Span)
    (path : List (Value × Span)) (value : Value) :
    (Plan.store name span path value).Ensures job (C.gives i fun _ => True) m h := by
  refine Plan.ensures_bind (K.lookup inv name span fun old => ?_)
  split
  · exact K.overwrite inv name _ span
  · exact K.raise inv _ _

theorem Kept.bindAll (K : C.Kept) (names : List String) (values : List Value)
    {Q : Unit → Interpreter → History → Prop} (next : ∀ m h, C.Inv i m h → Q () m h)
    (inv : C.Inv i m h) :
    (Plan.bindAll names values).Ensures job ⟨Q, C.Fail i, C.Stop⟩ m h := by
  fun_induction Plan.bindAll names values generalizing m h with
  | case1 name names value values ih =>
    exact Plan.ensures_change_bind (ih (K.changed trivial inv))
  | case2 => exact next m h inv

theorem Closes.ensures {inner outer : C.Ghost} {possible : Interpreter → Bool}
    {undo : Interpreter → Interpreter} {events : History}
    (closes : C.Closes inner outer possible undo events) {body : Plan α} {P : α → Prop}
    {Q : α → Interpreter → History → Prop} (next : ∀ a m h, P a → C.Inv outer m h → Q a m h)
    (hb : body.Ensures job (C.gives inner P) m h) :
    body.Ensures job (Plan.closing ⟨Q, C.Fail outer, C.Stop⟩ possible undo events) m h := by
  refine hb.mono ?_ ?_ fun _ _ hs => hs
  · intro a m h ⟨hp, inv⟩
    simp only [Plan.closing]
    split
    next hm => exact next a _ _ hp (closes.value m h inv hm)
    next hm => exact (closes.possible_of_inv m h inv).resolve_left hm
  · intro e m h hf
    simp only [Plan.closing]
    split
    next hm => exact closes.error e m h hf hm
    next hm => exact (closes.possible_of_fail e m h hf).resolve_left hm

theorem Kept.withScope (K : C.Kept) (inv : C.Inv i m h) {body : Plan α} {P : α → Prop}
    {Q : α → Interpreter → History → Prop} (next : ∀ a m h, P a → C.Inv i m h → Q a m h)
    (hb : ∀ k, C.code k = C.code i → C.Inv k m.enterScope h →
      body.Ensures job (C.gives k P) m.enterScope h) :
    (Plan.withScope body).Ensures job ⟨Q, C.Fail i, C.Stop⟩ m h := by
  obtain ⟨k, code, entered, closes⟩ := K.scope inv
  exact Plan.ensures_withScope (closes.ensures next (hb k code entered))

theorem Kept.block (K : C.Kept) (meets : C.Meets job) (inv : C.Inv i m h) {stmts : List Stmt}
    (code : ∀ s ∈ stmts, (C.code i).stmt s) {Q : Signal → Interpreter → History → Prop}
    (next : ∀ signal m h, signal.From (Stmt.anyJumps · stmts) → C.Inv i m h → Q signal m h) :
    (Plan.withScope (Plan.start (.executeAll none stmts))).Ensures job
      ⟨Q, C.Fail i, C.Stop⟩ m h := by
  refine K.withScope inv next fun k hk entered => ?_
  exact meets.start entered (hk ▸ code) fun _ _ _ hs inv => ⟨hs, inv⟩

theorem Kept.afterBody {signal : Signal} {body : List Stmt} {again : Plan Signal}
    (hs : signal.From (Stmt.anyJumps · body)) (inv : C.Inv i m h)
    (ha : again.Ensures job (C.gives i (Signal.From (Stmt.loopJumps body))) m h) :
    (Plan.afterBody signal again).Ensures job
      (C.gives i (Signal.From (Stmt.loopJumps body))) m h := by
  unfold Plan.afterBody
  split
  · exact ⟨hs.leavesLoop ‹_›, inv⟩
  · exact ha

theorem Kept.evaluate (K : C.Kept) (meets : C.Meets job) (inv : C.Inv i m h) {e : Expr}
    (code : (C.code i).expr e) :
    (Plan.evaluate e).Ensures job (C.gives i fun _ => True) m h := by
  have child {x} (hx : x ∈ e.children) := (C.code i).expr_children code hx
  cases e with
  | literal span value => exact ⟨trivial, inv⟩
  | name span name => exact K.lookup inv name span fun _ => ⟨trivial, inv⟩
  | binary span op left right =>
    refine meets.bind inv ?_ fun x m h _ inv => ?_
    · exact child (x := left) (by simp [Expr.children])
    split
    · exact ⟨trivial, inv⟩
    · refine meets.bind inv ?_ fun y m h _ inv => ?_
      · exact child (x := right) (by simp [Expr.children])
      exact K.ofOperation inv span _ fun _ => ⟨trivial, inv⟩
  | unary span op operand =>
    refine meets.bind inv ?_ fun x m h _ inv => ?_
    · exact child (x := operand) (by simp [Expr.children])
    exact K.ofOperation inv span _ fun _ => ⟨trivial, inv⟩
  | call span function arguments =>
    refine meets.bind inv ?_ fun values m h _ inv => ?_
    · exact fun x hx => child hx
    refine meets.start inv ?_ fun _ _ _ hy inv => ⟨hy, inv⟩
    exact ⟨arguments, code⟩
  | array span elements =>
    refine meets.bind inv ?_ fun values m h _ inv => ⟨trivial, inv⟩
    exact fun x hx => child hx
  | group span inner =>
    refine meets.start inv ?_ fun _ _ _ hy inv => ⟨hy, inv⟩
    exact child (x := inner) (by simp [Expr.children])
  | index span target position =>
    refine meets.bind inv ?_ fun x m h _ inv => ?_
    · exact child (x := target) (by simp [Expr.children])
    refine meets.bind inv ?_ fun y m h _ inv => ?_
    · exact child (x := position) (by simp [Expr.children])
    exact K.ofOperation inv span _ fun _ => ⟨trivial, inv⟩

theorem Meets.evaluateAll (meets : C.Meets job) (inv : C.Inv i m h) {es : List Expr}
    (code : ∀ e ∈ es, (C.code i).expr e) :
    (Plan.evaluateAll es).Ensures job (C.gives i fun _ => True) m h := by
  cases es with
  | nil => exact ⟨trivial, inv⟩
  | cons e rest =>
    refine meets.bind inv ?_ fun x m h _ inv => ?_
    · exact code e (by simp)
    refine meets.bind inv ?_ fun xs m h _ inv => ⟨trivial, inv⟩
    exact fun e he => code e (by simp [he])

theorem Kept.callJob (K : C.Kept) (meets : C.Meets job) (inv : C.Inv i m h) {name : String}
    {values : List Value} {span : Span}
    (code : ∃ arguments, (C.code i).expr (.call span name arguments)) :
    (Plan.call name values span).Ensures job (C.gives i fun _ => True) m h := by
  refine Plan.ensures_get_bind ?_
  split
  next => exact K.raise inv _ span
  next function hr =>
    refine (meets i (.callUser name function values span) m h ⟨inv, code, hr⟩).mono ?_ ?_ ?_
    · exact fun _ _ _ hq => hq
    · exact fun _ _ _ hf => hf
    · exact fun _ _ hs => hs
  next builtin hr =>
    split
    · exact K.raise inv _ span
    next hu =>
      obtain ⟨arguments, code⟩ := code
      have pre : C.Pre i (.perform (builtin.call values)) m h :=
        ⟨i, K.builtin inv code hr hu, inv⟩
      refine Plan.ensures_attempt_bind ?_
      refine (meets i (.perform (builtin.call values)) m h pre).mono ?_ ?_ fun _ _ hs => hs
      · intro a m h inv
        dsimp only
        exact K.ofHost span (.ok a) inv
      · intro e m h hf
        dsimp only
        exact K.ofHost span (.error e) hf

theorem Kept.callUser (K : C.Kept) (meets : C.Meets job) {name : String} {function : Function}
    {values : List Value} {span : Span}
    (pre : C.Pre i (.callUser name function values span) m h) :
    (Plan.callUser function values span).Ensures job (C.gives i fun _ => True) m
      (h ++ [.started (.callUser name function values span) m.calls]) := by
  obtain ⟨inv, ⟨arguments, code⟩, hr⟩ := pre
  have started := K.started (.callUser name function values span) trivial inv
  unfold Plan.callUser
  split
  · refine Plan.ensures_get_bind (Plan.ensures_withCall ?_ fun hf => ?_)
    · exact fun hf => K.overflowed span started hf
    · obtain ⟨k, body, entered, closes⟩ := K.call values inv code hr hf
      rw [List.append_assoc]
      refine closes.ensures (P := fun _ => True) (fun _ _ _ hp inv => ⟨hp, inv⟩) ?_
      refine Plan.ensures_bind (K.bindAll _ _ (fun m h inv => ?_) entered)
      refine meets.start inv ?_ fun _ _ _ _ inv => ⟨trivial, inv⟩
      exact body
  · exact K.raise started _ span

theorem Kept.runBody (K : C.Kept) (meets : C.Meets job) (inv : C.Inv i m h) {function : String}
    {stmts : List Stmt} (code : ∀ s ∈ stmts, (C.code i).body s) :
    (Plan.runBody function stmts).Ensures job (C.gives i fun _ => True) m h := by
  cases stmts with
  | nil => exact ⟨trivial, inv⟩
  | cons s rest =>
    have body := code s (by simp)
    refine meets.bind inv ?_ fun signal m h hs inv => ?_
    · exact (C.code i).body_stmt body
    cases signal with
    | normal value =>
      refine meets.start inv ?_ fun _ _ _ hy inv => ⟨hy, inv⟩
      exact fun t ht => code t (by simp [ht])
    | «return» value => exact ⟨trivial, inv⟩
    | «break» => exact Plan.ensures_get_bind (K.thrown _ (K.raisesBody _ body hs (by simp)) inv)
    | «continue» => exact Plan.ensures_get_bind (K.thrown _ (K.raisesBody _ body hs (by simp)) inv)

theorem Kept.runProgram (K : C.Kept) (meets : C.Meets job) (inv : C.Inv i m h)
    {last : Option Value} {program : Program} (code : ∀ s ∈ program, (C.code i).top s) :
    (Plan.runProgram last program).Ensures job (C.gives i fun _ => True) m h := by
  cases program with
  | nil => exact ⟨trivial, inv⟩
  | cons s rest =>
    have top := code s (by simp)
    refine meets.bind inv ?_ fun signal m h hs inv => ?_
    · exact (C.code i).top_stmt top
    cases signal with
    | normal value =>
      refine meets.start inv ?_ fun _ _ _ hy inv => ⟨hy, inv⟩
      exact fun t ht => code t (by simp [ht])
    | «return» value => exact Plan.ensures_get_bind (K.thrown _ (K.raisesTop top hs) inv)
    | «break» => exact Plan.ensures_get_bind (K.thrown _ (K.raisesTop top hs) inv)
    | «continue» => exact Plan.ensures_get_bind (K.thrown _ (K.raisesTop top hs) inv)

theorem Meets.executeAll (meets : C.Meets job) (inv : C.Inv i m h) {last : Option Value}
    {stmts : List Stmt} (code : ∀ s ∈ stmts, (C.code i).stmt s) :
    (Plan.executeAll last stmts).Ensures job
      (C.gives i (Signal.From (Stmt.anyJumps · stmts))) m h := by
  cases stmts with
  | nil => exact ⟨trivial, inv⟩
  | cons s rest =>
    refine meets.bind inv ?_ fun signal m h hs inv => ?_
    · exact code s (by simp)
    split
    · refine meets.start inv ?_ fun signal m h hs inv => ⟨?_, inv⟩
      · exact fun t ht => code t (by simp [ht])
      · exact Signal.From.tail hs
    · exact ⟨Signal.From.head hs, inv⟩

theorem Kept.whileLoop (K : C.Kept) (meets : C.Meets job) (inv : C.Inv i m h) {condition : Expr}
    {body : List Stmt} (code : (C.code i).expr condition ∧ ∀ s ∈ body, (C.code i).stmt s) :
    (Plan.whileLoop condition body).Ensures job
      (C.gives i (Signal.From (Stmt.loopJumps body))) m h := by
  refine meets.bind inv ?_ fun value m h _ inv => ?_
  · exact code.1
  split
  · refine Plan.ensures_bind (K.block meets inv code.2 fun signal m h hs inv => ?_)
    refine Kept.afterBody hs inv (meets.start inv ?_ fun _ _ _ hs inv => ⟨hs, inv⟩)
    exact code
  · exact ⟨trivial, inv⟩

theorem Kept.endlessLoop (K : C.Kept) (meets : C.Meets job) (inv : C.Inv i m h)
    {body : List Stmt} (code : ∀ s ∈ body, (C.code i).stmt s) :
    (Plan.endlessLoop body).Ensures job (C.gives i (Signal.From (Stmt.loopJumps body))) m h := by
  refine Plan.ensures_bind (K.block meets inv code fun signal m h hs inv => ?_)
  refine Kept.afterBody hs inv (meets.start inv ?_ fun _ _ _ hs inv => ⟨hs, inv⟩)
  exact code

theorem Kept.forLoop (K : C.Kept) (meets : C.Meets job) (inv : C.Inv i m h) {binding : String}
    {items : List Value} {body : List Stmt} (code : ∀ s ∈ body, (C.code i).stmt s) :
    (Plan.forLoop binding items body).Ensures job
      (C.gives i (Signal.From (Stmt.loopJumps body))) m h := by
  cases items with
  | nil => exact ⟨trivial, inv⟩
  | cons item rest =>
    refine Plan.ensures_bind (K.withScope inv (P := Signal.From (Stmt.anyJumps · body)) ?_ ?_)
    · intro signal m h hs inv
      refine Kept.afterBody hs inv (meets.start inv ?_ fun _ _ _ hs inv => ⟨hs, inv⟩)
      exact code
    · intro k hk entered
      refine Plan.ensures_change_bind ?_
      refine meets.start (K.changed (c := .declare binding item) trivial entered) ?_ ?_
      · exact hk ▸ code
      · exact fun _ _ _ hs inv => ⟨hs, inv⟩

theorem Kept.assignTo (K : C.Kept) (meets : C.Meets job) (inv : C.Inv i m h) {target : Expr}
    {value : Value} (code : (C.code i).expr target) :
    (Plan.assignTo target value).Ensures job (C.gives i fun _ => True) m h := by
  unfold Plan.assignTo
  split
  · exact K.raise inv _ _
  next place ht =>
    refine meets.bind inv ?_ fun indices m h _ inv => K.store inv _ _ _ _
    intro e he
    obtain ⟨p, hp, rfl⟩ := List.mem_map.mp he
    exact (C.code i).targetWith code (by simp) ht p hp

theorem Meets.evaluateOr (meets : C.Meets job) (inv : C.Inv i m h) {default : Value}
    {e : Option Expr} (code : ∀ x ∈ e.toList, (C.code i).expr x)
    {Q : Value → Interpreter → History → Prop} (next : ∀ x m h, C.Inv i m h → Q x m h) :
    (Plan.evaluateOr default e).Ensures job ⟨Q, C.Fail i, C.Stop⟩ m h := by
  cases e with
  | none => exact next default m h inv
  | some e =>
    refine meets.start inv ?_ fun x m h _ inv => next x m h inv
    exact code e (by simp)

variable {E : RuntimeError → Interpreter → History → Prop}

theorem Kept.runModule (K : C.Kept) (meets : C.Meets job) (inv : C.Inv i m h) {name : String}
    {log : ModuleLog} {text : ModuleText} {program : Program}
    (marked : m.modules.mark? name = some log) (found : m.source.fetch name = .found text)
    (parsed : parseProgram text.source = .ok program) :
    (Plan.withModule text.origin (Plan.start (.runProgram none program))).Ensures job
      (C.gives i fun _ => True) ((Change.retain program).apply ((Change.mark name).apply m))
      (h ++ [.changed (.mark name), .fetched name (.found text), .changed (.retain program)]) := by
  obtain ⟨k, code, began, closes⟩ := K.module inv marked found parsed
  refine Plan.ensures_withModule (closes.ensures (fun _ _ _ hp inv => ⟨hp, inv⟩) ?_)
  rw [List.append_assoc]
  refine meets.start began ?_ fun _ _ _ _ inv => ⟨trivial, inv⟩
  exact code

theorem Kept.load (K : C.Kept) (meets : C.Meets job) (inv : C.Inv i m h) {name : String} :
    (Plan.load name).Ensures job (C.post i (.load name)) m h := by
  refine Plan.ensures_bind (Plan.ensures_get_bind ?_)
  split
  · exact inv
  next log marked =>
    refine Plan.ensures_change_bind ?_
    refine Plan.ensures_bind (Plan.ensures_fetch_bind ?_)
    rw [List.append_assoc, show ((Change.mark name).apply m).source = m.source from rfl]
    have missed {result} (fetched : m.source.fetch name = result) := K.missed inv marked fetched
    cases fetched : m.source.fetch name with
    | notFound searched => exact missed fetched rfl (by simp)
    | unreadable reason => exact missed fetched rfl (by simp)
    | unread path => exact K.awaited inv marked fetched
    | found text =>
      refine Plan.ensures_bind ?_
      unfold Plan.parseModule
      split
      next diagnostic unparsed =>
        exact missed fetched (by simp [Fetched.program?, unparsed, Except.toOption]) (by simp)
      next program parsed =>
        refine Plan.ensures_change_bind ?_
        rw [List.append_assoc]
        refine Plan.ensures_attempt_bind ?_
        refine (K.runModule meets inv marked fetched parsed).mono ?_ ?_ ?_
        · exact fun _ _ _ hq => hq.2
        · exact fun _ _ _ hf => hf
        · exact fun _ _ hs => hs

theorem Meets.load (meets : C.Meets job) (inv : C.Inv i m h) {name : String} :
    (Plan.start (.load name)).Ensures job ⟨C.Loaded i, E, C.Stop⟩ m h := by
  have pre : C.Pre i (.load name) m h := ⟨inv, trivial⟩
  exact (meets i (.load name) m h pre).mono (fun _ _ _ hq => hq) (fun _ _ _ hf => hf.elim)
    fun _ _ hs => hs

theorem Meets.evaluateSource (meets : C.Meets job) (inv : C.Inv i m h) {text : String}
    (code : ∀ program, parseProgram text = .ok program → ∀ s ∈ program, (C.code i).top s) :
    (Plan.evaluateSource text).Ensures job ⟨C.Evaluated i, E, C.Stop⟩ m h := by
  unfold Plan.evaluateSource
  split
  · exact inv
  next program parsed =>
    have pre : C.Pre i (.runProgram none program) m h := ⟨inv, code program parsed⟩
    refine Plan.ensures_attempt_bind ?_
    refine (meets i (.runProgram none program) m h pre).mono ?_ ?_ fun _ _ hs => hs
    · exact fun _ _ _ hq => hq.2
    · exact fun _ _ _ hf => hf

theorem Kept.execute (K : C.Kept) (meets : C.Meets job) (inv : C.Inv i m h) {s : Stmt}
    (code : (C.code i).stmt s) :
    (Plan.execute s).Ensures job (C.gives i (Signal.From (s.jumps ·))) m h := by
  have exprs {e} (he : e ∈ s.exprs) := (C.code i).stmt_exprs code he
  have children {t} (ht : t ∈ s.children) := (C.code i).stmt_children code ht
  cases s with
  | var span name initial =>
    refine Plan.ensures_bind (meets.evaluateOr inv (fun x hx => exprs hx) fun value m h inv => ?_)
    exact ⟨trivial, K.changed (c := .declare name value) trivial inv⟩
  | define span name e =>
    refine meets.bind inv ?_ fun value m h _ inv => ?_
    · exact exprs (e := e) (by simp [Stmt.exprs])
    exact ⟨trivial, K.changed (c := .declareGlobal name value) trivial inv⟩
  | assign span target e =>
    refine meets.bind inv ?_ fun value m h _ inv => ?_
    · exact exprs (e := e) (by simp [Stmt.exprs])
    refine meets.bind inv ?_ fun _ m h _ inv => ⟨trivial, inv⟩
    exact exprs (e := target) (by simp [Stmt.exprs])
  | function span name parameters body =>
    have body {t} (ht : t ∈ body) := (C.code i).function_body code ht
    exact ⟨trivial, K.defined (f := ⟨name, parameters, _, span⟩) (fun t ht => body ht) inv⟩
  | «include» span name =>
    refine Plan.ensures_bind_of (meets.load inv) fun result m h loaded => ?_
    rcases result with (fault | ⟨_, e⟩) | _
    · exact K.raise loaded (.module fault) span
    · exact loaded
    · exact ⟨trivial, loaded⟩
  | expr span e =>
    refine meets.bind inv ?_ fun value m h _ inv => ⟨trivial, inv⟩
    exact exprs (e := e) (by simp [Stmt.exprs])
  | block span body =>
    exact K.block meets inv (fun t ht => children ht) fun _ _ _ hs inv => ⟨hs, inv⟩
  | ifThen span condition body =>
    refine meets.bind inv ?_ fun value m h _ inv => ?_
    · exact exprs (e := condition) (by simp [Stmt.exprs])
    split
    · exact K.block meets inv (fun t ht => children ht) fun _ _ _ hs inv => ⟨hs, inv⟩
    · exact ⟨trivial, inv⟩
  | ifElse span condition body otherwise =>
    refine meets.bind inv ?_ fun value m h _ inv => ?_
    · exact exprs (e := condition) (by simp [Stmt.exprs])
    split
    · refine K.block meets inv ?_ fun _ _ _ hs inv => ⟨?_, inv⟩
      · exact fun t ht => children (by simp [Stmt.children, ht])
      · exact hs.mono fun jump hj => by simp [Stmt.jumps, hj]
    · refine K.block meets inv ?_ fun _ _ _ hs inv => ⟨?_, inv⟩
      · exact fun t ht => children (by simp [Stmt.children, ht])
      · exact hs.mono fun jump hj => by simp [Stmt.jumps, hj]
  | «while» span condition body =>
    refine meets.start inv ?_ fun _ _ _ hs inv => ⟨hs, inv⟩
    exact ⟨exprs (e := condition) (by simp [Stmt.exprs]), fun t ht => children ht⟩
  | loop span body =>
    refine meets.start inv ?_ fun _ _ _ hs inv => ⟨hs, inv⟩
    exact fun t ht => children ht
  | «for» span binding e body =>
    refine meets.bind inv ?_ fun value m h _ inv => ?_
    · exact exprs (e := e) (by simp [Stmt.exprs])
    refine Plan.ensures_bind (K.ofOperation inv e.span _ fun items => ?_)
    refine meets.start inv ?_ fun _ _ _ hs inv => ⟨hs, inv⟩
    exact fun t ht => children ht
  | «return» span e =>
    refine Plan.ensures_bind (meets.evaluateOr inv (fun x hx => exprs hx) fun value m h inv => ?_)
    exact ⟨by simp [Signal.From, Stmt.jumps], inv⟩
  | «break» => exact ⟨by simp [Signal.From, Stmt.jumps], inv⟩
  | «continue» => exact ⟨by simp [Signal.From, Stmt.jumps], inv⟩

section Perform

variable {k : C.Ghost} {action : HostAction}

theorem Meets.perform (meets : C.Meets job) (acts : C.Acts i k action m) (inv : C.Inv k m h) :
    (Plan.start (.perform action)).Ensures job ⟨fun _ => C.Inv i, C.HostFail i, C.Stop⟩ m h :=
  meets i (.perform action) m h ⟨k, acts, inv⟩

theorem Meets.proceed (meets : C.Meets job) {c : Change} (proceeds : C.Proceeds i c action m h) :
    (Plan.change c >>= fun _ => Plan.start (.perform action)).Ensures job
      ⟨fun _ => C.Inv i, C.HostFail i, C.Stop⟩ m h := by
  obtain ⟨k, inv, acts⟩ := proceeds
  exact Plan.ensures_change_bind (meets.perform acts inv)

theorem Kept.perform (K : C.Kept) (meets : C.Meets job) (inv : C.Inv k m h)
    (step : C.Step i k m h action) :
    (Plan.perform action).Ensures job ⟨fun _ => C.Inv i, C.HostFail i, C.Stop⟩ m h := by
  cases action with
  | finish result =>
    cases result with
    | ok value => exact step
    | error e => exact step
  | observe next => exact Plan.ensures_get_bind (meets.perform step inv)
  | evaluate text next =>
    obtain ⟨code, settled, acts⟩ := step
    refine Plan.ensures_bind_of (meets.evaluateSource inv code) fun result m h evaluated => ?_
    have inv : C.Inv k m h := by
      rcases result with (_ | e) | _
      · exact evaluated
      · exact settled e m h evaluated
      · exact evaluated
    exact meets.perform (acts result m h inv) inv
  | load name next =>
    obtain ⟨settled, acts⟩ := step
    refine Plan.ensures_bind_of (meets.load inv) fun result m h loaded => ?_
    have inv : C.Inv k m h := by
      rcases result with (fault | ⟨_, e⟩) | _
      · exact loaded
      · exact settled e m h loaded
      · exact loaded
    exact meets.perform (acts result m h inv) inv
  | assign name value next =>
    refine Plan.ensures_get_bind ?_
    unfold Step at step
    split
    next hm => exact meets.proceed (by simpa [hm] using step)
    next hm => exact meets.perform (by simpa [hm] using step) inv
  | readLine next =>
    refine Plan.ensures_readLine_bind (K.halted (by simp) inv) fun line console hr hl => ?_
    obtain ⟨k, inv, acts⟩ := step line console hr hl
    exact meets.perform acts inv
  | newCell initial next => exact Plan.ensures_get_bind (meets.proceed step)
  | readCell cell next => exact Plan.ensures_get_bind (meets.perform step inv)
  | fault => exact step
  | _ => exact meets.proceed step

end Perform

theorem post_halted (i : C.Ghost) (j : Job α) : (C.post i j).halted = C.Stop := by
  cases j <;> rfl

theorem post_of_isRun {j : Job α} (run : j.IsRun) {o : Outcome α}
    (ho : (C.post i j).Holds (o, h)) :
    Post.Holds ⟨fun _ m h => C.Inv i m h ∨ ∃ e, C.Fail i e m h, C.Fail i, C.Stop⟩ (o, h) := by
  refine ho.mono ?_ ?_ ?_
  · intro a m h hq
    cases j with
    | perform | callUser => exact run.elim
    | load name =>
      rcases a with (_ | ⟨_, e⟩) | _
      · exact .inl hq
      · exact .inr ⟨e, hq⟩
      · exact .inl hq
    | _ => exact .inl hq.2
  · intro e m h hf
    cases j with
    | perform | callUser => exact run.elim
    | load name => exact hf.elim
    | _ => exact hf
  · intro reason h hs
    rwa [post_halted] at hs

/-- A contract that every step keeps is kept by every evaluation, with any amount of fuel. -/
theorem Kept.meets (K : C.Kept) (fuel : Nat) : C.Meets fun _ j => Job.record fuel j := by
  induction fuel with
  | zero =>
    intro i β j m h pre
    obtain ⟨k, inv⟩ := exists_inv_of_pre pre
    change (C.post i j).halted .outOfFuel h
    rw [post_halted]
    exact K.halted (by simp) inv
  | succ fuel ih =>
    intro i β j m h pre
    change j.plan.Ensures (fun _ j => Job.record fuel j) (C.post i j) m (h ++ [.started j m.calls])
    cases j with
    | evaluate e => exact K.evaluate ih (K.started _ (by trivial) pre.1) pre.2
    | evaluateAll es => exact ih.evaluateAll (K.started _ (by trivial) pre.1) pre.2
    | call name values span => exact K.callJob ih (K.started _ (by trivial) pre.1) pre.2
    | callUser name function values span => exact K.callUser ih pre
    | runBody function stmts => exact K.runBody ih (K.started _ (by trivial) pre.1) pre.2
    | perform action =>
      obtain ⟨k, acts, inv⟩ := pre
      have inv := K.started (.perform action) ⟨i, acts⟩ inv
      exact K.perform ih inv (K.step acts inv)
    | execute stmt => exact K.execute ih (K.started _ (by trivial) pre.1) pre.2
    | executeAll last stmts => exact ih.executeAll (K.started _ (by trivial) pre.1) pre.2
    | whileLoop condition body => exact K.whileLoop ih (K.started _ (by trivial) pre.1) pre.2
    | endlessLoop body => exact K.endlessLoop ih (K.started _ (by trivial) pre.1) pre.2
    | forLoop binding items body => exact K.forLoop ih (K.started _ (by trivial) pre.1) pre.2
    | assignTo target value => exact K.assignTo ih (K.started _ (by trivial) pre.1) pre.2
    | runProgram last program => exact K.runProgram ih (K.started _ (by trivial) pre.1) pre.2
    | load name => exact K.load ih (K.started _ (by trivial) pre.1)

theorem Kept.run (K : C.Kept) (fuel : Nat) (j : Job α) (pre : C.Pre i j m []) :
    (C.post i j).Holds (j.run fuel m, j.history fuel m) := by
  rw [← Job.record_outcome fuel j m []]
  exact K.meets fuel i j m [] pre

theorem Kept.run_evaluateSource (K : C.Kept) (fuel : Nat) (inv : C.Inv i m []) (text : String)
    (code : ∀ program, parseProgram text = .ok program → ∀ s ∈ program, (C.code i).top s) :
    ∃ h, Post.Holds ⟨C.Evaluated i, E, C.Stop⟩ (Run.evaluateSource fuel text m, h) := by
  have ensured := (K.meets fuel).evaluateSource (E := E) inv code
  refine ⟨((Plan.evaluateSource text).record (fun _ j => Job.record fuel j) m []).2, ?_⟩
  rw [Run.evaluateSource,
    ← Plan.record_outcome (fun _ j m h => Job.record_outcome fuel j m h) (Plan.evaluateSource text)]
  exact ensured

end Contract

end Script
