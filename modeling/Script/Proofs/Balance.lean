import Script.Proofs.StandardHost

namespace Script

/-- How deep in a program an interpreter is: the number of its scopes, its active calls, and the
file that runs. -/
structure Shape where
  scopes : Nat
  calls : List Frame
  file : String

namespace Interpreter

variable {m : Interpreter}

def shape (m : Interpreter) : Shape := ⟨m.environment.depth, m.calls.trace, m.file⟩

theorem shape_apply_of_isOwn {c : Change} (hc : c.IsOwn) : (c.apply m).shape = m.shape := by
  cases c with
  | declare name value => simp [Change.apply, shape]
  | declareGlobal name value => simp [Change.apply, shape]
  | assign name value =>
    cases ha : m.environment.assign? name value with
    | none => simp [Change.apply, shape, ha]
    | some updated => simp [Change.apply, shape, ha, Environment.depth_of_assign? ha]
  | _ => exact hc.elim

theorem isGlobal_iff : m.environment.isGlobal ↔ m.environment.depth = 1 := by
  simp [Environment.isGlobal, Environment.depth]

theorem not_isGlobal_of_shape {outer : Interpreter}
    (h : m.environment.depth = outer.environment.depth + 1) : ¬m.environment.isGlobal := by
  rw [isGlobal_iff, h]
  simp [Environment.depth]

theorem leaveScope_of_shape {m' : Interpreter} (h : m'.shape = m.enterScope.shape) :
    m'.canLeaveScope ∧ m'.leaveScope.shape = m.shape := by
  simp only [shape, enterScope, Environment.depth_push, Shape.mk.injEq] at h
  have inner := not_isGlobal_of_shape h.1
  have pop := Environment.depth_pop inner
  refine ⟨by simpa [canLeaveScope] using inner, ?_⟩
  simp only [shape, leaveScope, Shape.mk.injEq]
  exact ⟨by omega, h.2⟩

theorem leaveCall_of_shape {m' : Interpreter} {frame : Frame}
    (h : m'.shape = (m.enterCall frame).shape) :
    m'.canLeaveCall ∧ m'.leaveCall.shape = m.shape := by
  simp only [shape, enterCall, Environment.depth_push, CallStack.trace_push, Shape.mk.injEq] at h
  have inner := not_isGlobal_of_shape h.1
  have pop := Environment.depth_pop inner
  constructor
  · have called : ¬m'.calls.isEmpty := CallStack.not_isEmpty_of_trace h.2.1
    simp [canLeaveCall, inner, called]
  · simp only [shape, leaveCall, CallStack.trace_pop, h.2.1, Shape.mk.injEq]
    exact ⟨by omega, List.dropLast_concat, h.2.2⟩

theorem leaveModule_of_shape {m' : Interpreter} {origin : String}
    (h : m'.shape = (m.enterModule origin).shape) :
    (m'.leaveModule m.environment.locals m.file).shape = m.shape := by
  simp only [shape, enterModule, Shape.mk.injEq] at h
  simp only [shape, leaveModule, Shape.mk.injEq]
  exact ⟨rfl, h.2.1, trivial⟩

end Interpreter

/-- Whether the steps of a host function lead back to the scopes, calls and file that it has found,
given that the evaluations which it asks for leave all three as they are. Builtins that it adds have
to do the same from wherever they are called. -/
def HostAction.Restores : HostAction → Shape → Interpreter → Prop
  | finish _, found, m => m.shape = found
  | observe next, found, m => (next m.view).Restores found m
  | evaluate _ next, found, m =>
    ∀ result m', m'.shape = m.shape → (next result).Restores found m'
  | load _ next, found, m => ∀ result m', m'.shape = m.shape → (next result).Restores found m'
  | set name value next, found, m => next.Restores found ((Change.declare name value).apply m)
  | setGlobal name value next, found, m =>
    next.Restores found ((Change.declareGlobal name value).apply m)
  | assign name value next, found, m =>
    match m.environment.assign? name value with
    | some _ => (next true).Restores found ((Change.assign name value).apply m)
    | none => (next false).Restores found m
  | pushScope next, found, m => next.Restores found (Change.pushScope.apply m)
  | popScope next, found, m => next.Restores found (Change.popScope.apply m)
  | setLimit limit next, found, m => next.Restores found ((Change.setLimit limit).apply m)
  | setSource source next, found, m => next.Restores found ((Change.setSource source).apply m)
  | print text next, found, m => next.Restores found ((Change.print text).apply m)
  | readLine next, found, m => ∀ line console, m.world.console.readLine = (line, console) →
    line ≠ .unread → (next line).Restores found (m.withConsole console)
  | addBuiltin name arity call next, found, m =>
    (∀ values m', arity.unmet? (List.length values) = none →
      (call values).Restores m'.shape m') ∧
      next.Restores found ((Change.addBuiltin ⟨name, arity, call⟩).apply m)
  | register extension next, found, m =>
    next.Restores found ((Change.register extension).apply m)
  | newCell initial next, found, m =>
    (next m.cells.size).Restores found ((Change.newCell initial).apply m)
  | readCell cell next, found, m => (next (m.cells.getD cell .null)).Restores found m
  | writeCell cell value next, found, m =>
    next.Restores found ((Change.writeCell cell value).apply m)
  | fault, _, _ => False

/-- Whether a builtin, called with as many arguments as it takes, leaves scopes, calls and file as
it finds them. -/
def Builtin.Restores (b : Builtin) : Prop :=
  ∀ values m, b.arity.unmet? (List.length values) = none → (b.call values).Restores m.shape m

theorem HostAction.Plain.restores {action : HostAction} (h : action.Plain) (m : Interpreter) :
    action.Restores m.shape m := by
  induction h generalizing m with
  | ok value => rfl
  | refuse error => rfl
  | observe hn ih => exact ih m.view m
  | setLimit limit hn ih => exact ih ((Change.setLimit limit).apply m)
  | print text hn ih => exact ih ((Change.print text).apply m)
  | readLine hn ih => exact fun line console _ hl => ih line hl (m.withConsole console)

theorem Standard.restores_of_mem {b : Builtin} (hb : b ∈ Standard.builtins) : b.Restores :=
  fun _ m hv => (Standard.plain_of_mem hb hv).restores m

namespace Contract

/-- Evaluations leave scopes, calls and file as they find them, and take no impossible step. -/
abbrev balance : Contract where
  Ghost := Shape
  code _ := .all
  Inv s m _ := m.shape = s ∧ m.OffersOnly Builtin.Restores
  Fail s _ m _ := m.shape = s ∧ m.OffersOnly Builtin.Restores
  HostFail s _ m _ := m.shape = s ∧ m.OffersOnly Builtin.Restores
  Stop reason _ := reason ≠ .fault
  Raises _ := True
  Acts found _ action m := action.Restores found m

variable {s : Shape} {m : Interpreter} {h : History}

theorem balance_proceeds {c : Change} {next : HostAction} (hm : m.OffersOnly Builtin.Restores)
    (hc : ∀ b, c ≠ .addBuiltin b) (hn : next.Restores s (c.apply m)) :
    balance.Proceeds s c next m h :=
  ⟨(c.apply m).shape, ⟨rfl, hm.apply hc⟩, hn⟩

theorem balance_step {k : Shape} {action : HostAction} (acts : action.Restores s m)
    (inv : balance.Inv k m h) : balance.Step s k m h action := by
  obtain ⟨rfl, hm⟩ := inv
  cases action with
  | finish result =>
    cases result with
    | ok value => exact ⟨acts, hm⟩
    | error e => exact ⟨acts, hm⟩
  | observe next => exact acts
  | evaluate text next =>
    exact ⟨fun _ _ _ _ => trivial, fun _ _ _ hf => hf, fun result m' _ inv => acts result m' inv.1⟩
  | load name next => exact ⟨fun _ _ _ hf => hf, fun result m' _ inv => acts result m' inv.1⟩
  | assign name value next =>
    simp only [HostAction.Restores] at acts
    simp only [Step]
    cases ha : m.environment.assign? name value with
    | some updated =>
      simp only [ha] at acts ⊢
      exact balance_proceeds hm (by simp) acts
    | none =>
      simp only [ha] at acts ⊢
      exact acts
  | readLine next =>
    exact fun line console hr hl => ⟨m.shape, ⟨rfl, hm⟩, acts line console hr hl⟩
  | addBuiltin name arity call next =>
    have added : Builtin.Restores ⟨name, arity, call⟩ := acts.1
    exact ⟨_, ⟨rfl, hm.addBuiltin added⟩, acts.2⟩
  | readCell cell next => exact acts
  | fault => exact acts.elim
  | _ => exact balance_proceeds hm (by simp) acts

theorem balance_closes {inner outer : Shape} {possible : Interpreter → Bool}
    {undo : Interpreter → Interpreter} {events : History}
    (leave : ∀ m : Interpreter, m.shape = inner → possible m ∧ (undo m).shape = outer)
    (functions : ∀ m, (undo m).functions = m.functions) :
    balance.Closes inner outer possible undo events := by
  constructor
  · exact fun m h inv _ => ⟨(leave m inv.1).2, inv.2.of_eq (functions m)⟩
  · exact fun e m h inv _ => ⟨(leave m inv.1).2, inv.2.of_eq (functions m)⟩
  · exact fun m h inv => .inl (leave m inv.1).1
  · exact fun e m h inv => .inl (leave m inv.1).1

theorem balance_kept : balance.Kept where
  started _ _ inv := inv
  changed own inv :=
    ⟨(Interpreter.shape_apply_of_isOwn own).trans inv.1, inv.2.apply own.keepsHost.ne_addBuiltin⟩
  defined _ inv := ⟨inv.1, inv.2.apply (by simp)⟩
  raises _ := trivial
  raisesTop _ _ := trivial
  raisesBody _ _ _ _ := trivial
  thrown _ _ inv := inv
  located _ inv := inv
  overflowed _ inv _ := inv
  scope {s m h} inv := by
    obtain ⟨rfl, hm⟩ := inv
    exact ⟨m.enterScope.shape, rfl, ⟨rfl, hm⟩,
      balance_closes (fun _ => Interpreter.leaveScope_of_shape) fun _ => rfl⟩
  call {s m h name f span arguments} values inv _ _ _ := by
    obtain ⟨rfl, hm⟩ := inv
    exact ⟨(m.enterCall _).shape, fun _ _ => trivial, ⟨rfl, hm⟩,
      balance_closes (fun _ => Interpreter.leaveCall_of_shape) fun _ => rfl⟩
  missed inv _ _ _ _ := inv
  awaited _ _ _ := by simp
  module {s m h name log text program} inv _ _ _ := by
    obtain ⟨rfl, hm⟩ := inv
    exact ⟨(m.enterModule _).shape, fun _ _ => trivial, ⟨rfl, hm⟩,
      balance_closes (fun _ hs => ⟨rfl, Interpreter.leaveModule_of_shape hs⟩) fun _ => rfl⟩
  builtin inv _ hr hv := by
    obtain ⟨rfl, hm⟩ := inv
    exact hm.of_resolve hr _ _ hv
  step acts inv := balance_step acts inv
  halted hr _ := hr

end Contract

/-- Whether an evaluation takes no impossible step and ends, if it does, with this shape. -/
def Outcome.EndsIn {α : Type} (s : Shape) : Outcome α → Prop
  | value _ m | error _ m => m.shape = s
  | halted reason _ => reason ≠ .fault

theorem Contract.endsIn_of_balance {α : Type} {s : Shape} {j : Job α} {o : Outcome α} {h : History}
    (ho : (balance.post s j).Holds (o, h)) : o.EndsIn s := by
  cases o with
  | value a m =>
    cases j with
    | perform action => exact ho.1
    | load name => rcases a with (_ | _) | _ <;> exact ho.1
    | _ => exact ho.2.1
  | error e m =>
    cases j with
    | load name => exact ho.elim
    | _ => exact ho.1
  | halted reason m =>
    have stop : (balance.post s j).halted reason h := ho
    rw [post_halted] at stop
    exact stop

/-- Whatever is evaluated leaves scopes, calls and file as they are, if all builtins do. The
standard ones do. -/
theorem evaluation_endsIn_shape :
    (∀ b ∈ Standard.builtins, b.Restores) ∧
    ∀ (fuel : Nat) (m : Interpreter), m.OffersOnly Builtin.Restores →
      (∀ stmt, (Run.execute fuel stmt m).EndsIn m.shape) ∧
      (∀ e, (Run.evaluate fuel e m).EndsIn m.shape) ∧
      (∀ program, (Run.runProgram fuel program m).EndsIn m.shape) ∧
      (∀ text, (Run.evaluateSource fuel text m).EndsIn m.shape) ∧
      ∀ name, (Run.load fuel name m).EndsIn m.shape := by
  refine ⟨fun b hb => Standard.restores_of_mem hb, fun fuel m hm => ?_⟩
  have inv : Contract.balance.Inv m.shape m [] := ⟨rfl, hm⟩
  have ends {α : Type} {j : Job α} (pre : Contract.balance.Pre m.shape j m []) :
      (j.run fuel m).EndsIn m.shape :=
    Contract.endsIn_of_balance (Contract.balance_kept.run fuel j pre)
  refine ⟨?_, ?_, ?_, ?_, ?_⟩
  · exact fun stmt => ends (j := .execute stmt) ⟨inv, trivial⟩
  · exact fun e => ends (j := .evaluate e) ⟨inv, trivial⟩
  · exact fun program => ends (j := .runProgram none program) ⟨inv, fun _ _ => trivial⟩
  · intro text
    obtain ⟨h, ended⟩ := Contract.balance_kept.run_evaluateSource (E := fun _ _ _ => False) fuel inv
      text fun _ _ _ _ => trivial
    generalize Run.evaluateSource fuel text m = o at ended ⊢
    cases o with
    | value result m => rcases result with (_ | _) | _ <;> exact ended.1
    | error e m => exact ended.elim
    | halted reason m => exact ended
  · exact fun name => ends (j := .load name) ⟨inv, trivial⟩

/-- A builtin that evaluates a text in a scope of its own. -/
def Builtin.evaluateInScope : Builtin where
  name := "eval"
  arity := .any
  call values := .pushScope (.evaluate (Standard.joined values) fun _ => .popScope (.ok .null))

theorem Builtin.restores_evaluateInScope : Builtin.evaluateInScope.Restores := by
  intro values m _ result m' hm
  exact (Interpreter.leaveScope_of_shape hm).2

def Interpreter.reentrant : Interpreter := (Change.addBuiltin .evaluateInScope).apply .fresh

theorem Interpreter.offersOnly_reentrant : Interpreter.reentrant.OffersOnly Builtin.Restores :=
  OffersOnly.addBuiltin (offersOnly_fresh.imp fun _ => Standard.restores_of_mem)
    Builtin.restores_evaluateInScope

/-- A name error two blocks deep in a function, after an evaluation that fails as well. -/
def nestedFailure : String := "func f() \x7b \x7b \x7b eval(\"g(\") return x \x7d \x7d \x7d\nf()"

/-- The error at which the evaluation of a text has stopped. -/
def Outcome.runtimeError? : Outcome (Except ScriptError Value) → Option RuntimeError
  | value (.error (.runtime e)) _ => some e
  | value (.error (.diagnostic _)) _ | value (.ok _) _ | error _ _ | halted _ _ => none

theorem Outcome.exists_of_runtimeError? {o : Outcome (Except ScriptError Value)}
    (h : o.runtimeError?.isSome) : ∃ e m, o = .value (.error (.runtime e)) m := by
  cases o with
  | value result m =>
    rcases result with (_ | e) | _
    · cases h
    · exact ⟨e, m, rfl⟩
    · cases h
  | _ => cases h

theorem evaluation_endsIn_shape_reentrant :
    ∃ e m, Run.evaluateSource 40 nestedFailure .reentrant = .value (.error (.runtime e)) m ∧
      m.shape = ⟨1, [], "<script>"⟩ := by
  have ends := (evaluation_endsIn_shape.2 40 _
    Interpreter.offersOnly_reentrant).2.2.2.1 nestedFailure
  have stops : (Run.evaluateSource 40 nestedFailure .reentrant).runtimeError?.isSome := by
    decide +kernel
  obtain ⟨e, m, run⟩ := Outcome.exists_of_runtimeError? stops
  rw [run] at ends
  exact ⟨e, m, run, ends⟩

end Script
