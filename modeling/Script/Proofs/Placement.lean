import Script.Proofs.Fuel
import Script.Proofs.StandardHost

namespace Script

/-- Whether a jump may stand at a place, by what is around it. -/
def Jump.allowed (inLoop inFunction : Bool) : Jump → Bool
  | .return => inFunction
  | .break | .continue => inLoop

namespace Stmt

mutual

/-- Whether every `break` and `continue` in a statement lies in a loop and every `return` in a
function, given what is around the statement. The body of a function is in no loop around it. -/
def placed (inLoop inFunction : Bool) : Stmt → Bool
  | .return .. => inFunction
  | .break _ | .continue _ => inLoop
  | function _ _ _ body => allPlaced false true body
  | block _ body | ifThen _ _ body => allPlaced inLoop inFunction body
  | ifElse _ _ body otherwise =>
    allPlaced inLoop inFunction body && allPlaced inLoop inFunction otherwise
  | .while _ _ body | loop _ body | .for _ _ _ body => allPlaced true inFunction body
  | _ => true

def allPlaced (inLoop inFunction : Bool) : List Stmt → Bool
  | [] => true
  | stmt :: rest => stmt.placed inLoop inFunction && allPlaced inLoop inFunction rest

end

theorem allPlaced_iff {inLoop inFunction : Bool} {stmts : List Stmt} :
    allPlaced inLoop inFunction stmts ↔ ∀ s ∈ stmts, s.placed inLoop inFunction := by
  induction stmts with
  | nil => simp [allPlaced]
  | cons s rest ih => simp [allPlaced, ih]

theorem placed_of_mem_children {inLoop inFunction : Bool} {s child : Stmt}
    (h : s.placed inLoop inFunction) (hc : child ∈ s.children) :
    ∃ inLoop', child.placed inLoop' inFunction := by
  cases s with
  | block | ifThen => exact ⟨inLoop, allPlaced_iff.mp h child hc⟩
  | ifElse span condition body otherwise =>
    simp only [placed, Bool.and_eq_true, allPlaced_iff] at h
    exact ⟨inLoop, (List.mem_append.mp hc).elim (h.1 child) (h.2 child)⟩
  | «while» | loop | «for» => exact ⟨true, allPlaced_iff.mp h child hc⟩
  | _ => cases hc

mutual

theorem allowed_of_jumps {inLoop inFunction : Bool} {jump : Jump} :
    ∀ s : Stmt, s.placed inLoop inFunction → s.jumps jump → jump.allowed inLoop inFunction
  | .return .., hp, hj => by
    obtain rfl : jump = .return := by simpa [jumps] using hj
    exact hp
  | .break _, hp, hj => by
    obtain rfl : jump = .break := by simpa [jumps] using hj
    exact hp
  | .continue _, hp, hj => by
    obtain rfl : jump = .continue := by simpa [jumps] using hj
    exact hp
  | block _ body, hp, hj | ifThen _ _ body, hp, hj => allowed_of_anyJumps body hp hj
  | ifElse _ _ body otherwise, hp, hj => by
    simp only [placed, Bool.and_eq_true] at hp
    simp only [jumps, Bool.or_eq_true] at hj
    exact hj.elim (allowed_of_anyJumps body hp.1) (allowed_of_anyJumps otherwise hp.2)
  | .while _ _ body, hp, hj | loop _ body, hp, hj | .for _ _ _ body, hp, hj => by
    simp only [jumps, Bool.and_eq_true, decide_eq_true_eq] at hj
    obtain ⟨rfl, hj⟩ := hj
    have allowed : Jump.allowed true inFunction .return := allowed_of_anyJumps body hp hj
    exact allowed
  | var .., _, hj | define .., _, hj | assign .., _, hj | function .., _, hj | «include» .., _, hj
  | expr .., _, hj => by simp [jumps] at hj

theorem allowed_of_anyJumps {inLoop inFunction : Bool} {jump : Jump} :
    ∀ stmts : List Stmt, allPlaced inLoop inFunction stmts → anyJumps jump stmts →
      jump.allowed inLoop inFunction
  | [], _, hj => by simp [anyJumps] at hj
  | s :: rest, hp, hj => by
    simp only [allPlaced, Bool.and_eq_true] at hp
    simp only [anyJumps, Bool.or_eq_true] at hj
    exact hj.elim (allowed_of_jumps s hp.1) (allowed_of_anyJumps rest hp.2)

end

end Stmt

def Code.placed : Code where
  expr _ := True
  stmt s := ∃ inLoop inFunction, s.placed inLoop inFunction
  top s := s.placed false false
  body s := s.placed false true
  expr_children _ _ := trivial
  stmt_exprs _ _ := trivial
  stmt_children h hc := by
    obtain ⟨inLoop, inFunction, h⟩ := h
    obtain ⟨inLoop', h⟩ := Stmt.placed_of_mem_children h hc
    exact ⟨inLoop', inFunction, h⟩
  function_body h hs := by
    obtain ⟨inLoop, inFunction, h⟩ := h
    exact Stmt.allPlaced_iff.mp h _ hs
  top_stmt h := ⟨false, false, h⟩
  body_stmt h := ⟨false, true, h⟩

/-- Whether all code that an interpreter may come to run has its jumps where they may be, and its
builtins are standard ones. -/
structure Interpreter.Placed (m : Interpreter) : Prop where
  host : m.OffersOnly (· ∈ Standard.builtins)
  functions : ∀ name f, m.functions.user.get? name = some f → Stmt.allPlaced false true f.body
  modules : ∀ name text program, m.source.fetch name = .found text →
    parseProgram text.source = .ok program → Stmt.allPlaced false false program

namespace Interpreter.Placed

variable {m : Interpreter}

theorem of_eq (h : m.Placed) {m' : Interpreter} (functions : m'.functions = m.functions)
    (source : m'.source = m.source) : m'.Placed where
  host := h.host.of_eq functions
  functions := functions ▸ h.functions
  modules := source ▸ h.modules

theorem apply (h : m.Placed) {c : Change} (hc : c.KeepsHost)
    (hf : ∀ f, c = .define f → Stmt.allPlaced false true f.body) : (c.apply m).Placed where
  host := h.host.apply hc.ne_addBuiltin
  functions := by
    intro name g hg
    rcases Change.user_of_apply hg with rfl | hg
    · exact hf g rfl
    · exact h.functions name g hg
  modules := by
    rw [Interpreter.source_apply hc]
    exact h.modules

end Interpreter.Placed

namespace Contract

/-- Well placed code raises no error about a jump. -/
abbrev placement : Contract where
  Ghost := Unit
  code _ := .placed
  Inv _ m _ := m.Placed
  Fail _ e _ _ := e.kind ≠ .controlFlow
  HostFail _ e _ _ := e.kind ≠ .controlFlow
  Stop _ _ := True
  Raises cause := cause.kind ≠ .controlFlow
  Acts _ _ action _ := action.Plain

/-- Nothing is asked of the host or the code. -/
abbrev free : Contract where
  Ghost := Unit
  code _ := .all
  Inv _ _ _ := True
  Fail _ _ _ _ := True
  HostFail _ _ _ _ := True
  Stop _ _ := True
  Raises _ := True
  Acts _ _ _ _ := True

theorem free_closes {possible : Interpreter → Bool} {undo : Interpreter → Interpreter}
    {events : History} : free.Closes () () possible undo events :=
  .of_stop (fun _ _ _ => trivial) (fun _ _ _ _ => trivial) (fun _ _ _ => trivial)
    fun _ _ _ _ => trivial

theorem free_kept : free.Kept where
  started _ _ _ := trivial
  changed _ _ := trivial
  defined _ _ := trivial
  raises _ := trivial
  raisesTop _ _ := trivial
  raisesBody _ _ _ _ := trivial
  thrown _ _ _ := trivial
  located _ _ := trivial
  overflowed _ _ _ := trivial
  scope _ := ⟨(), rfl, trivial, free_closes⟩
  call _ _ _ _ _ := ⟨(), fun _ _ => trivial, trivial, free_closes⟩
  missed _ _ _ _ _ := trivial
  awaited _ _ _ := trivial
  module _ _ _ _ := ⟨(), fun _ _ => trivial, trivial, free_closes⟩
  builtin _ _ _ _ := trivial
  step _ _ := step_of_any trivial (fun _ => trivial) (fun _ _ _ _ => trivial) (fun _ => trivial)
    (fun _ => trivial) trivial (fun _ => trivial) trivial
  halted _ _ := trivial

theorem placement_closes {possible : Interpreter → Bool} {undo : Interpreter → Interpreter}
    {events : History} (functions : ∀ m, (undo m).functions = m.functions)
    (source : ∀ m, (undo m).source = m.source) :
    placement.Closes () () possible undo events :=
  .of_stop (fun m _ inv => inv.of_eq (functions m) (source m)) (fun _ _ _ failed => failed)
    (fun _ _ _ => trivial) fun _ _ _ _ => trivial

theorem placement_kept : placement.Kept where
  started _ _ inv := inv
  changed own inv := inv.apply own.keepsHost fun f hf => by simp [hf, Change.IsOwn] at own
  defined hs inv := inv.apply trivial fun f hf => by
    obtain rfl := Change.define.inj hf
    exact Stmt.allPlaced_iff.mpr hs
  raises own := own.kind_ne.1
  raisesTop {_ s jump} top hj := by
    have allowed := Stmt.allowed_of_jumps s top hj
    cases jump <;> cases allowed
  raisesBody {_ s jump} _ body hj hr := by
    have allowed := Stmt.allowed_of_jumps s body hj
    cases jump with
    | «return» => exact absurd rfl hr
    | «break» => cases allowed
    | «continue» => cases allowed
  thrown _ raises _ := raises
  located _ hf := hf
  overflowed _ _ _ := by simp [RuntimeError.kind, CallStack.overflow, Cause.kind]
  scope inv := ⟨(), rfl, inv.of_eq rfl rfl, placement_closes (fun _ => rfl) fun _ => rfl⟩
  call {_ m _ _ f _ _} _ inv _ hr _ := by
    have body := inv.functions _ f (FunctionTable.user_of_resolve hr)
    exact ⟨(), Stmt.allPlaced_iff.mp body, inv.of_eq rfl rfl,
      placement_closes (fun _ => rfl) fun _ => rfl⟩
  missed inv _ _ _ _ := inv.of_eq rfl rfl
  awaited _ _ _ := trivial
  module inv _ hf hp := by
    have program := inv.modules _ _ _ hf hp
    exact ⟨(), Stmt.allPlaced_iff.mp program, inv.of_eq rfl rfl,
      placement_closes (fun _ => rfl) fun _ => rfl⟩
  builtin inv _ hr hv := Standard.plain_of_mem (inv.host.of_resolve hr) hv
  step plain inv := by
    refine step_of_plain plain inv id (fun hc => inv.apply hc.keepsHost fun f hf => ?_) ?_ ?_
    · simp [hf, Change.IsPlain] at hc
    · exact fun console => inv.of_eq rfl rfl
    · simp [RuntimeError.kind, RuntimeError.unplaced, Cause.kind]
  halted _ _ := trivial

end Contract

def Stmt.isLoop : Stmt → Bool
  | .while .. | .loop .. | .for .. => true
  | _ => false

theorem Signal.From.of_isLoop {s : Stmt} {signal : Signal} (h : signal.From (s.jumps ·))
    (hs : s.isLoop) : signal ≠ .break ∧ signal ≠ .continue := by
  cases s with
  | «while» | loop | «for» =>
    constructor <;>
      · rintro rfl
        simp [Signal.From, Stmt.jumps] at h
  | _ => cases hs

/-- With standard builtins alone, a program whose jumps are where they may be, run where the same
holds of all functions and modules, never ends with an error about a jump. And whatever runs, a
loop ends with no `break` or `continue`, and a statement with no jump that is not inside it. -/
theorem placed_never_controlFlow :
    (∀ (fuel : Nat) (m : Interpreter) (program : Program), m.Placed →
      Stmt.allPlaced false false program → ∀ e m', Run.runProgram fuel program m = .error e m' →
        e.kind ≠ .controlFlow) ∧
    ∀ (fuel : Nat) (m : Interpreter) (s : Stmt) (signal : Signal) (m' : Interpreter),
      Run.execute fuel s m = .value signal m' →
        (s.isLoop → signal ≠ .break ∧ signal ≠ .continue) ∧
        (signal = .break → s.jumps .break) ∧ (signal = .continue → s.jumps .continue) ∧
          ∀ value, signal = .return value → s.jumps .return := by
  constructor
  · intro fuel m program inv code e m' run
    have ended := Contract.placement_kept.run (i := ()) fuel (.runProgram none program)
      ⟨inv, Stmt.allPlaced_iff.mp code⟩
    rw [show (Job.runProgram none program).run fuel m = .error e m' from run] at ended
    exact ended
  · intro fuel m s signal m' run
    have ended := Contract.free_kept.run (i := ()) (m := m) fuel (.execute s) ⟨trivial, trivial⟩
    rw [show (Job.execute s).run fuel m = .value signal m' from run] at ended
    have from_jumps : signal.From (s.jumps ·) := ended.1
    refine ⟨from_jumps.of_isLoop, ?_, ?_, ?_⟩
    · rintro rfl
      exact from_jumps
    · rintro rfl
      exact from_jumps
    · rintro value rfl
      exact from_jumps

def Interpreter.withLoop : Interpreter :=
  { fresh with source := .table [("lib", "loop \x7b break \x7d")] }

theorem Interpreter.placed_withLoop : withLoop.Placed where
  host := offersOnly_fresh
  functions _ _ h := by cases h
  modules name text program hf hp := by
    have placed : (parseProgram "loop \x7b break \x7d").toOption.map
        (Stmt.allPlaced false false) = some true := by
      decide +kernel
    by_cases hn : "lib" = name
    · obtain rfl : (⟨name, "loop \x7b break \x7d"⟩ : ModuleText) = text := by
        simpa [withLoop, ModuleSource.fetch, Dictionary.get?, hn] using hf
      rw [hp] at placed
      exact Option.some.inj placed
    · simp [withLoop, ModuleSource.fetch, Dictionary.get?, hn] at hf

/-- A loop in a function that is left by a `return`, which fails. -/
def Program.includingLoop : Program := [
  .include ⟨0, 1, 1⟩ "lib",
  .function ⟨1, 2, 2⟩ "f" [] [
    .loop ⟨3, 4, 3⟩ [.return ⟨4, 5, 4⟩ (some (.name ⟨5, 6, 4⟩ "missing"))]],
  .expr ⟨7, 8, 5⟩ (.call ⟨7, 8, 5⟩ "f" [])]

theorem placed_never_controlFlow_includingLoop :
    ∃ e m, Run.runProgram 40 .includingLoop .withLoop = .error e m ∧ e.kind ≠ .controlFlow := by
  have fails : (Run.runProgram 40 .includingLoop .withLoop).error?.isSome := by
    decide +kernel
  obtain ⟨e, failed⟩ := Option.isSome_iff_exists.mp fails
  obtain ⟨m, run⟩ := Outcome.error?_eq_some.mp failed
  exact ⟨e, m, run, placed_never_controlFlow.1 40 .withLoop .includingLoop
    Interpreter.placed_withLoop rfl e m run⟩

end Script
