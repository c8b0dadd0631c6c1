import Script.Proofs.Everywhere
import Script.Proofs.Fuel
import Script.Proofs.Trace
import Script.Proofs.Unaware

namespace Script

namespace Outcome

variable {α β : Type} {initial limit : Nat}

def withLimits (initial limit : Nat) : Outcome α → Outcome α
  | value a m => value a (m.withLimits initial limit)
  | error e m => error e (m.withLimits initial limit)
  | halted reason m => halted reason (m.withLimits initial limit)

/-- Whether an outcome is another one under a limit that is at least as high. -/
structure Mirrors (initial limit : Nat) (first second : Outcome α) : Prop where
  eq : second = first.withLimits initial limit
  below : first.state.calls.limit ≤ limit

theorem Mirrors.attempt {first second : Outcome α} (h : Mirrors initial limit first second) :
    Mirrors initial limit first.attempt second.attempt := by
  obtain ⟨rfl, below⟩ := h
  cases first <;> exact ⟨rfl, below⟩

theorem Mirrors.close {first second : Outcome α} (h : Mirrors initial limit first second)
    {possible : Interpreter → Bool} {undo : Interpreter → Interpreter}
    (hp : ∀ m, possible (m.withLimits initial limit) = possible m)
    (hu : ∀ m, undo (m.withLimits initial limit) = (undo m).withLimits initial limit)
    (hl : ∀ m, (undo m).calls.limit = m.calls.limit) :
    Mirrors initial limit (first.close possible undo) (second.close possible undo) := by
  obtain ⟨rfl, below⟩ := h
  cases first with
  | value a m | error e m =>
    simp only [Outcome.close, withLimits, hp, hu]
    split
    · exact ⟨rfl, Nat.le_trans (Nat.le_of_eq (hl m)) below⟩
    · exact ⟨rfl, below⟩
  | halted reason m => exact ⟨rfl, below⟩

theorem noting_fst (event : Event) (h : History) (o : Outcome α) : (o.noting event h).1 = o := by
  cases o <;> rfl

end Outcome

namespace Event

def IsUnaware : Event → Prop
  | started job _ => job.IsUnaware
  | _ => True

def IsOverflow : Event → Prop
  | thrown e _ => e.kind = .stackOverflow
  | _ => False

end Event

/-- Whether nothing has been started that may depend on the recursion limit, and no call has been
one too many. -/
structure History.Calm (h : History) : Prop where
  unaware : ∀ event ∈ h, event.IsUnaware
  fits : ∀ event ∈ h, ¬event.IsOverflow

theorem History.Calm.of_prefix {before h : History} (calm : h.Calm) (hb : before <+: h) :
    before.Calm :=
  ⟨fun event he => calm.unaware event (hb.subset he),
    fun event he => calm.fits event (hb.subset he)⟩

section Mirror

variable {α : Type} {initial limit : Nat} {recorded : Recorder} {job : Runner}

/-- Whether jobs give the same under a higher limit as long as all is calm. -/
def Runner.Reflects (initial limit : Nat) (recorded : Recorder) (job : Runner) : Prop :=
  ∀ (β : Type) (j : Job β) (m : Interpreter) (h : History), m.calls.limit ≤ limit →
    (recorded β j m h).2.Calm →
      (recorded β j m h).1.Mirrors initial limit (job β j (m.withLimits initial limit))

theorem Plan.Unaware.mirrors {x : Plan α} (unaware : x.Unaware)
    (reflects : Runner.Reflects initial limit recorded job)
    (kept : ∀ (β : Type) (j : Job β) (m : Interpreter) (h : History), h <+: (recorded β j m h).2)
    (m : Interpreter) (h : History) (below : m.calls.limit ≤ limit)
    (calm : History.Calm (x.record recorded m h).2) :
    (x.record recorded m h).1.Mirrors initial limit (x.run job (m.withLimits initial limit)) := by
  have earlier {β : Type} (y : Plan β) (m : Interpreter) (h : History) :
      h <+: (y.record recorded m h).2 := Plan.prefix_record kept y m h
  induction unaware generalizing m h with
  | pure a => exact ⟨rfl, below⟩
  | @bind _ _ x next ux un ihx ihn =>
    simp only [record] at calm ⊢
    have first := ihx m h below
    generalize x.record recorded m h = r at calm first ⊢
    obtain ⟨o, before⟩ := r
    cases o with
    | value b inner =>
      have mirrors := first (calm.of_prefix (earlier (next b) inner before))
      have second : x.run job (m.withLimits initial limit) =
          .value b (inner.withLimits initial limit) := mirrors.eq
      simpa only [run, second, Outcome.bind] using ihn b inner before mirrors.below calm
    | error | halted =>
      have mirrors := first calm
      exact ⟨by simp only [run, mirrors.eq]; rfl, mirrors.below⟩
  | get_bind same _ ih =>
    have second := ih m m h below calm
    simpa only [record, run, Outcome.bind, same initial limit m] using second
  | start j => exact reflects _ j m h below calm
  | @change c hc =>
    cases c with
    | setLimit other => exact absurd rfl (hc other)
    | _ => exact ⟨rfl, below⟩
  | readLine =>
    have world : (m.withLimits initial limit).world = m.world := rfl
    simp only [record, run, Run.readLine, world]
    rcases m.world.console.readLine with ⟨line, console⟩
    cases line <;> exact ⟨rfl, below⟩
  | attempt _ ih => exact (ih m h below calm).attempt
  | withScope _ ih =>
    exact (ih m.enterScope h below calm).close (fun _ => rfl) (fun _ => rfl) fun _ => rfl
  | withCall frame span _ ih =>
    simp only [record] at calm ⊢
    split at calm
    next full =>
      exact absurd rfl (calm.fits (.thrown (m.calls.overflow span) m.calls) (by simp))
    next free =>
      have room : ¬(m.withLimits initial limit).calls.isFull := by
        simp only [CallStack.isFull, decide_eq_true_eq, Nat.not_le] at free ⊢
        exact Nat.lt_of_lt_of_le free below
      simp only [run, Run.withCall, if_neg free, if_neg room, Outcome.noting_fst]
      have inner := ih (m.enterCall frame) _ below (calm.of_prefix (Outcome.prefix_noting _ _ _))
      exact inner.close (fun _ => rfl) (fun _ => rfl) fun _ => rfl
  | withModule origin _ ih =>
    simp only [record, run, Run.withModule, Outcome.noting_fst] at calm ⊢
    have inner := ih (m.enterModule origin) _ below (calm.of_prefix (Outcome.prefix_noting _ _ _))
    exact inner.close (fun _ => rfl) (fun _ => rfl) fun _ => rfl
  | _ => exact ⟨rfl, below⟩

end Mirror

theorem Job.reflects (initial limit fuel : Nat) :
    Runner.Reflects initial limit (fun _ j => Job.record fuel j) (Job.runner fuel) := by
  induction fuel with
  | zero => exact fun β j m h below calm => ⟨rfl, below⟩
  | succ fuel ih =>
    intro β j m h below calm
    have begun : History.Calm (h ++ [.started j m.calls]) :=
      calm.of_prefix (Plan.prefix_record (fun _ => Job.prefix_record fuel) j.plan m _)
    have started : j.IsUnaware := begun.unaware (.started j m.calls) (by simp)
    exact (Job.IsUnaware.plan started).mirrors ih (fun _ => Job.prefix_record fuel) m _ below calm

/-- A call of a name by which a program can learn or set the recursion limit. -/
def Expr.concernsLimit (e : Expr) : Bool :=
  e.isCallOf "get_recursion_limit" || e.isCallOf "set_recursion_limit"

abbrev Code.unaware : Code := .every (fun _ => true) (!·.concernsLimit)

/-- What holds in the course of an evaluation with standard builtins where no code has a call that
concerns the recursion limit. -/
structure Interpreter.Unaware (m : Interpreter) (h : History) : Prop where
  host : m.OffersStandard
  code : m.Holds (fun _ => true) (!·.concernsLimit)
  past : ∀ event ∈ h, event.IsUnaware

namespace Interpreter.Unaware

variable {m m' : Interpreter} {h : History}

theorem later (u : m.Unaware h) {events : History} (functions : m'.functions = m.functions)
    (source : m'.source = m.source)
    (unaware : ∀ event ∈ events, event.IsUnaware := by simp [Event.IsUnaware, Job.IsUnaware]) :
    m'.Unaware (h ++ events) where
  host := u.host.of_eq functions
  code := u.code.of_eq (congrArg _ functions) source
  past := List.forall_mem_append.mpr ⟨u.past, unaware⟩

theorem changed (u : m.Unaware h) {c : Change} (hc : c.KeepsHost)
    (hf : ∀ f, c = .define f → Stmt.everyIn (fun _ => true) (!·.concernsLimit) f.body) :
    (c.apply m).Unaware (h ++ [.changed c]) where
  host := u.host.apply hc.ne_addBuiltin
  code := u.code.apply (Interpreter.source_apply hc) hf
  past := List.forall_mem_append.mpr ⟨u.past, by simp [Event.IsUnaware]⟩

end Interpreter.Unaware

namespace Contract

/-- No host function is called that has to do with the recursion limit. -/
abbrev unawareness : Contract where
  Ghost := Unit
  code _ := .unaware
  Inv _ := Interpreter.Unaware
  Fail _ _ := Interpreter.Unaware
  HostFail _ _ := Interpreter.Unaware
  Stop _ h := ∀ event ∈ h, event.IsUnaware
  Raises _ := True
  Acts _ _ action _ := action.Modest False False

theorem unawareness_closes {possible : Interpreter → Bool} {undo : Interpreter → Interpreter}
    {events : History}
    (closed : ∀ m h, m.Unaware h → (undo m).Unaware (h ++ events)) :
    unawareness.Closes () () possible undo events :=
  .of_stop closed (fun _ => closed) (fun _ _ inv => inv.past) fun _ _ _ inv => inv.past

theorem unawareness_step {action : HostAction} {m : Interpreter} {h : History}
    (modest : action.Modest False False) (inv : m.Unaware h) :
    unawareness.Step () () m h action := by
  cases modest with
  | ok value => exact inv
  | refuse error => exact inv
  | observe same hn => exact hn m.calls
  | setLimit allowed => exact allowed.elim
  | print text hn => exact ⟨(), inv.later rfl rfl, hn⟩
  | readLine hn =>
    refine fun line console _ hl => ⟨(), ?_, hn line hl⟩
    have read : (m.withConsole console).Unaware (h ++ []) := inv.later rfl rfl
    simpa using read

theorem unawareness_kept : unawareness.Kept where
  started {_ _ m _} job licensed inv := by
    have unaware : job.IsUnaware := by
      cases job with
      | perform action => exact licensed.elim fun _ modest => modest
      | _ => trivial
    exact inv.later rfl rfl (by simpa [Event.IsUnaware] using unaware)
  changed own inv := inv.changed own.keepsHost fun f hf => by simp [hf, Change.IsOwn] at own
  defined body inv := by
    refine inv.changed trivial fun f hf => ?_
    obtain rfl := Change.define.inj hf
    exact Stmt.everyIn_iff.mpr body
  raises _ := trivial
  raisesTop _ _ := trivial
  raisesBody _ _ _ _ := trivial
  thrown _ _ inv := inv.later rfl rfl
  located _ inv := inv.later rfl rfl
  overflowed _ inv _ := inv.later rfl rfl
  scope {_ m h} inv := by
    have entered : m.enterScope.Unaware (h ++ []) := inv.later rfl rfl
    exact ⟨(), rfl, by simpa using entered, unawareness_closes fun m h inv => inv.later rfl rfl⟩
  call values inv _ hr _ := by
    have body := inv.code.functions _ _ (FunctionTable.user_of_resolve hr)
    exact ⟨(), Stmt.everyIn_iff.mp body, inv.later rfl rfl,
      unawareness_closes fun m h inv => inv.later rfl rfl⟩
  missed inv _ _ _ _ := inv.later rfl rfl
  awaited inv _ _ := List.forall_mem_append.mpr ⟨inv.past, by simp [Event.IsUnaware]⟩
  module inv _ found parsed := by
    have code := inv.code.modules _ _ _ found parsed
    exact ⟨(), Stmt.everyIn_iff.mp code, inv.later rfl rfl,
      unawareness_closes fun m h inv => inv.later rfl rfl⟩
  builtin {_ _ _ name _ span arguments _} inv code hr hv := by
    have other : ¬(Expr.call span name arguments).concernsLimit := by
      simpa using (Expr.every_iff.mp code).1
    simp only [Expr.concernsLimit, Expr.isCallOf, Bool.or_eq_true, decide_eq_true_eq,
      not_or] at other
    exact (inv.host.modest_of_resolve hr hv).imp other.1 other.2
  step modest inv := unawareness_step modest inv
  halted _ inv := inv.past

end Contract

theorem Event.IsOverflow.isThrown {event : Event} (h : event.IsOverflow) : event.IsThrown := by
  cases event with
  | thrown => trivial
  | _ => exact h.elim

theorem History.Raised.fits {calls : List Frame} {e : RuntimeError} {h : History}
    (raised : h.Raised calls e) (other : e.kind ≠ .stackOverflow) :
    ∀ event ∈ h, ¬event.IsOverflow := by
  obtain ⟨before, stack, after, rfl, quiet, closing, -⟩ := raised.thrown
  intro event he overflow
  rcases List.mem_append.mp he with he | he
  · exact quiet event he overflow.isThrown
  rcases List.mem_cons.mp he with rfl | he
  · exact other overflow
  · have closes := closing event he
    cases event with
    | thrown => exact closes
    | _ => exact overflow

/-- A calm evaluation goes the same way under a higher limit. -/
theorem Job.run_withLimits {α : Type} {initial limit fuel : Nat} {j : Job α} {m : Interpreter}
    (higher : m.calls.limit ≤ limit) (calm : (j.history fuel m).Calm) :
    j.run fuel (m.withLimits initial limit) = (j.run fuel m).withLimits initial limit := by
  rw [← Job.record_outcome fuel j m []]
  exact (Job.reflects initial limit fuel α j m [] higher calm).eq

/-- With standard builtins, and no call of the names that get and set the recursion limit in any
code, a higher limit changes nothing about a run that has not exceeded the lower one. The limit
that the interpreter was set up with does not matter at all. -/
theorem runProgram_withLimits (fuel initial limit : Nat) (m : Interpreter) (program : Program)
    (host : m.OffersStandard) (code : m.Holds (fun _ => true) (!·.concernsLimit))
    (unaware : Stmt.everyIn (fun _ => true) (!·.concernsLimit) program)
    (higher : m.calls.limit ≤ limit) :
    (∀ value m', Run.runProgram fuel program m = .value value m' →
      Run.runProgram fuel program (m.withLimits initial limit) =
        .value value (m'.withLimits initial limit)) ∧
    ∀ e m', Run.runProgram fuel program m = .error e m' → e.kind ≠ .stackOverflow →
      Run.runProgram fuel program (m.withLimits initial limit) =
        .error e (m'.withLimits initial limit) := by
  let job : Job Value := .runProgram none program
  have inv : m.Unaware [] := ⟨host, code, by simp⟩
  have tracing := Tracing.start host.offersOnly
  have past := Contract.unawareness_kept.run (i := ()) fuel job ⟨inv, Stmt.everyIn_iff.mp unaware⟩
  have raised := (Contract.tracing_kept m.calls.trace).run (i := []) fuel job
    ⟨tracing, fun _ _ => trivial⟩
  constructor
  · intro value m' run
    rw [show job.run fuel m = .value value m' from run] at past raised
    have calm : (job.history fuel m).Calm :=
      ⟨past.2.past, fun event he overflow => raised.2.quiet event he overflow.isThrown⟩
    exact (Job.run_withLimits higher calm).trans (congrArg _ run)
  · intro e m' run other
    rw [show job.run fuel m = .error e m' from run] at past raised
    have calm : (job.history fuel m).Calm := ⟨past.past, raised.raised.fits other⟩
    exact (Job.run_withLimits higher calm).trans (congrArg _ run)

theorem Value.int?_eq_some {v : Value} {n : Int64} : v.int? = some n ↔ v = .int n := by
  cases v <;> simp [int?]

/-- A module with a function that calls itself as often as its first argument says, and then
divides by its second one. -/
def Interpreter.withCountdown : Interpreter :=
  { fresh with source := .table [("lib", "func f(n, d) \x7b\n" ++
    " if n > 0 \x7b return f(n - 1, d) \x7d\n return 12 / d\n\x7d")] }

/-- Three calls, each in the course of the one before, and a division. -/
def Program.countingDown (divisor : Int64) : Program :=
  [.include ⟨0, 1, 1⟩ "lib", .expr ⟨2, 3, 2⟩ (.call ⟨2, 3, 2⟩ "f"
    [.literal ⟨3, 4, 2⟩ (.int 2), .literal ⟨5, 6, 2⟩ (.int divisor)])]

theorem runProgram_withLimits_countingDown :
    (∃ m, Run.runProgram 60 (.countingDown 4) (Interpreter.withCountdown.withLimits 3 3) =
        .value (.int 3) m ∧
      Run.runProgram 60 (.countingDown 4) Interpreter.withCountdown =
        .value (.int 3) (m.withLimits 100 100)) ∧
    ∃ e m, Run.runProgram 60 (.countingDown 0) (Interpreter.withCountdown.withLimits 3 3) =
        .error e m ∧
      Run.runProgram 60 (.countingDown 0) Interpreter.withCountdown =
        .error e (m.withLimits 100 100) := by
  have host : Interpreter.withCountdown.OffersStandard := Interpreter.offersStandard_bare _ _ _
  have code : Interpreter.withCountdown.Holds (fun _ => true) (!·.concernsLimit) :=
    .of_text rfl rfl (by decide +kernel)
  have raised (divisor : Int64) :=
    runProgram_withLimits 60 100 100 (Interpreter.withCountdown.withLimits 3 3)
      (.countingDown divisor) (host.of_eq rfl) (code.of_eq rfl rfl) rfl (by decide)
  constructor
  · have ends : (Run.runProgram 60 (.countingDown 4)
        (Interpreter.withCountdown.withLimits 3 3)).value?.bind Value.int? = some 3 := by
      decide +kernel
    obtain ⟨value, ended, three⟩ := Option.bind_eq_some_iff.mp ends
    obtain ⟨m, run⟩ := Outcome.value?_eq_some.mp ended
    obtain rfl := Value.int?_eq_some.mp three
    exact ⟨m, run, (raised 4).1 _ m run⟩
  · have fails : (Run.runProgram 60 (.countingDown 0)
        (Interpreter.withCountdown.withLimits 3 3)).error?.map RuntimeError.kind =
          some .runtime := by
      decide +kernel
    obtain ⟨e, failed, kind⟩ := Option.map_eq_some_iff.mp fails
    obtain ⟨m, run⟩ := Outcome.error?_eq_some.mp failed
    exact ⟨e, m, run, (raised 0).2 e m run (by simp [kind])⟩

end Script
