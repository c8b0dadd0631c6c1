import Script.Proofs.Loading

namespace Script

/-- Whether programs make a change by themselves, or standard builtins do. -/
def Change.IsUsual : Change → Prop
  | declare .. | declareGlobal .. | assign .. | define _ | mark _ | retain _ | setLimit _
  | print _ => True
  | _ => False

namespace Change

variable {c : Change}

theorem IsOwn.isUsual (h : c.IsOwn) : c.IsUsual := by
  cases c <;> trivial

theorem IsPlain.isUsual (h : c.IsPlain) : c.IsUsual := by
  cases c <;> trivial

theorem IsUsual.ne_addBuiltin (h : c.IsUsual) (b : Builtin) : c ≠ .addBuiltin b := by
  rintro rfl
  exact h

theorem IsUsual.ne_popScope (h : c.IsUsual) : c ≠ .popScope := by
  rintro rfl
  exact h

end Change

def History.Usual (h : History) : Prop := ∀ c, .changed c ∈ h → c.IsUsual

theorem History.Usual.append {h events : History} (usual : h.Usual) (others : events.Usual) :
    Usual (h ++ events) := by
  intro c hc
  rcases List.mem_append.mp hc with earlier | later
  · exact usual c earlier
  · exact others c later

/-- Whether an interpreter has standard builtins only, and only usual changes have been made. -/
structure Interpreter.StaysStandard (m : Interpreter) (h : History) : Prop where
  host : m.OffersOnly (· ∈ Standard.builtins)
  usual : h.Usual

namespace Interpreter.StaysStandard

variable {m m' : Interpreter} {h : History}

theorem note (s : m.StaysStandard h) {events : History} (functions : m'.functions = m.functions)
    (others : events.Usual := by simp [History.Usual, Change.IsUsual]) :
    m'.StaysStandard (h ++ events) :=
  ⟨s.host.of_eq functions, s.usual.append others⟩

theorem apply (s : m.StaysStandard h) {c : Change} (hc : c.IsUsual) :
    (c.apply m).StaysStandard (h ++ [.changed c]) := by
  refine ⟨s.host.apply hc.ne_addBuiltin, s.usual.append fun other ho => ?_⟩
  obtain rfl := Event.changed.inj (List.mem_singleton.mp ho)
  exact hc

end Interpreter.StaysStandard

namespace Contract

/-- Evaluations with standard builtins make usual changes only. -/
abbrev standing : Contract where
  Ghost := Unit
  code _ := .all
  Inv _ m h := m.StaysStandard h
  Fail _ _ m h := m.StaysStandard h
  HostFail _ _ m h := m.StaysStandard h
  Stop _ h := h.Usual
  Raises _ := True
  Acts _ _ action _ := action.Plain

theorem standing_closes {possible : Interpreter → Bool} {undo : Interpreter → Interpreter}
    {events : History} (functions : ∀ m, (undo m).functions = m.functions)
    (others : events.Usual := by simp [History.Usual]) :
    standing.Closes () () possible undo events :=
  .of_stop (fun m _ inv => inv.note (functions m) others)
    (fun _ m _ inv => inv.note (functions m) others) (fun _ _ inv => inv.usual)
    fun _ _ _ inv => inv.usual

theorem standing_kept : standing.Kept where
  started _ _ inv := inv.note rfl
  changed own inv := inv.apply own.isUsual
  defined _ inv := inv.apply trivial
  raises _ := trivial
  raisesTop _ _ := trivial
  raisesBody _ _ _ _ := trivial
  thrown _ _ inv := inv.note rfl
  located _ inv := inv.note rfl
  overflowed _ inv _ := inv.note rfl
  scope inv := ⟨(), rfl, ⟨inv.host.of_eq rfl, inv.usual⟩, standing_closes fun _ => rfl⟩
  call _ inv _ _ _ := ⟨(), fun _ _ => trivial, inv.note rfl, standing_closes fun _ => rfl⟩
  missed inv _ _ _ _ := inv.note rfl
  awaited inv _ _ := inv.usual.append (by simp [History.Usual, Change.IsUsual])
  module inv _ _ _ := ⟨(), fun _ _ => trivial, inv.note rfl, standing_closes fun _ => rfl⟩
  builtin inv _ hr hv := Standard.plain_of_mem (inv.host.of_resolve hr) hv
  step plain inv := by
    refine step_of_plain plain inv (fun plain => plain) (fun hc => ?_) (fun _ => ?_) fun _ => inv
    · exact inv.apply hc.isUsual
    · exact ⟨inv.host.of_eq rfl, inv.usual⟩
  halted _ inv := inv.usual

end Contract

section Record

variable {α : Type} {m : Interpreter} {h : History} (fuel : Nat)

theorem Job.standard_record {j : Job α} (run : j.IsRun) (s : m.StaysStandard h) :
    (j.record fuel m h).2.Usual ∧
      ∀ m', (j.record fuel m h).1.left? = some m' → m'.StaysStandard (j.record fuel m h).2 := by
  have pre : Contract.standing.Pre () j m h :=
    Contract.pre_of_isRun run s (Code.all_admits j)
  have ended := Contract.post_of_isRun run (Contract.standing_kept.meets fuel () j m h pre)
  generalize j.record fuel m h = r at ended ⊢
  rcases r with ⟨a | e | reason, h'⟩
  · have inv : Interpreter.StaysStandard _ h' := ended.elim id fun ⟨_, failed⟩ => failed
    exact ⟨inv.usual, fun _ left => Option.some.inj left ▸ inv⟩
  · have inv : Interpreter.StaysStandard _ h' := ended
    exact ⟨inv.usual, fun _ left => Option.some.inj left ▸ inv⟩
  · exact ⟨ended, nofun⟩

theorem Plan.usual_evaluateSource (text : String) (s : m.StaysStandard h) :
    ((evaluateSource text).record (fun _ j => Job.record fuel j) m h).2.Usual := by
  have ended : (evaluateSource text).Ensures (fun _ j => Job.record fuel j)
      ⟨Contract.standing.Evaluated (), fun _ _ h => h.Usual, Contract.standing.Stop⟩ m h :=
    (Contract.standing_kept.meets fuel).evaluateSource s fun _ _ _ _ => trivial
  unfold Plan.Ensures at ended
  generalize (evaluateSource text).record _ m h = r at ended ⊢
  rcases r with ⟨result | e | reason, h'⟩
  · rcases result with (_ | _) | _ <;> exact Interpreter.StaysStandard.usual ended
  · exact ended
  · exact ended

end Record

end Script
