import Script.Proofs.Balance
import Script.Proofs.Checked.Evaluation
import Script.Proofs.Grammar.Cursor
import Script.Proofs.Lexing.SourceSlice

namespace Script

variable {m : Interpreter}

/-- With standard builtins, a text is evaluated alike with and without checks. -/
theorem Run.evaluateSourceChecked_eq (fuel : Nat) (text : String)
    (host : m.OffersOnly (· ∈ Standard.builtins)) :
    evaluateSourceChecked fuel text m = evaluateSource fuel text m := by
  have standard : m.StaysStandard [] := ⟨host, nofun⟩
  exact Plan.runChecked_eq (fun _ j m h => Job.record_outcome fuel j m h)
    (fun _ j m h => Job.prefix_record fuel j m h) (fun _ j _ _ quiet => j.runChecked_eq fuel quiet)
    (Plan.evaluateSource text) (Plan.usual_evaluateSource fuel text standard).neverPops

theorem Run.evaluateSource_ne_fault (fuel : Nat) (text : String)
    (host : m.OffersOnly (· ∈ Standard.builtins)) (m' : Interpreter) :
    evaluateSource fuel text m ≠ .halted .fault m' := by
  have inv : Contract.balance.Inv m.shape m [] :=
    ⟨rfl, host.imp fun _ => Standard.restores_of_mem⟩
  obtain ⟨h, ended⟩ := Contract.balance_kept.run_evaluateSource (E := fun _ _ _ => True) fuel inv
    text fun _ _ _ _ => trivial
  intro faults
  rw [faults] at ended
  exact ended rfl

/-- Nothing reaches for what is not there. Lexemes are cut out of a text where they stand in it; a
parser's cursor stays on the tokens and has read one when it asks for the last one read; and an
evaluation with standard builtins, which take their arguments out by position, goes with checks of
every access to a scope, to the calls, to an element and to a part of a path of indices as it goes
without them, and never faults. -/
theorem evaluation_faultless (fuel : Nat) (text : String)
    (host : m.OffersOnly (· ∈ Standard.builtins)) :
    (∀ source, cutFrom? source .first source.toList = some (tokenize source)) ∧
      (∀ source tokens, tokenize source = .ok tokens → Parser.StaysOn tokens) ∧
      Run.evaluateSourceChecked fuel text m = Run.evaluateSource fuel text m ∧
      ∀ m', Run.evaluateSourceChecked fuel text m ≠ .halted .fault m' := by
  have same := Run.evaluateSourceChecked_eq fuel text host
  refine ⟨cutFrom?_first, fun _ _ => Parser.staysOn_tokenize, same, fun m' => ?_⟩
  rw [same]
  exact Run.evaluateSource_ne_fault fuel text host m'

/-- An interpreter that finds a module with a function that replaces elements of nested arrays. -/
def Interpreter.withRows : Interpreter :=
  { fresh with
    source := .table [("lib", "define rows = [[1, 2], [3]]\n" ++
      "func put(row, v) \x7b rows[row][0] = v return len(rows[row]) \x7d")] }

theorem Interpreter.offersOnly_withRows :
    withRows.OffersOnly (· ∈ Standard.builtins) := offersOnly_fresh.of_eq rfl

/-- The second of these calls asks for a row that is not there. -/
def missingRow : String := "include \"lib\"\nput(1, [4])\nput(2, range(3, 5)[0])"

theorem evaluation_faultless_missingRow :
    (∀ tokens, tokenize missingRow = .ok tokens → Parser.StaysOn tokens) ∧
      ∃ e m, Run.evaluateSourceChecked 40 missingRow .withRows =
        .value (.error (.runtime e)) m := by
  obtain ⟨-, stays, same, -⟩ := evaluation_faultless 40 missingRow Interpreter.offersOnly_withRows
  have stops : (Run.evaluateSource 40 missingRow .withRows).runtimeError?.isSome := by
    decide +kernel
  exact ⟨stays missingRow, same ▸ Outcome.exists_of_runtimeError? stops⟩

end Script
