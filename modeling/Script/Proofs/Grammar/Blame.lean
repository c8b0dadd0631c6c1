import Script.Proofs.Grammar.Lookahead
import Script.Proofs.Grammar.Viability

namespace Script

variable {tokens : List Token} {f : ParseFailure}

theorem parseTokens_eq_error : parseTokens tokens = .error f ↔
    Parser.statementsUntil (parseFuel tokens) .endOfInput tokens = .error f := by
  unfold parseTokens
  split <;> simp_all

/-- What stands in front of a failure can be completed, and fuel never runs out. -/
theorem parseTokens_breaksOff (h : parseTokens tokens = .error f) :
    f.BreaksOff Stmt.WholeUpTo tokens :=
  (Parser.failsStmt _).statementsUntil (by unfold parseFuel; omega) (parseTokens_eq_error.mp h)

theorem statementsUntil_parseFuel {more : Nat} (h : parseFuel tokens ≤ more) :
    Parser.statementsUntil more .endOfInput tokens =
      Parser.statementsUntil (parseFuel tokens) .endOfInput tokens := by
  cases parsed : Parser.statementsUntil (parseFuel tokens) .endOfInput tokens with
  | ok p =>
    obtain ⟨read, rfl, again⟩ := (Parser.localStmt h).statementsUntil.ok parsed
    exact again _ rfl
  | error f =>
    have fueled := (parseTokens_breaksOff (parseTokens_eq_error.mpr parsed)).fueled
    obtain ⟨read, split, again⟩ := (Parser.localStmt h).statementsUntil.error parsed fueled
    rw [split]
    exact again _ rfl

/-- A failure does not depend on anything behind the token where it is. -/
theorem parseTokens_local (h : parseTokens tokens = .error f) :
    ∃ read, tokens = read ++ f.remaining ∧ ∀ rest, rest.head? = f.remaining.head? →
      parseTokens (read ++ rest) = .error ⟨f.error, rest⟩ := by
  have fueled := (parseTokens_breaksOff h).fueled
  rw [parseTokens_eq_error] at h
  obtain ⟨read, split, -⟩ :=
    (Parser.localStmt (Nat.le_refl (parseFuel tokens))).statementsUntil.error h fueled
  refine ⟨read, split, fun rest same => ?_⟩
  have more := Nat.le_max_left (parseFuel tokens) (parseFuel (read ++ rest))
  have more' := Nat.le_max_right (parseFuel tokens) (parseFuel (read ++ rest))
  obtain ⟨read', split', fails⟩ := (Parser.localStmt more).statementsUntil.error h fueled
  obtain rfl : read = read' := List.append_cancel_right (split.symm.trans split')
  rw [parseTokens_eq_error, ← statementsUntil_parseFuel more', fails rest same]

/-- A parse error points at the first token that cannot be continued: what stands in front of it
can be completed to a program, and all tokens that agree up to it fail alike. -/
theorem parseProgram_blames {source : String} {tokens : List Token} {d : Diagnostic}
    (lexed : tokenize source = .ok tokens) (failed : parseProgram source = .error d) :
    ∃ read token behind, tokens = read ++ token :: behind ∧
      d.span = some token.span ∧ (∃ note, d.notes = [note]) ∧
      (∀ others, (parseTokens (read ++ token :: others)).mapError ParseFailure.diagnostic =
        .error d) ∧
      ∃ further last program, last.kind = .endOfInput ∧
        (∀ t ∈ read ++ further, t.kind ≠ .endOfInput) ∧
        parseTokens (read ++ (further ++ [last])) = .ok program := by
  obtain ⟨front, last, rfl, kind, -⟩ := tokensFrom_ends lexed
  obtain ⟨f, parsed, rfl⟩ : ∃ f, parseTokens (front ++ [last]) = .error f ∧ f.diagnostic = d := by
    simp only [parseProgram, lexed] at failed
    split at failed
    next f parsed => exact ⟨f, parsed, Except.error.inj failed⟩
    next => cases failed
  obtain ⟨read, split, alike⟩ := parseTokens_local parsed
  obtain ⟨-, read', further, split', whole⟩ := parseTokens_breaksOff parsed
  obtain rfl : read = read' := List.append_cancel_right (split.symm.trans split')
  obtain ⟨program, spelled, fits⟩ := whole
  have inside := spelled.kind_ne
  obtain ⟨error, remaining⟩ := f
  cases remaining with
  | nil =>
    refine absurd kind (inside last (List.mem_append_left _ ?_))
    have all : front ++ [last] = read := by simpa using split
    simp [← all]
  | cons token behind =>
    refine ⟨read, token, behind, split, rfl, ⟨_, rfl⟩, fun others => ?_, further, last, program,
      kind, inside, ?_⟩
    · rw [alike (token :: others) rfl]
      rfl
    · rw [← List.append_assoc]
      exact parseTokens_of_spelled spelled fits kind

theorem parseProgram_blames_parameter :
    ∃ tokens d, tokenize "func f(a, b, a) \x7b\x7d" = .ok tokens ∧
      parseProgram "func f(a, b, a) \x7b\x7d" = .error d ∧
      ∃ read token behind, tokens = read ++ token :: behind ∧
        d.span = some token.span ∧ (∃ note, d.notes = [note]) ∧
        (∀ others, (parseTokens (read ++ token :: others)).mapError ParseFailure.diagnostic =
          .error d) ∧
        ∃ further last program, last.kind = .endOfInput ∧
          (∀ t ∈ read ++ further, t.kind ≠ .endOfInput) ∧
          parseTokens (read ++ (further ++ [last])) = .ok program := by
  have lexes : (tokenize "func f(a, b, a) \x7b\x7d").toOption.isSome := by decide +kernel
  have fails : (parseProgram "func f(a, b, a) \x7b\x7d").toOption.isNone := by decide +kernel
  cases lexed : tokenize "func f(a, b, a) \x7b\x7d" with
  | error span =>
    rw [lexed] at lexes
    cases lexes
  | ok tokens =>
    cases failed : parseProgram "func f(a, b, a) \x7b\x7d" with
    | ok program =>
      rw [failed] at fails
      cases fails
    | error d => exact ⟨tokens, d, rfl, rfl, parseProgram_blames lexed failed⟩

end Script
