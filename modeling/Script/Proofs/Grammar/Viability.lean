import Script.Proofs.Grammar.Completeness
import Script.Proofs.Grammar.Viability.Expressions
import Mathlib.Data.Fintype.EquivFin

namespace Script

/-- Whether tokens spell names between commas, all different and none of the given ones. -/
def NamesWhole (seen : List String) (as : List Token) : Prop :=
  ∃ names, NamesSpelled names as ∧ names ≠ [] ∧ names.Nodup ∧ ∀ name ∈ names, name ∉ seen

def Stmt.Whole (as : List Token) : Prop :=
  ∃ s : Stmt, s.Spelled as ∧ s.every Stmt.fits Expr.fits

def Stmt.WholeIf (as : List Token) : Prop :=
  ∃ s : Stmt, s.Spelled as ∧ s.every Stmt.fits Expr.fits ∧ s.isIf

/-- Whether tokens spell a block. -/
def Stmt.WholeIn (as : List Token) : Prop :=
  ∃ body span, Stmt.SpelledIn body span as ∧ Stmt.everyIn Stmt.fits Expr.fits body

/-- Whether tokens spell statements one after the other. -/
def Stmt.WholeUpTo (as : List Token) : Prop :=
  ∃ stmts, Stmt.SpelledUpTo .endOfInput stmts as ∧ Stmt.everyIn Stmt.fits Expr.fits stmts

theorem exists_namesWhole (seen : List String) : ∃ as, NamesWhole seen as := by
  obtain ⟨name, fresh⟩ := Infinite.exists_notMem_finset seen.toFinset
  have spelled : NamesSpelled [name] _ := .last (Symbol.supplied_name name)
  exact ⟨_, [name], spelled, by simp, by simp, by simpa using fresh⟩

theorem NamesWhole.more {seen : List String} {t comma : Token} {as : List Token}
    (kind : t.kind = .identifier) (separates : comma.kind = .comma) (unseen : t.lexeme ∉ seen)
    (h : NamesWhole (t.lexeme :: seen) as) : NamesWhole seen (t :: comma :: as) := by
  obtain ⟨names, spelled, nonempty, nodup, fresh⟩ := h
  obtain ⟨name, names, rfl⟩ := List.exists_cons_of_ne_nil nonempty
  refine ⟨t.lexeme :: name :: names, .more kind separates spelled, by simp, ?_, ?_⟩
  · exact List.nodup_cons.mpr ⟨fun again => fresh _ again (by simp), nodup⟩
  · rintro other (_ | ⟨_, later⟩)
    · exact unseen
    · exact fun known => fresh other later (List.mem_cons_of_mem _ known)

namespace Stmt

variable {s : Stmt} {last k : TokenKind} {as bs cs more : List Token}
  {word name equals first other : Token}

theorem endsBefore_closing (closing : last = .rightBrace ∨ last = .endOfInput) :
    s.endsBefore last := by
  rcases closing with rfl | rfl <;>
    · cases s with
      | var _ _ value | «return» _ value => cases value <;> rfl
      | _ => rfl

theorem EndsAt.closing (h : s.EndsAt k bs cs) (closing : last = .rightBrace ∨ last = .endOfInput) :
    s.EndsAt last bs cs := by
  cases h with
  | semicolon simple kind => exact .semicolon simple kind
  | without ends =>
    refine .without ?_
    cases bs with
    | nil => exact endsBefore_closing closing
    | cons => exact ends

theorem EndsAt.append_of_ne_nil (h : s.EndsAt k bs cs) (ne : cs ≠ []) :
    s.EndsAt last (bs ++ more) (cs ++ more) := by
  cases h with
  | semicolon simple kind => exact .semicolon simple kind
  | without ends =>
    refine .without ?_
    cases bs with
    | nil => exact absurd rfl ne
    | cons => exact ends

theorem SpelledUpTo.closing {stmts : List Stmt} (h : SpelledUpTo k stmts as)
    (closing : last = .rightBrace ∨ last = .endOfInput) : SpelledUpTo last stmts as := by
  induction stmts generalizing as with
  | nil =>
    cases h
    exact .nil
  | cons s rest ih =>
    cases h with
    | cons first ends others => exact .cons first (ends.closing closing) (ih others)

theorem WholeUpTo.braces {first last : Token} (opens : first.kind = .leftBrace)
    (h : WholeUpTo as) (closes : last.kind = .rightBrace) : WholeIn (first :: (as ++ [last])) := by
  obtain ⟨stmts, spelled, fits⟩ := h
  exact ⟨stmts, _, .braces opens (spelled.closing (.inl rfl)) closes, fits⟩

theorem whole_nothing : WholeUpTo [] := ⟨[], .nil, rfl⟩

/-- The tokens of an empty block. -/
def braces : List Token := [(Symbol.fixed .leftBrace).supplied, (Symbol.fixed .rightBrace).supplied]

theorem whole_braces : WholeIn braces :=
  whole_nothing.braces (Symbol.supplied_fixed _) (Symbol.supplied_fixed _)

theorem whole_declare (starts : word.kind = .keyword .var) (kind : name.kind = .identifier) :
    Whole [word, name] :=
  ⟨_, .declare starts kind, rfl⟩

theorem whole_var (starts : word.kind = .keyword .var) (kind : name.kind = .identifier)
    (assign : equals.kind = .assign) (h : Expr.Whole 0 as) :
    Whole (word :: name :: equals :: as) := by
  obtain ⟨value, spelled, fits, -⟩ := h
  exact ⟨_, .var starts kind assign spelled, by simpa [every, Stmt.fits, Expr.everyIn] using fits⟩

theorem whole_define (starts : word.kind = .keyword .define) (kind : name.kind = .identifier)
    (assign : equals.kind = .assign) (h : Expr.Whole 0 as) :
    Whole (word :: name :: equals :: as) := by
  obtain ⟨value, spelled, fits, -⟩ := h
  exact ⟨_, .define starts kind assign spelled, by simpa [every, Stmt.fits] using fits⟩

theorem whole_function {names : List String} (starts : word.kind = .keyword .func)
    (kind : name.kind = .identifier) (opens : first.kind = .leftParen)
    (spelled : NamesSpelled names as) (nodup : names.Nodup) (closes : other.kind = .rightParen)
    (h : WholeIn bs) : Whole (word :: name :: first :: (as ++ other :: bs)) := by
  obtain ⟨body, span, block, fits⟩ := h
  refine ⟨_, .function starts kind opens spelled closes block, ?_⟩
  simpa [every, Stmt.fits, fits] using nodup

theorem whole_include (starts : word.kind = .keyword .include) :
    Whole [word, (Symbol.name "x").supplied] :=
  ⟨_, .include starts (.inr rfl), rfl⟩

theorem whole_expr (h : Expr.Whole 0 as) : Whole as := by
  obtain ⟨value, spelled, fits, -⟩ := h
  exact ⟨_, .expr spelled, by simpa [every, Stmt.fits] using fits⟩

theorem whole_while (starts : word.kind = .keyword .while) (test : Expr.Whole 0 as)
    (h : WholeIn bs) : Whole (word :: (as ++ bs)) := by
  obtain ⟨condition, spelled, fits, -⟩ := test
  obtain ⟨body, span, block, fits'⟩ := h
  exact ⟨_, .while starts spelled block, by simp [every, Stmt.fits, fits, fits']⟩

theorem whole_loop (starts : word.kind = .keyword .loop) (h : WholeIn as) :
    Whole (word :: as) := by
  obtain ⟨body, span, block, fits⟩ := h
  exact ⟨_, .loop starts block, by simpa [every, Stmt.fits] using fits⟩

theorem whole_for (starts : word.kind = .keyword .for) (kind : name.kind = .identifier)
    (separates : other.kind = .keyword .in) (elements : Expr.Whole 0 as) (h : WholeIn bs) :
    Whole (word :: name :: other :: (as ++ bs)) := by
  obtain ⟨iterable, spelled, fits, -⟩ := elements
  obtain ⟨body, span, block, fits'⟩ := h
  exact ⟨_, .for starts kind separates spelled block, by simp [every, Stmt.fits, fits, fits']⟩

theorem whole_return (starts : word.kind = .keyword .return) (h : Expr.Whole 0 as) :
    Whole (word :: as) := by
  obtain ⟨value, spelled, fits, -⟩ := h
  exact ⟨_, .return starts spelled, by simpa [every, Stmt.fits, Expr.everyIn] using fits⟩

theorem whole_block (h : WholeIn as) : Whole as := by
  obtain ⟨body, span, block, fits⟩ := h
  exact ⟨_, .block block, by simpa [every, Stmt.fits] using fits⟩

theorem wholeIf_then (starts : word.kind = .keyword .if) (test : Expr.Whole 0 as)
    (h : WholeIn bs) : WholeIf (word :: (as ++ bs)) := by
  obtain ⟨condition, spelled, fits, -⟩ := test
  obtain ⟨body, span, block, fits'⟩ := h
  exact ⟨_, .ifThen starts spelled block, by simp [every, Stmt.fits, fits, fits'], rfl⟩

theorem wholeIf_else (starts : word.kind = .keyword .if) (test : Expr.Whole 0 as)
    (h : WholeIn bs) (kind : other.kind = .keyword .else) (final : WholeIn cs) :
    WholeIf (word :: (as ++ (bs ++ other :: cs))) := by
  obtain ⟨condition, spelled, fits, -⟩ := test
  obtain ⟨body, span, block, fits'⟩ := h
  obtain ⟨otherwise, span', block', fits''⟩ := final
  refine ⟨_, .ifElse starts spelled block kind block', ?_, rfl⟩
  simp [every, Stmt.fits, fits, fits', fits'']

theorem wholeIf_elseIf (starts : word.kind = .keyword .if) (test : Expr.Whole 0 as)
    (h : WholeIn bs) (kind : other.kind = .keyword .else) (final : WholeIf cs) :
    WholeIf (word :: (as ++ (bs ++ other :: cs))) := by
  obtain ⟨condition, spelled, fits, -⟩ := test
  obtain ⟨body, span, block, fits'⟩ := h
  obtain ⟨next, spelled', fits'', isIf⟩ := final
  refine ⟨_, .elseIf starts spelled block kind isIf spelled', ?_, rfl⟩
  simp [every, Stmt.fits, everyIn, fits, fits', fits'']

theorem Whole.only (h : Whole as) : WholeUpTo as := by
  obtain ⟨s, spelled, fits⟩ := h
  refine ⟨[s], ?_, by simpa [everyIn] using fits⟩
  have ends : s.EndsAt .endOfInput [] [] := .without (endsBefore_closing (.inr rfl))
  simpa using SpelledUpTo.cons spelled ends .nil

theorem Read.length_lt {tokens middle : List Token} (h : s.Read tokens middle) :
    middle.length < tokens.length := by
  obtain ⟨⟨as, bs, rfl, spelled, ends⟩, -⟩ := h
  obtain ⟨t, ts, rfl, -⟩ := spelled.starts
  have shorter := ends.length_le
  simp only [List.length_append, List.length_cons]
  omega

theorem Read.more_breaksOff {f : ParseFailure} {tokens middle : List Token}
    (hs : s.Read tokens middle) (h : f.BreaksOff WholeUpTo middle) :
    f.BreaksOff WholeUpTo tokens := by
  obtain ⟨⟨as, _, rfl, spelled, finish⟩, fits⟩ := hs
  obtain ⟨fueled, read, more, rfl, stmts, others, fits'⟩ := h
  obtain ⟨bs, rfl, ends⟩ := finish.take
  by_cases empty : read = []
  · subst empty
    refine ⟨fueled, as ++ bs, [], by simp, [s], ?_, by simpa [everyIn] using fits⟩
    simpa using SpelledUpTo.cons spelled (ends.closing (.inr rfl)) .nil
  · refine ⟨fueled, as ++ bs, more, by simp, s :: stmts, ?_, by simp [everyIn, fits, fits']⟩
    simpa using SpelledUpTo.cons spelled (ends.append_of_ne_nil empty) others

end Stmt

namespace Parser

variable {fuel : Nat} {tokens rest : List Token} {f : ParseFailure}

theorem expression_whole {e : Expr} (h : expression fuel 0 tokens = .ok (e, rest)) :
    ∃ as, tokens = as ++ rest ∧ Expr.Whole 0 as := by
  obtain ⟨as, rfl, spelled, fits, -⟩ := expression_read h
  exact ⟨as, rfl, e, spelled, fits, Nat.zero_le _⟩

theorem block_whole {p : List Stmt × Span} (h : block fuel tokens = .ok (p, rest)) :
    ∃ as, tokens = as ++ rest ∧ Stmt.WholeIn as := by
  obtain ⟨⟨as, rfl, spelled⟩, fits⟩ := (readsStmt fuel).block h
  exact ⟨as, rfl, _, _, spelled, fits⟩

theorem expression_breaksOff (room : 16 * tokens.length + 9 ≤ fuel)
    (h : expression fuel 0 tokens = .error f) : f.BreaksOff (Expr.Whole 0) tokens :=
  (failsExpr fuel).expression (Nat.zero_le _) room h

theorem varStatement_breaksOff (hk : nextKind .endOfInput tokens = .keyword .var)
    (room : 16 * tokens.length + 9 ≤ fuel) (h : varStatement fuel tokens = .error f) :
    f.BreaksOff Stmt.Whole tokens := by
  obtain ⟨word, _, rfl, starts⟩ := exists_cons_of_nextKind hk (by simp)
  rw [varStatement, next_bind] at h
  rcases expect_bind_error h with rfl | ⟨name, _, rfl, kind, h⟩
  · exact .after [word] (by simp) (Stmt.whole_declare starts (Symbol.supplied_name "x"))
  · rcases accept_bind_error h with ⟨equals, _, rfl, assign, h⟩ | h
    · rw [if_pos rfl, bind_eq_error] at h
      rcases h with h | ⟨_, _, -, h⟩
      · simp only [List.length_cons] at room
        refine (expression_breaksOff (by omega) h).later [word, name, equals] [] fun as value => ?_
        simpa using Stmt.whole_var starts kind assign value
      · exact absurd h optionalSemicolon_bind_ne_error
    · exact absurd h optionalSemicolon_bind_ne_error

theorem defineStatement_breaksOff (hk : nextKind .endOfInput tokens = .keyword .define)
    (room : 16 * tokens.length + 9 ≤ fuel) (h : defineStatement fuel tokens = .error f) :
    f.BreaksOff Stmt.Whole tokens := by
  obtain ⟨word, _, rfl, starts⟩ := exists_cons_of_nextKind hk (by simp)
  have null := Expr.whole_null (Nat.zero_le _)
  have assigned := Symbol.supplied_fixed .assign
  rw [defineStatement, next_bind] at h
  rcases expect_bind_error h with rfl | ⟨name, _, rfl, kind, h⟩
  · exact .after [word] (by simp)
      (Stmt.whole_define starts (Symbol.supplied_name "x") assigned null)
  · rcases expect_bind_error h with rfl | ⟨equals, _, rfl, assign, h⟩
    · exact .after [word, name] (by simp) (Stmt.whole_define starts kind assigned null)
    · rcases bind_eq_error.mp h with h | ⟨_, _, -, h⟩
      · simp only [List.length_cons] at room
        refine (expression_breaksOff (by omega) h).later [word, name, equals] [] fun as value => ?_
        simpa using Stmt.whole_define starts kind assign value
      · exact absurd h optionalSemicolon_bind_ne_error

theorem includeStatement_breaksOff (hk : nextKind .endOfInput tokens = .keyword .include)
    (h : includeStatement tokens = .error f) : f.BreaksOff Stmt.Whole tokens := by
  obtain ⟨word, rest, rfl, starts⟩ := exists_cons_of_nextKind hk (by simp)
  rw [includeStatement, next_bind, peek_bind] at h
  split at h
  next kind =>
    obtain ⟨name, _, rfl, -⟩ := exists_cons_of_nextKind rfl fun ended => by
      rw [ended] at kind
      simp at kind
    rw [next_bind] at h
    split at h
    · cases h
      exact .after [word] (by simp) (Stmt.whole_include starts)
    · exact absurd h optionalSemicolon_bind_ne_error
  next =>
    obtain rfl := fail_eq_error.mp h
    exact .after [word] (by simp) (Stmt.whole_include starts)

theorem returnStatement_breaksOff (hk : nextKind .endOfInput tokens = .keyword .return)
    (room : 16 * tokens.length + 9 ≤ fuel) (h : returnStatement fuel tokens = .error f) :
    f.BreaksOff Stmt.Whole tokens := by
  obtain ⟨word, _, rfl, starts⟩ := exists_cons_of_nextKind hk (by simp)
  rw [returnStatement, next_bind, peek_bind] at h
  split at h
  next => exact absurd h optionalSemicolon_bind_ne_error
  next =>
    rcases bind_eq_error.mp h with h | ⟨_, _, -, h⟩
    · simp only [List.length_cons] at room
      refine (expression_breaksOff (by omega) h).later [word] [] fun as value => ?_
      simpa using Stmt.whole_return starts value
    · exact absurd h optionalSemicolon_bind_ne_error

theorem expressionStatement_breaksOff (room : 16 * tokens.length + 9 ≤ fuel)
    (h : expressionStatement fuel tokens = .error f) : f.BreaksOff Stmt.Whole tokens := by
  rw [expressionStatement, bind_eq_error] at h
  rcases h with h | ⟨target, after, ht, h⟩
  · exact (expression_breaksOff room h).imp fun _ => Stmt.whole_expr
  · obtain ⟨as, rfl, spelled, fits, -⟩ := expression_read ht
    rw [peek_bind] at h
    split at h
    next kind =>
      obtain ⟨equals, _, rfl, assign⟩ := exists_cons_of_nextKind kind (by simp)
      rw [next_bind] at h
      split at h
      next assignable =>
        rcases bind_eq_error.mp h with h | ⟨_, _, -, h⟩
        · simp only [List.length_append, List.length_cons] at room
          rw [List.append_cons]
          refine (expression_breaksOff (by omega) h).later (as ++ [equals]) [] ?_
          rintro bs ⟨value, spelled', fits', -⟩
          refine ⟨_, by simpa using Stmt.Spelled.assign spelled assign spelled', ?_⟩
          simp [Stmt.every, Stmt.fits, assignable, fits, fits']
        · exact absurd h optionalSemicolon_bind_ne_error
      next =>
        cases h
        have whole : Stmt.Whole (as ++ []) :=
          Stmt.whole_expr ⟨target, by rwa [List.append_nil], fits, Nat.zero_le _⟩
        exact .after as (by simp) whole
    next => exact absurd h optionalSemicolon_bind_ne_error

theorem wordStatement_ne_error {make : Span → Stmt} {k : TokenKind}
    (hk : nextKind .endOfInput tokens = k) (more : k ≠ .endOfInput) :
    wordStatement make tokens ≠ .error f := by
  obtain ⟨word, _, rfl, -⟩ := exists_cons_of_nextKind hk more
  exact optionalSemicolon_bind_ne_error

theorem moreParameters_breaksOff {seen : List String} (room : tokens.length < fuel)
    (h : moreParameters fuel seen tokens = .error f) : f.BreaksOff (NamesWhole seen) tokens := by
  induction fuel generalizing seen tokens with
  | zero => exact absurd room (Nat.not_lt_zero _)
  | succ fuel ih =>
    obtain ⟨names, whole⟩ := exists_namesWhole seen
    rw [moreParameters] at h
    rcases expect_bind_error h with rfl | ⟨name, _, rfl, kind, h⟩
    · exact .here (by simp) whole
    · split at h
      next =>
        cases h
        exact .here (by simp) whole
      next unseen =>
        rcases accept_bind_error h with ⟨comma, _, rfl, separates, h⟩ | h
        · rw [if_pos rfl] at h
          rcases bind_eq_error.mp h with h | ⟨_, _, -, h⟩
          · simp only [List.length_cons] at room
            refine (ih (by omega) h).later [name, comma] [] fun as others => ?_
            simpa using others.more kind separates unseen
          · exact absurd h pure_ne_error
        · exact absurd h pure_ne_error

theorem parameters_breaksOff (room : tokens.length < fuel)
    (h : parameters fuel tokens = .error f) : f.BreaksOff (NamesWhole []) tokens := by
  simp only [parameters, peek_bind] at h
  split at h
  · exact absurd h pure_ne_error
  · exact moreParameters_breaksOff room h

/-- Where reading statements breaks off on an amount of fuel. -/
structure FailsStmt (fuel : Nat) : Prop where
  statement : ∀ {tokens f}, 16 * tokens.length + 10 ≤ fuel → statement fuel tokens = .error f →
    f.BreaksOff Stmt.Whole tokens
  ifStatement : ∀ {tokens f}, nextKind .endOfInput tokens = .keyword .if →
    16 * tokens.length + 1 ≤ fuel → ifStatement fuel tokens = .error f →
    f.BreaksOff Stmt.WholeIf tokens
  block : ∀ {tokens f}, 16 * tokens.length + 1 ≤ fuel → block fuel tokens = .error f →
    f.BreaksOff Stmt.WholeIn tokens
  statementsUntil : ∀ {closing tokens f}, 16 * tokens.length + 11 ≤ fuel →
    statementsUntil fuel closing tokens = .error f → f.BreaksOff Stmt.WholeUpTo tokens

namespace FailsStmt

theorem function_succ (below : FailsStmt fuel)
    (hk : nextKind .endOfInput tokens = .keyword .func)
    (room : 16 * tokens.length + 10 ≤ fuel + 1)
    (h : Parser.statement (fuel + 1) tokens = .error f) : f.BreaksOff Stmt.Whole tokens := by
  simp only [Parser.statement, peek_bind, hk] at h
  obtain ⟨word, _, rfl, starts⟩ := exists_cons_of_nextKind hk (by simp)
  have opened := Symbol.supplied_fixed .leftParen
  have closed := Symbol.supplied_fixed .rightParen
  rw [next_bind] at h
  replace h := expect_bind_error h
  rcases h with rfl | ⟨name, _, rfl, kind, h⟩
  · exact .after [word] (by simp) (Stmt.whole_function starts (Symbol.supplied_name "x") opened
      .nil List.nodup_nil closed Stmt.whole_braces)
  replace h := expect_bind_error h
  rcases h with rfl | ⟨first, _, rfl, opens, h⟩
  · exact .after [word, name] (by simp) (Stmt.whole_function starts kind opened .nil
      List.nodup_nil closed Stmt.whole_braces)
  simp only [List.length_cons] at room
  rw [bind_eq_error] at h
  rcases h with h | ⟨names, _, hn, h⟩
  · refine (parameters_breaksOff (by omega) h).later [word, name, first]
      ((Symbol.fixed .rightParen).supplied :: Stmt.braces) ?_
    rintro _ ⟨_, spelled, _, nodup, _⟩
    exact Stmt.whole_function starts kind opens spelled nodup closed Stmt.whole_braces
  obtain ⟨⟨as, rfl, spelled⟩, nodup⟩ := parameters_read hn
  replace h := expect_bind_error h
  rcases h with rfl | ⟨last, _, rfl, closes, h⟩
  · exact .after (word :: name :: first :: as) (by simp)
      (Stmt.whole_function starts kind opens spelled nodup closed Stmt.whole_braces)
  rcases bind_eq_error.mp h with h | ⟨_, _, -, h⟩
  · rw [List.append_cons]
    simp only [List.length_append, List.length_cons] at room
    refine (below.block (by omega) h).later (word :: name :: first :: (as ++ [last])) [] ?_
    intro bs body
    simpa using Stmt.whole_function starts kind opens spelled nodup closes body
  · exact absurd h pure_ne_error

theorem while_succ (below : FailsStmt fuel) (hk : nextKind .endOfInput tokens = .keyword .while)
    (room : 16 * tokens.length + 10 ≤ fuel + 1)
    (h : Parser.statement (fuel + 1) tokens = .error f) : f.BreaksOff Stmt.Whole tokens := by
  simp only [Parser.statement, peek_bind, hk] at h
  obtain ⟨word, _, rfl, starts⟩ := exists_cons_of_nextKind hk (by simp)
  rw [next_bind, bind_eq_error] at h
  simp only [List.length_cons] at room
  rcases h with h | ⟨condition, _, hc, h⟩
  · exact (expression_breaksOff (by omega) h).later [word] Stmt.braces fun as test => by
      simpa using Stmt.whole_while starts test Stmt.whole_braces
  obtain ⟨as, rfl, test⟩ := expression_whole hc
  rcases bind_eq_error.mp h with h | ⟨_, _, -, h⟩
  · rw [List.length_append] at room
    refine (below.block (by omega) h).later (word :: as) [] fun bs body => ?_
    simpa using Stmt.whole_while starts test body
  · exact absurd h pure_ne_error

theorem loop_succ (below : FailsStmt fuel) (hk : nextKind .endOfInput tokens = .keyword .loop)
    (room : 16 * tokens.length + 10 ≤ fuel + 1)
    (h : Parser.statement (fuel + 1) tokens = .error f) : f.BreaksOff Stmt.Whole tokens := by
  simp only [Parser.statement, peek_bind, hk] at h
  obtain ⟨word, _, rfl, starts⟩ := exists_cons_of_nextKind hk (by simp)
  rw [next_bind] at h
  simp only [List.length_cons] at room
  rcases bind_eq_error.mp h with h | ⟨_, _, -, h⟩
  · refine (below.block (by omega) h).later [word] [] fun as body => ?_
    simpa using Stmt.whole_loop starts body
  · exact absurd h pure_ne_error

theorem for_succ (below : FailsStmt fuel) (hk : nextKind .endOfInput tokens = .keyword .for)
    (room : 16 * tokens.length + 10 ≤ fuel + 1)
    (h : Parser.statement (fuel + 1) tokens = .error f) : f.BreaksOff Stmt.Whole tokens := by
  simp only [Parser.statement, peek_bind, hk] at h
  obtain ⟨word, _, rfl, starts⟩ := exists_cons_of_nextKind hk (by simp)
  have null := Expr.whole_null (Nat.zero_le _)
  have separated := Symbol.supplied_fixed (.keyword .in)
  rw [next_bind] at h
  replace h := expect_bind_error h
  rcases h with rfl | ⟨name, _, rfl, kind, h⟩
  · exact .after [word] (by simp)
      (Stmt.whole_for starts (Symbol.supplied_name "x") separated null Stmt.whole_braces)
  replace h := expect_bind_error h
  rcases h with rfl | ⟨other, _, rfl, separates, h⟩
  · exact .after [word, name] (by simp)
      (Stmt.whole_for starts kind separated null Stmt.whole_braces)
  simp only [List.length_cons] at room
  rw [bind_eq_error] at h
  rcases h with h | ⟨iterable, _, hi, h⟩
  · exact (expression_breaksOff (by omega) h).later [word, name, other] Stmt.braces
      fun as elements => by
        simpa using Stmt.whole_for starts kind separates elements Stmt.whole_braces
  obtain ⟨as, rfl, elements⟩ := expression_whole hi
  rcases bind_eq_error.mp h with h | ⟨_, _, -, h⟩
  · rw [List.length_append] at room
    refine (below.block (by omega) h).later (word :: name :: other :: as) [] fun bs body => ?_
    simpa using Stmt.whole_for starts kind separates elements body
  · exact absurd h pure_ne_error

theorem statement_succ (below : FailsStmt fuel) (room : 16 * tokens.length + 10 ≤ fuel + 1)
    (h : Parser.statement (fuel + 1) tokens = .error f) : f.BreaksOff Stmt.Whole tokens := by
  have failed := h
  simp only [Parser.statement, peek_bind] at h
  generalize hk : nextKind .endOfInput tokens = k at h
  split at h
  · exact varStatement_breaksOff hk (by omega) h
  · exact defineStatement_breaksOff hk (by omega) h
  · exact below.function_succ hk room failed
  · exact includeStatement_breaksOff hk h
  · refine (below.ifStatement hk (by omega) h).imp ?_
    rintro _ ⟨s, spelled, fits, _⟩
    exact ⟨s, spelled, fits⟩
  · exact below.while_succ hk room failed
  · exact below.loop_succ hk room failed
  · exact below.for_succ hk room failed
  · exact returnStatement_breaksOff hk (by omega) h
  · exact absurd h (wordStatement_ne_error hk (by simp))
  · exact absurd h (wordStatement_ne_error hk (by simp))
  · rcases bind_eq_error.mp h with h | ⟨_, _, -, h⟩
    · exact (below.block (by omega) h).imp fun _ => Stmt.whole_block
    · exact absurd h pure_ne_error
  · exact expressionStatement_breaksOff (by omega) h

theorem ifStatement_succ (below : FailsStmt fuel)
    (hk : nextKind .endOfInput tokens = .keyword .if) (room : 16 * tokens.length + 1 ≤ fuel + 1)
    (h : Parser.ifStatement (fuel + 1) tokens = .error f) :
    f.BreaksOff Stmt.WholeIf tokens := by
  obtain ⟨word, _, rfl, starts⟩ := exists_cons_of_nextKind hk (by simp)
  rw [Parser.ifStatement, next_bind] at h
  simp only [List.length_cons] at room
  rw [bind_eq_error] at h
  rcases h with h | ⟨condition, _, hc, h⟩
  · exact (expression_breaksOff (by omega) h).later [word] Stmt.braces fun as test => by
      simpa using Stmt.wholeIf_then starts test Stmt.whole_braces
  obtain ⟨as, rfl, test⟩ := expression_whole hc
  rw [bind_eq_error] at h
  rcases h with h | ⟨_, _, hb, h⟩
  · rw [List.length_append] at room
    refine (below.block (by omega) h).later (word :: as) [] fun bs body => ?_
    simpa using Stmt.wholeIf_then starts test body
  obtain ⟨bs, rfl, body⟩ := block_whole hb
  rcases accept_bind_error h with ⟨other, rest, rfl, kind, h⟩ | h
  · rw [if_pos rfl, peek_bind] at h
    simp only [List.length_append, List.length_cons] at room
    have split : word :: (as ++ (bs ++ other :: rest)) =
        word :: (as ++ (bs ++ [other])) ++ rest := by simp
    rw [split]
    split at h
    next another =>
      rcases bind_eq_error.mp h with h | ⟨_, _, -, h⟩
      · refine (below.ifStatement another (by omega) h).later _ [] fun cs final => ?_
        simpa using Stmt.wholeIf_elseIf starts test body kind final
      · exact absurd h pure_ne_error
    next =>
      rcases bind_eq_error.mp h with h | ⟨_, _, -, h⟩
      · refine (below.block (by omega) h).later _ [] fun cs final => ?_
        simpa using Stmt.wholeIf_else starts test body kind final
      · exact absurd h pure_ne_error
  · exact absurd h pure_ne_error

theorem block_succ (below : FailsStmt fuel) (room : 16 * tokens.length + 1 ≤ fuel + 1)
    (h : Parser.block (fuel + 1) tokens = .error f) : f.BreaksOff Stmt.WholeIn tokens := by
  rw [Parser.block] at h
  have closed := Symbol.supplied_fixed .rightBrace
  replace h := expect_bind_error h
  rcases h with rfl | ⟨first, _, rfl, opens, h⟩
  · exact .here (by simp) Stmt.whole_braces
  simp only [List.length_cons] at room
  rw [bind_eq_error] at h
  rcases h with h | ⟨stmts, _, hs, h⟩
  · exact (below.statementsUntil (by omega) h).later [first] _ fun as inner =>
      inner.braces opens closed
  obtain ⟨⟨⟨as, rfl, spelled⟩, fits⟩, -⟩ := (readsStmt fuel).statementsUntil hs
  replace h := expect_bind_error h
  rcases h with rfl | ⟨_, _, -, -, h⟩
  · have inner : Stmt.WholeUpTo as := ⟨stmts, spelled.closing (.inr rfl), fits⟩
    exact .after (first :: as) (by simp) (inner.braces opens closed)
  · exact absurd h pure_ne_error

theorem statementsUntil_succ (below : FailsStmt fuel) {closing : TokenKind}
    (room : 16 * tokens.length + 11 ≤ fuel + 1)
    (h : Parser.statementsUntil (fuel + 1) closing tokens = .error f) :
    f.BreaksOff Stmt.WholeUpTo tokens := by
  simp only [Parser.statementsUntil, peek_bind] at h
  split at h
  · exact absurd h pure_ne_error
  · rcases bind_eq_error.mp h with h | ⟨first, middle, hf, h⟩
    · exact (below.statement (by omega) h).imp fun _ => Stmt.Whole.only
    · have read := (readsStmt fuel).statement hf
      have shorter := read.length_lt
      rcases bind_eq_error.mp h with h | ⟨_, _, -, h⟩
      · exact read.more_breaksOff (below.statementsUntil (by omega) h)
      · exact absurd h pure_ne_error

end FailsStmt

theorem failsStmt (fuel : Nat) : FailsStmt fuel := by
  induction fuel with
  | zero => constructor <;> (intros; omega)
  | succ fuel ih =>
    exact {
      statement := ih.statement_succ
      ifStatement := ih.ifStatement_succ
      block := ih.block_succ
      statementsUntil := ih.statementsUntil_succ }

end Parser

end Script
