import Script.Proofs.Grammar.Steps

namespace Script

theorem nextKind_of_head? {last : TokenKind} {as bs : List Token} (h : as.head? = bs.head?) :
    nextKind last as = nextKind last bs := by
  cases as <;> cases bs <;> simp_all [nextKind]

theorem head?_append_of_head? {read as bs : List Token} (h : as.head? = bs.head?) :
    (read ++ as).head? = (read ++ bs).head? := by
  rw [List.head?_append, List.head?_append, h]

namespace Parser

variable {α β : Type} {tokens rest : List Token}

/-- Whether a parser never looks behind the token where it stops, and another one does the same
on any tokens that agree up to there. The first may run out of fuel instead. -/
structure Local (p q : Parser α) : Prop where
  ok : ∀ {tokens a rest}, p tokens = .ok (a, rest) → ∃ read, tokens = read ++ rest ∧
    ∀ rest', rest'.head? = rest.head? → q (read ++ rest') = .ok (a, rest')
  error : ∀ {tokens e rest}, p tokens = .error ⟨e, rest⟩ → e ≠ .outOfFuel →
    ∃ read, tokens = read ++ rest ∧
      ∀ rest', rest'.head? = rest.head? → q (read ++ rest') = .error ⟨e, rest'⟩

/-- Whether a parser reads the next token, or fails at it for its kind. -/
inductive ReadsOne (p : Parser Token) (tokens : List Token) : Prop where
  | read {t : Token} {rest : List Token} (front : tokens = t :: rest)
    (ok : ∀ rest', p (t :: rest') = .ok (t, rest'))
  | refused (e : ParseError)
    (error : ∀ tokens', tokens'.head? = tokens.head? → p tokens' = .error ⟨e, tokens'⟩)

theorem next_readsOne : ReadsOne next tokens := by
  cases tokens with
  | nil =>
    refine .refused .expression fun tokens' h => ?_
    obtain rfl := List.head?_eq_none_iff.mp h
    rfl
  | cons t rest => exact .read rfl fun _ => rfl

theorem expect_readsOne {kind : TokenKind} {error : ParseError} :
    ReadsOne (expect kind error) tokens := by
  cases tokens with
  | nil =>
    refine .refused error fun tokens' h => ?_
    obtain rfl := List.head?_eq_none_iff.mp h
    rfl
  | cons t rest =>
    by_cases hk : t.kind = kind
    · exact .read rfl fun rest' => by simp [expect, hk]
    · refine .refused error fun tokens' h => ?_
      obtain ⟨rest', rfl⟩ := List.head?_eq_some_iff.mp h
      simp [expect, hk]

namespace Local

variable {p q : Parser α} {e : ParseError}

theorem pure (a : α) : Local (pure a) (Pure.pure a) where
  ok h := by
    obtain ⟨rfl, rfl⟩ := pure_eq_ok.mp h
    exact ⟨[], rfl, fun _ _ => rfl⟩
  error h := nomatch h

theorem fail : Local (fail e : Parser α) (Parser.fail e) where
  ok h := nomatch h
  error h _ := by
    cases h
    exact ⟨[], rfl, fun _ _ => rfl⟩

theorem outOfFuel : Local (Parser.fail .outOfFuel) q where
  ok h := nomatch h
  error h ne := by
    cases h
    exact absurd rfl ne

theorem peek : Local peek Parser.peek where
  ok {tokens} _ _ h := by
    have unread : Parser.peek tokens = .ok (nextKind .endOfInput tokens, tokens) := by
      cases tokens <;> rfl
    cases unread.symm.trans h
    refine ⟨[], rfl, fun rest' same => ?_⟩
    rw [nextKind_of_head? same.symm]
    cases rest' <;> rfl
  error {tokens} _ _ h := by cases tokens <;> cases h

theorem accept {kind : TokenKind} : Local (accept kind) (Parser.accept kind) where
  ok {tokens a rest} h := by
    cases tokens with
    | nil =>
      cases h
      refine ⟨[], rfl, fun rest' same => ?_⟩
      obtain rfl := List.head?_eq_none_iff.mp same
      rfl
    | cons t others =>
      by_cases hk : t.kind = kind
      · simp only [Parser.accept, hk, if_true, Except.ok.injEq, Prod.mk.injEq] at h
        obtain ⟨rfl, rfl⟩ := h
        exact ⟨[t], rfl, fun rest' _ => by simp [Parser.accept, hk]⟩
      · simp only [Parser.accept, hk, if_false, Except.ok.injEq, Prod.mk.injEq] at h
        obtain ⟨rfl, rfl⟩ := h
        refine ⟨[], rfl, fun rest' same => ?_⟩
        obtain ⟨others', rfl⟩ := List.head?_eq_some_iff.mp same
        simp [Parser.accept, hk]
  error {tokens _ _} h := by
    cases tokens with
    | nil => cases h
    | cons t others => by_cases hk : t.kind = kind <;> simp [Parser.accept, hk] at h

theorem bind {next next' : α → Parser β} (first : Local p q)
    (others : ∀ a, Local (next a) (next' a)) : Local (p >>= next) (q >>= next') where
  ok h := by
    obtain ⟨a, middle, hp, hn⟩ := bind_eq_ok.mp h
    obtain ⟨read, rfl, first⟩ := first.ok hp
    obtain ⟨more, rfl, others⟩ := (others a).ok hn
    refine ⟨read ++ more, by simp, fun rest' same => ?_⟩
    rw [List.append_assoc, bind_of_ok (first _ (head?_append_of_head? same)), others rest' same]
  error h ne := by
    rcases bind_eq_error.mp h with hp | ⟨a, middle, hp, hn⟩
    · obtain ⟨read, rfl, first⟩ := first.error hp ne
      exact ⟨read, rfl, fun rest' same => bind_of_error (first rest' same)⟩
    · obtain ⟨read, rfl, first⟩ := first.ok hp
      obtain ⟨more, rfl, others⟩ := (others a).error hn ne
      refine ⟨read ++ more, by simp, fun rest' same => ?_⟩
      rw [List.append_assoc, bind_of_ok (first _ (head?_append_of_head? same)), others rest' same]

theorem token_bind {p : Parser Token} {next next' : Token → Parser β}
    (first : ∀ tokens, ReadsOne p tokens)
    (others : ∀ t, Local (next t) (next' t) ∨
      ∃ e, next t = failAt t e ∧ next' t = failAt t e) : Local (p >>= next) (p >>= next') where
  ok {tokens b rest} h := by
    obtain ⟨t, middle, hp, hn⟩ := bind_eq_ok.mp h
    cases first tokens with
    | read front ok =>
      subst front
      cases (ok _).symm.trans hp
      rcases others t with others | ⟨e, fails, -⟩
      · obtain ⟨more, rfl, others⟩ := others.ok hn
        exact ⟨t :: more, rfl, fun rest' same => (bind_of_ok (ok _)).trans (others rest' same)⟩
      · rw [fails] at hn
        exact absurd hn failAt_ne_ok
    | refused e error => cases (error tokens rfl).symm.trans hp
  error {tokens e rest} h ne := by
    cases first tokens with
    | @read t after front ok =>
      subst front
      rw [bind_of_ok (ok _)] at h
      rcases others t with others | ⟨e, fails, fails'⟩
      · obtain ⟨more, rfl, others⟩ := others.error h ne
        exact ⟨t :: more, rfl, fun rest' same => (bind_of_ok (ok _)).trans (others rest' same)⟩
      · rw [fails] at h
        cases h
        refine ⟨[], rfl, fun rest' same => ?_⟩
        obtain ⟨after', rfl⟩ := List.head?_eq_some_iff.mp same
        rw [List.nil_append, bind_of_ok (ok _), fails']
        rfl
    | refused e' error =>
      rw [bind_of_error (error tokens rfl)] at h
      cases h
      exact ⟨[], rfl, fun rest' same => bind_of_error (error rest' same)⟩

theorem next_bind {read read' : Token → Parser β} (h : ∀ t, Local (read t) (read' t)) :
    Local (next >>= read) (next >>= read') :=
  token_bind (fun _ => next_readsOne) fun t => .inl (h t)

theorem expect_bind {kind : TokenKind} {read read' : Token → Parser β}
    (h : ∀ t, Local (read t) (read' t)) :
    Local (expect kind e >>= read) (expect kind e >>= read') :=
  token_bind (fun _ => expect_readsOne) fun t => .inl (h t)

theorem constant {value : Literal} : Local (constant value) (Parser.constant value) :=
  next_bind fun _ => .pure _

theorem optionalSemicolon : Local optionalSemicolon Parser.optionalSemicolon :=
  accept.bind fun _ => .pure _

end Local

/-- What is local about reading expressions on some amount of fuel and on one that is as large. -/
structure LocalExpr (fuel more : Nat) : Prop where
  expression : ∀ {level}, Local (expression fuel level) (expression more level)
  operatorChain : ∀ {level left},
    Local (operatorChain fuel level left) (operatorChain more level left)
  unaryExpression : Local (unaryExpression fuel) (unaryExpression more)
  suffixes : ∀ {base}, Local (suffixes fuel base) (suffixes more base)
  primary : Local (primary fuel) (primary more)
  expressionsUntil : ∀ {closing},
    Local (expressionsUntil fuel closing) (expressionsUntil more closing)
  moreExpressions : Local (moreExpressions fuel) (moreExpressions more)

namespace LocalExpr

variable {fuel more : Nat}

theorem expression_succ (below : LocalExpr fuel more) {level : Nat} :
    Local (Parser.expression (fuel + 1) level) (Parser.expression (more + 1) level) := by
  rw [Parser.expression, Parser.expression]
  split
  · exact below.expression.bind fun _ => below.operatorChain
  · exact below.unaryExpression

theorem operatorChain_succ (below : LocalExpr fuel more) {level : Nat} {left : Expr} :
    Local (Parser.operatorChain (fuel + 1) level left)
      (Parser.operatorChain (more + 1) level left) := by
  rw [Parser.operatorChain, Parser.operatorChain]
  refine Local.peek.bind fun kind => ?_
  cases kind.binaryOp? with
  | none => exact .pure _
  | some op =>
    dsimp only
    split
    · exact .next_bind fun _ => below.expression.bind fun _ => below.operatorChain
    · exact .pure _

theorem unaryExpression_succ (below : LocalExpr fuel more) :
    Local (Parser.unaryExpression (fuel + 1)) (Parser.unaryExpression (more + 1)) := by
  rw [Parser.unaryExpression, Parser.unaryExpression]
  refine Local.peek.bind fun kind => ?_
  cases kind.unaryOp? with
  | none => exact below.primary.bind fun _ => below.suffixes
  | some op => exact .next_bind fun _ => below.unaryExpression.bind fun _ => .pure _

theorem suffixes_succ (below : LocalExpr fuel more) {base : Expr} :
    Local (Parser.suffixes (fuel + 1) base) (Parser.suffixes (more + 1) base) := by
  unfold Parser.suffixes
  refine Local.peek.bind fun kind => ?_
  split
  · split
    · exact .next_bind fun _ => below.expressionsUntil.bind fun _ =>
        .expect_bind fun _ => below.suffixes
    · exact .fail
  · exact .next_bind fun _ => below.expression.bind fun _ =>
      .expect_bind fun _ => below.suffixes
  · exact .pure _

theorem primary_succ (below : LocalExpr fuel more) :
    Local (Parser.primary (fuel + 1)) (Parser.primary (more + 1)) := by
  rw [Parser.primary, Parser.primary]
  refine Local.peek.bind fun kind => ?_
  split
  · exact .constant
  · exact .constant
  · exact .constant
  · refine .token_bind (fun _ => next_readsOne) fun t => ?_
    cases numberLiteral? t.lexeme with
    | none => exact .inr ⟨_, rfl, rfl⟩
    | some value => exact .inl (.pure _)
  · exact .next_bind fun _ => .pure _
  · exact .next_bind fun _ => .pure _
  · exact .next_bind fun _ => below.expression.bind fun _ => .expect_bind fun _ => .pure _
  · exact .next_bind fun _ => below.expressionsUntil.bind fun _ => .expect_bind fun _ => .pure _
  · exact .fail

theorem expressionsUntil_succ (below : LocalExpr fuel more) {closing : TokenKind} :
    Local (Parser.expressionsUntil (fuel + 1) closing)
      (Parser.expressionsUntil (more + 1) closing) := by
  rw [Parser.expressionsUntil, Parser.expressionsUntil]
  refine Local.peek.bind fun kind => ?_
  split
  · exact .pure _
  · exact below.moreExpressions

theorem moreExpressions_succ (below : LocalExpr fuel more) :
    Local (Parser.moreExpressions (fuel + 1)) (Parser.moreExpressions (more + 1)) := by
  rw [Parser.moreExpressions, Parser.moreExpressions]
  refine below.expression.bind fun _ => Local.accept.bind fun comma => ?_
  split
  · exact below.moreExpressions.bind fun _ => .pure _
  · exact .pure _

end LocalExpr

theorem localExpr {fuel more : Nat} (h : fuel ≤ more) : LocalExpr fuel more := by
  induction fuel generalizing more with
  | zero => exact ⟨.outOfFuel, .outOfFuel, .outOfFuel, .outOfFuel, .outOfFuel, .outOfFuel,
      .outOfFuel⟩
  | succ fuel ih =>
    obtain ⟨more, rfl⟩ := Nat.exists_eq_add_one.mpr (Nat.lt_of_lt_of_le (Nat.succ_pos _) h)
    have below := ih (Nat.le_of_succ_le_succ h)
    exact {
      expression := below.expression_succ
      operatorChain := below.operatorChain_succ
      unaryExpression := below.unaryExpression_succ
      suffixes := below.suffixes_succ
      primary := below.primary_succ
      expressionsUntil := below.expressionsUntil_succ
      moreExpressions := below.moreExpressions_succ }

section Statements

variable {fuel more : Nat}

theorem varStatement_local (h : fuel ≤ more) :
    Local (varStatement fuel) (varStatement more) := by
  refine .next_bind fun _ => .expect_bind fun _ => Local.accept.bind fun equals => ?_
  split
  · exact (localExpr h).expression.bind fun _ => Local.optionalSemicolon.bind fun _ => .pure _
  · exact Local.optionalSemicolon.bind fun _ => .pure _

theorem defineStatement_local (h : fuel ≤ more) :
    Local (defineStatement fuel) (defineStatement more) :=
  .next_bind fun _ => .expect_bind fun _ => .expect_bind fun _ =>
    (localExpr h).expression.bind fun _ => Local.optionalSemicolon.bind fun _ => .pure _

theorem includeStatement_local : Local includeStatement includeStatement := by
  refine .next_bind fun _ => Local.peek.bind fun kind => ?_
  split
  · refine .token_bind (fun _ => next_readsOne) fun name => ?_
    by_cases empty : name.lexeme = ""
    · exact .inr ⟨_, if_pos empty, if_pos empty⟩
    · rw [if_neg empty]
      exact .inl (Local.optionalSemicolon.bind fun _ => .pure _)
  · exact .fail

theorem returnStatement_local (h : fuel ≤ more) :
    Local (returnStatement fuel) (returnStatement more) := by
  refine .next_bind fun _ => Local.peek.bind fun kind => ?_
  split
  · exact Local.optionalSemicolon.bind fun _ => .pure _
  · exact (localExpr h).expression.bind fun _ => Local.optionalSemicolon.bind fun _ => .pure _

theorem expressionStatement_local (h : fuel ≤ more) :
    Local (expressionStatement fuel) (expressionStatement more) := by
  refine (localExpr h).expression.bind fun target => Local.peek.bind fun kind => ?_
  split
  · refine .token_bind (fun _ => next_readsOne) fun equals => ?_
    cases isAssignable target with
    | false => exact .inr ⟨_, rfl, rfl⟩
    | true =>
      exact .inl ((localExpr h).expression.bind fun _ =>
        Local.optionalSemicolon.bind fun _ => .pure _)
  · exact Local.optionalSemicolon.bind fun _ => .pure _

theorem wordStatement_local {make : Span → Stmt} :
    Local (wordStatement make) (wordStatement make) :=
  .next_bind fun _ => Local.optionalSemicolon.bind fun _ => .pure _

theorem moreParameters_local {seen : List String} (h : fuel ≤ more) :
    Local (moreParameters fuel seen) (moreParameters more seen) := by
  induction fuel generalizing more seen with
  | zero => exact .outOfFuel
  | succ fuel ih =>
    obtain ⟨more, rfl⟩ := Nat.exists_eq_add_one.mpr (Nat.lt_of_lt_of_le (Nat.succ_pos _) h)
    rw [moreParameters, moreParameters]
    refine .token_bind (fun _ => expect_readsOne) fun name => ?_
    by_cases known : name.lexeme ∈ seen
    · exact .inr ⟨_, if_pos known, if_pos known⟩
    · rw [if_neg known, if_neg known]
      refine .inl (Local.accept.bind fun comma => ?_)
      split
      · exact (ih (Nat.le_of_succ_le_succ h)).bind fun _ => .pure _
      · exact .pure _

theorem parameters_local (h : fuel ≤ more) : Local (parameters fuel) (parameters more) := by
  refine Local.peek.bind fun kind => ?_
  split
  · exact .pure _
  · exact moreParameters_local h

end Statements

/-- What is local about reading statements on some amount of fuel and on one that is as large. -/
structure LocalStmt (fuel more : Nat) : Prop where
  statement : Local (statement fuel) (statement more)
  ifStatement : Local (ifStatement fuel) (ifStatement more)
  block : Local (block fuel) (block more)
  statementsUntil : ∀ {closing}, Local (statementsUntil fuel closing) (statementsUntil more closing)

namespace LocalStmt

variable {fuel more : Nat}

theorem statement_succ (below : LocalStmt fuel more) (h : fuel ≤ more) :
    Local (Parser.statement (fuel + 1)) (Parser.statement (more + 1)) := by
  rw [Parser.statement, Parser.statement]
  refine Local.peek.bind fun kind => ?_
  split
  · exact varStatement_local h
  · exact defineStatement_local h
  · exact .next_bind fun _ => .expect_bind fun _ => .expect_bind fun _ =>
      (parameters_local h).bind fun _ => .expect_bind fun _ => below.block.bind fun _ => .pure _
  · exact includeStatement_local
  · exact below.ifStatement
  · exact .next_bind fun _ => (localExpr h).expression.bind fun _ =>
      below.block.bind fun _ => .pure _
  · exact .next_bind fun _ => below.block.bind fun _ => .pure _
  · exact .next_bind fun _ => .expect_bind fun _ => .expect_bind fun _ =>
      (localExpr h).expression.bind fun _ => below.block.bind fun _ => .pure _
  · exact returnStatement_local h
  · exact wordStatement_local
  · exact wordStatement_local
  · exact below.block.bind fun _ => .pure _
  · exact expressionStatement_local h

theorem ifStatement_succ (below : LocalStmt fuel more) (h : fuel ≤ more) :
    Local (Parser.ifStatement (fuel + 1)) (Parser.ifStatement (more + 1)) := by
  rw [Parser.ifStatement, Parser.ifStatement]
  refine .next_bind fun _ => (localExpr h).expression.bind fun _ => below.block.bind fun _ =>
    Local.accept.bind fun otherwise => ?_
  split
  · refine Local.peek.bind fun kind => ?_
    split
    · exact below.ifStatement.bind fun _ => .pure _
    · exact below.block.bind fun _ => .pure _
  · exact .pure _

theorem block_succ (below : LocalStmt fuel more) :
    Local (Parser.block (fuel + 1)) (Parser.block (more + 1)) := by
  rw [Parser.block, Parser.block]
  exact .expect_bind fun _ => below.statementsUntil.bind fun _ => .expect_bind fun _ => .pure _

theorem statementsUntil_succ (below : LocalStmt fuel more) {closing : TokenKind} :
    Local (Parser.statementsUntil (fuel + 1) closing)
      (Parser.statementsUntil (more + 1) closing) := by
  rw [Parser.statementsUntil, Parser.statementsUntil]
  refine Local.peek.bind fun kind => ?_
  split
  · exact .pure _
  · exact below.statement.bind fun _ => below.statementsUntil.bind fun _ => .pure _

end LocalStmt

theorem localStmt {fuel more : Nat} (h : fuel ≤ more) : LocalStmt fuel more := by
  induction fuel generalizing more with
  | zero => exact ⟨.outOfFuel, .outOfFuel, .outOfFuel, .outOfFuel⟩
  | succ fuel ih =>
    obtain ⟨more, rfl⟩ := Nat.exists_eq_add_one.mpr (Nat.lt_of_lt_of_le (Nat.succ_pos _) h)
    have room := Nat.le_of_succ_le_succ h
    have below := ih room
    exact {
      statement := below.statement_succ room
      ifStatement := below.ifStatement_succ room
      block := below.block_succ
      statementsUntil := below.statementsUntil_succ }

end Parser

end Script
