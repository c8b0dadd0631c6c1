import Script.Proofs.Grammar.Progress.Expressions

namespace Script

namespace Pass

variable {c d : Cursor} {t : Token} {fuel depth turns : Nat}

theorem expression_follows (deep : fuel ≤ depth) :
    Follows (Parser.expression fuel 0) (expression depth 0) (c.current + 1) c :=
  (followsExpr fuel).expression deep

theorem varStatement_follows (here : c.token? = some t) (more : t.kind ≠ .endOfInput)
    (deep : fuel ≤ depth) : Follows (Parser.varStatement fuel) (varStatement (expression depth 0))
      (c.current + 1) c := by
  refine (Follows.next here more).bind fun first d _ _ far => ?_
  refine (Follows.expect (by simp)).bind fun name e _ _ far' => ?_
  refine (Follows.accept (by simp)).bind fun equals f _ _ far'' => ?_
  split
  · refine (expression_follows deep).bind fun value g _ _ _ => ?_
    exact Follows.optionalSemicolon.bind fun _ i _ _ _ => .pure (by omega)
  · exact Follows.optionalSemicolon.bind fun _ g _ _ _ => .pure (by omega)

theorem defineStatement_follows (here : c.token? = some t) (more : t.kind ≠ .endOfInput)
    (deep : fuel ≤ depth) : Follows (Parser.defineStatement fuel)
      (defineStatement (expression depth 0)) (c.current + 1) c := by
  refine (Follows.next here more).bind fun first d _ _ far => ?_
  refine (Follows.expect (by simp)).bind fun name e _ _ far' => ?_
  refine (Follows.expect (by simp)).bind fun equals f _ _ far'' => ?_
  refine (expression_follows deep).bind fun value g _ _ _ => ?_
  exact Follows.optionalSemicolon.bind fun _ i _ _ _ => .pure (by omega)

theorem includeStatement_follows (here : c.token? = some t) (more : t.kind ≠ .endOfInput) :
    Follows Parser.includeStatement includeStatement (c.current + 1) c := by
  refine (Follows.next here more).bind fun first d _ _ far => .peek_bind fun named there => ?_
  split
  next kind =>
    have more' : named.kind ≠ .endOfInput := by
      rcases kind with kind | kind <;> simp [kind]
    refine (Follows.next there more').bind fun name e _ _ far' => ?_
    split
    · exact .failAt
    · exact Follows.optionalSemicolon.bind fun _ f _ _ _ => .pure (by omega)
  next => exact .fail there

theorem returnStatement_follows (here : c.token? = some t) (more : t.kind ≠ .endOfInput)
    (deep : fuel ≤ depth) : Follows (Parser.returnStatement fuel)
      (returnStatement (expression depth 0)) (c.current + 1) c := by
  refine (Follows.next here more).bind fun first d _ _ far => .peek_bind fun t' _ => ?_
  split
  · exact Follows.optionalSemicolon.bind fun _ e _ _ _ => .pure (by omega)
  · refine (expression_follows deep).bind fun value e _ _ _ => ?_
    exact Follows.optionalSemicolon.bind fun _ f _ _ _ => .pure (by omega)

theorem expressionStatement_follows (deep : fuel ≤ depth) :
    Follows (Parser.expressionStatement fuel) (expressionStatement (expression depth 0))
      (c.current + 1) c := by
  refine (expression_follows deep).bind fun target d _ _ far => .peek_bind fun t there => ?_
  split
  next kind =>
    refine (Follows.next there (by simp [kind])).bind fun equals e _ _ far' => ?_
    split
    · refine (expression_follows deep).bind fun value f _ _ _ => ?_
      exact Follows.optionalSemicolon.bind fun _ g _ _ _ => .pure (by omega)
    · exact .failAt
  next => exact Follows.optionalSemicolon.bind fun _ e _ _ _ => .pure (by omega)

theorem wordStatement_follows {make : Span → Stmt} (here : c.token? = some t)
    (more : t.kind ≠ .endOfInput) :
    Follows (Parser.wordStatement make) (wordStatement make) (c.current + 1) c := by
  refine (Follows.next here more).bind fun word d _ _ far => ?_
  exact Follows.optionalSemicolon.bind fun _ e _ _ _ => .pure (by omega)

theorem moreParameters_follows {seen before : List String}
    (same : ∀ name, name ∈ seen ↔ name ∈ before) (enough : c.rest.length ≤ turns) :
    Follows ((before ++ ·) <$> Parser.moreParameters fuel seen)
      (rounds (commaTurn parameter) turns before) c.current c := by
  induction fuel generalizing c seen before turns with
  | zero => exact .outOfFuel
  | succ fuel ih =>
    refine .round enough fun turns room => ?_
    simp only [rounds, commaTurn, parameter, bind_assoc, pure_bind]
    rw [Parser.moreParameters, map_bind]
    refine (Follows.expect (by simp)).bind fun name d tokens _ far => ?_
    by_cases known : name.lexeme ∈ seen
    · rw [if_pos known, if_pos ((same _).mp known)]
      exact .failAt
    · rw [if_neg known, if_neg (mt (same _).mpr known), pure_bind]
      refine .comma (by omega) fun e tokens' further => ?_
      have shorter := room e (tokens'.trans tokens) (by omega)
      have same' (other) : other ∈ name.lexeme :: seen ↔ other ∈ before ++ [name.lexeme] := by
        simp [same, or_comm]
      exact (ih same' shorter).mono (by omega)

theorem parameters_follows :
    Follows (Parser.parameters fuel) (separated .rightParen parameter) c.current c := by
  refine .peek_bind fun t _ => ?_
  split
  · exact .pure (Nat.le_refl _)
  · exact .gather fun turns enough => moreParameters_follows (fun _ => Iff.rfl) enough

/-- How passes go as statements are read on an amount of fuel, calls being nested at least as
deeply. -/
structure FollowsStmt (fuel : Nat) : Prop where
  statement : ∀ {depth c}, fuel ≤ depth →
    Follows (Parser.statement fuel) (statement depth) (c.current + 1) c
  ifStatement : ∀ {depth c t}, fuel ≤ depth → c.token? = some t → t.kind = .keyword .if →
    Follows (Parser.ifStatement fuel) (ifStatement depth) (c.current + 1) c
  block : ∀ {depth c}, fuel ≤ depth →
    Follows (Parser.block fuel) (block (Pass.statement depth)) (c.current + 1) c
  statementsUntil : ∀ {depth closing before turns c}, fuel ≤ depth → c.rest.length ≤ turns →
    Follows ((before ++ ·) <$> Parser.statementsUntil fuel closing)
      (rounds (statementTurn closing (Pass.statement depth)) turns before) c.current c

namespace FollowsStmt

theorem statement_succ (below : FollowsStmt fuel) (deep : fuel + 1 ≤ depth) :
    Follows (Parser.statement (fuel + 1)) (Pass.statement depth) (c.current + 1) c := by
  obtain ⟨depth, rfl⟩ := Nat.exists_eq_add_one.mpr (Nat.lt_of_lt_of_le (Nat.succ_pos _) deep)
  rw [Parser.statement, Pass.statement]
  refine .peek_bind fun t here => ?_
  generalize kind : t.kind = k
  split
  · exact varStatement_follows here (by simp [kind]) (by omega)
  · exact defineStatement_follows here (by simp [kind]) (by omega)
  · refine (Follows.next here (by simp [kind])).bind fun first d _ _ far => ?_
    refine (Follows.expect (by simp)).bind fun name e _ _ far' => ?_
    refine (Follows.expect (by simp)).bind fun opening f _ _ far'' => ?_
    refine parameters_follows.bind fun names g _ _ _ => ?_
    refine (Follows.expect (by simp)).bind fun closing i _ _ _ => ?_
    exact (below.block (by omega)).bind fun body j _ _ _ => .pure (by omega)
  · exact includeStatement_follows here (by simp [kind])
  · exact below.ifStatement (by omega) here kind
  · refine (Follows.next here (by simp [kind])).bind fun first d _ _ far => ?_
    refine (expression_follows (by omega)).bind fun condition e _ _ _ => ?_
    exact (below.block (by omega)).bind fun body f _ _ _ => .pure (by omega)
  · refine (Follows.next here (by simp [kind])).bind fun first d _ _ far => ?_
    exact (below.block (by omega)).bind fun body e _ _ _ => .pure (by omega)
  · refine (Follows.next here (by simp [kind])).bind fun first d _ _ far => ?_
    refine (Follows.expect (by simp)).bind fun binding e _ _ far' => ?_
    refine (Follows.expect (by simp)).bind fun word f _ _ far'' => ?_
    refine (expression_follows (by omega)).bind fun iterable g _ _ _ => ?_
    exact (below.block (by omega)).bind fun body i _ _ _ => .pure (by omega)
  · exact returnStatement_follows here (by simp [kind]) (by omega)
  · exact wordStatement_follows here (by simp [kind])
  · exact wordStatement_follows here (by simp [kind])
  · exact (below.block (by omega)).bind fun body d _ _ far => .pure far
  · simpa only using expressionStatement_follows (by omega)

theorem ifStatement_succ (below : FollowsStmt fuel) (deep : fuel + 1 ≤ depth)
    (here : c.token? = some t) (kind : t.kind = .keyword .if) :
    Follows (Parser.ifStatement (fuel + 1)) (Pass.ifStatement depth) (c.current + 1) c := by
  obtain ⟨depth, rfl⟩ := Nat.exists_eq_add_one.mpr (Nat.lt_of_lt_of_le (Nat.succ_pos _) deep)
  rw [Parser.ifStatement, Pass.ifStatement]
  refine (Follows.next here (by simp [kind])).bind fun first d _ _ far => ?_
  refine (expression_follows (by omega)).bind fun condition e _ _ _ => ?_
  refine (below.block (by omega)).bind fun body f _ _ _ => ?_
  refine (Follows.accept (by simp)).bind fun more g _ _ _ => ?_
  dsimp only
  split
  · refine .peek_bind fun t' there => ?_
    split
    next another =>
      exact (below.ifStatement (by omega) there another).bind fun other i _ _ _ => .pure (by omega)
    next => exact (below.block (by omega)).bind fun otherwise i _ _ _ => .pure (by omega)
  · exact .pure (by omega)

theorem statements (below : FollowsStmt fuel) {closing : TokenKind} (deep : fuel ≤ depth) :
    Follows (Parser.statementsUntil fuel closing)
      (loop (statementTurn closing (Pass.statement depth)) []) c.current c :=
  .gather fun _ enough => below.statementsUntil deep enough

theorem block_succ (below : FollowsStmt fuel) (deep : fuel + 1 ≤ depth) :
    Follows (Parser.block (fuel + 1)) (Pass.block (Pass.statement depth)) (c.current + 1) c := by
  rw [Parser.block, Pass.block]
  refine (Follows.expect (by simp)).bind fun first d _ _ far => ?_
  refine (below.statements (by omega)).bind fun body e _ _ _ => ?_
  exact (Follows.expect (by simp)).bind fun last f _ _ _ => .pure (by omega)

theorem statementsUntil_succ (below : FollowsStmt fuel) {closing : TokenKind} {before : List Stmt}
    (deep : fuel + 1 ≤ depth) (enough : c.rest.length ≤ turns) :
    Follows ((before ++ ·) <$> Parser.statementsUntil (fuel + 1) closing)
      (rounds (statementTurn closing (Pass.statement depth)) turns before) c.current c := by
  refine .round enough fun turns room => ?_
  simp only [rounds, statementTurn, bind_assoc]
  rw [Parser.statementsUntil, map_bind]
  refine .peek_bind fun t here => ?_
  split
  · rw [map_pure, List.append_nil, pure_bind]
    exact .pure (Nat.le_refl _)
  · rw [map_bind, bind_assoc]
    refine (below.statement (by omega)).bind fun first d same _ far => ?_
    have shorter := room d same (by omega)
    rw [pure_bind]
    exact ((below.statementsUntil (by omega) shorter).mono (by omega)).cons

end FollowsStmt

theorem followsStmt (fuel : Nat) : FollowsStmt fuel := by
  induction fuel with
  | zero =>
    exact {
      statement := fun _ => .outOfFuel
      ifStatement := fun _ _ _ => .outOfFuel
      block := fun _ => .outOfFuel
      statementsUntil := fun _ _ => .outOfFuel }
  | succ fuel ih =>
    exact {
      statement := ih.statement_succ
      ifStatement := ih.ifStatement_succ
      block := ih.block_succ
      statementsUntil := ih.statementsUntil_succ }

/-- How parsing goes from a cursor on, with so much fuel for the parsers, and with calls of the
passes nested that deeply. The cursor moves on wherever a statement, a block or an expression is
read. -/
structure ProgressesFrom (c : Cursor) (fuel : Nat) : Prop where
  program : GoesWith c c.current (Parser.statementsUntil fuel .endOfInput c.rest) (program fuel c)
  statement : GoesWith c (c.current + 1) (Parser.statement fuel c.rest) (statement fuel c)
  ifStatement : ∀ t, c.token? = some t → t.kind = .keyword .if →
    GoesWith c (c.current + 1) (Parser.ifStatement fuel c.rest) (ifStatement fuel c)
  block : GoesWith c (c.current + 1) (Parser.block fuel c.rest) (block (Pass.statement fuel) c)
  expression : ∀ level ≤ unaryLevel,
    GoesWith c (c.current + 1) (Parser.expression fuel level c.rest) (expression fuel level c)
  unaryExpression :
    GoesWith c (c.current + 1) (Parser.unaryExpression fuel c.rest) (unaryExpression fuel c)
  suffixed : GoesWith c (c.current + 1) ((Parser.primary fuel >>= Parser.suffixes fuel) c.rest)
    (suffixed (primary (Pass.expression fuel 0)) (Pass.expression fuel 0) c)
  primary : GoesWith c (c.current + 1) (Parser.primary fuel c.rest)
    (primary (Pass.expression fuel 0) c)

end Pass

theorem Parser.suffixed_fueled {fuel : Nat} {tokens : List Token} {f : ParseFailure}
    (room : 16 * tokens.length + 1 ≤ fuel)
    (h : (primary fuel >>= suffixes fuel) tokens = .error f) :
    f.error ≠ .outOfFuel := by
  rcases bind_eq_error.mp h with h | ⟨base, middle, hb, h⟩
  · exact ((failsExpr fuel).primary room h).fueled
  · have read := (readsExpr fuel).primary hb
    have shorter := read.length_lt
    exact ((failsExpr fuel).suffixes read (by omega) h).fueled

/-- Parsers make progress on all tokens of which the last one alone is the end of the input. From
wherever a cursor is on them, every pass goes as its parser does and never strays: it looks at
tokens only, no loop goes round more often than tokens are left where it begins, and calls nest no
more deeply than sixteen for each token left, and sixteen. What is read brings the cursor on.
Neither that nor a complaint brings it behind the end of the input. -/
theorem parsers_progress {c : Cursor} {fuel : Nat} (on : c.On) (enough : parseFuel c.rest ≤ fuel) :
    Pass.ProgressesFrom c fuel := by
  have expr := Pass.followsExpr fuel
  have stmt := Pass.followsStmt fuel
  have deep := Nat.le_refl fuel
  have failsExpr := Parser.failsExpr fuel
  have failsStmt := Parser.failsStmt fuel
  unfold parseFuel at enough
  exact {
    program := stmt.statements deep on fun f h => (failsStmt.statementsUntil (by omega) h).fueled
    statement := stmt.statement deep on fun f h => (failsStmt.statement (by omega) h).fueled
    ifStatement := fun t here kind => stmt.ifStatement deep here kind on fun f h =>
      (failsStmt.ifStatement ((Cursor.nextKind_rest here).trans kind) (by omega) h).fueled
    block := stmt.block deep on fun f h => (failsStmt.block (by omega) h).fueled
    expression := fun level tight => expr.expression deep on fun f h =>
      (failsExpr.expression tight (by omega) h).fueled
    unaryExpression := expr.unaryExpression deep on fun f h =>
      (failsExpr.unaryExpression (by omega) h).fueled
    suffixed := expr.suffixed deep on fun f h => Parser.suffixed_fueled (by omega) h
    primary := expr.primary deep on fun f h => (failsExpr.primary (by omega) h).fueled }

/-- The cursor is where the body of the loop begins. -/
theorem parsers_progress_inLoop :
    ∃ tokens, tokenize "while x \x7b f(1, -y[2]) \x7d" = .ok tokens ∧ (Cursor.mk tokens 3).On ∧
      parseFuel (Cursor.mk tokens 3).rest ≤ parseFuel tokens ∧
      Pass.ProgressesFrom ⟨tokens, 3⟩ (parseFuel tokens) := by
  have lexes : (tokenize "while x \x7b f(1, -y[2]) \x7d").toOption.map List.length = some 15 := by
    decide +kernel
  cases lexed : tokenize "while x \x7b f(1, -y[2]) \x7d" with
  | error span =>
    rw [lexed] at lexes
    cases lexes
  | ok tokens =>
    rw [lexed] at lexes
    have length : tokens.length = 15 := Option.some.inj lexes
    have on : (Cursor.mk tokens 3).On := Cursor.on_of_tokenize lexed (by omega)
    have enough : parseFuel (Cursor.mk tokens 3).rest ≤ parseFuel tokens := by
      rw [parseFuel, parseFuel, Cursor.length_rest]
      dsimp only
      omega
    exact ⟨tokens, rfl, on, enough, parsers_progress on enough⟩

example :
    Pass.program 32 (.start [⟨.keyword .return, "return", ⟨0, 6, 1⟩⟩]) = .error .noToken := by
  rfl

end Script
