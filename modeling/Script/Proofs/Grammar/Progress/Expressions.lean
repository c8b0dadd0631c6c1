import Script.Proofs.Grammar.Pass

namespace Script

namespace Pass

variable {α β σ : Type} {c d : Cursor} {t : Token} {goal middle : Nat}

/-- Whether a pass from a cursor on goes as a parser does: either both have the same result, and the
cursor comes to a given position at least, or both have the same complaint. In either case the
cursor does not go back, and comes to a token. -/
inductive GoesWith (c : Cursor) (goal : Nat) :
    Except ParseFailure (α × List Token) → Except Stray (Except Diagnostic α × Cursor) → Prop where
  | ok {a : α} {d : Cursor} (same : d.tokens = c.tokens) (onward : c.current ≤ d.current)
    (far : goal ≤ d.current) (inside : d.current < c.tokens.length) :
    GoesWith c goal (.ok (a, d.rest)) (.ok (.ok a, d))
  | error {f : ParseFailure} {d : Cursor} (same : d.tokens = c.tokens)
    (onward : c.current ≤ d.current) (inside : d.current < c.tokens.length)
    (fueled : f.error ≠ .outOfFuel) : GoesWith c goal (.error f) (.ok (.error f.diagnostic, d))

namespace GoesWith

variable {p : Except ParseFailure (α × List Token)}
  {w : Except Stray (Except Diagnostic α × Cursor)}

theorem mono (h : GoesWith c middle p w) (enough : goal ≤ middle) : GoesWith c goal p w := by
  cases h with
  | ok same onward far inside => exact .ok same onward (Nat.le_trans enough far) inside
  | error same onward inside fueled => exact .error same onward inside fueled

theorem after (same : d.tokens = c.tokens) (onward : c.current ≤ d.current)
    (h : GoesWith d goal p w) : GoesWith c goal p w := by
  cases h with
  | ok same' onward' far inside =>
    exact .ok (same'.trans same) (Nat.le_trans onward onward') far (same ▸ inside)
  | error same' onward' inside fueled =>
    exact .error (same'.trans same) (Nat.le_trans onward onward') (same ▸ inside) fueled

theorem refused {e : ParseError} (here : c.token? = some t) (fueled : e ≠ .outOfFuel)
    (same : d.tokens = c.tokens) (onward : c.current ≤ d.current)
    (inside : d.current < c.tokens.length) :
    GoesWith c goal ((Parser.fail e : Parser α) c.rest) (complain e t d) := by
  rw [Parser.fail, Cursor.rest_of_token? here]
  exact .error same onward inside fueled

end GoesWith

/-- Whether a pass goes as a parser does, unless that runs out of fuel. -/
def Follows (p : Parser α) (w : Pass α) (goal : Nat) (c : Cursor) : Prop :=
  c.On → (∀ f, p c.rest = .error f → f.error ≠ .outOfFuel) → GoesWith c goal (p c.rest) (w c)

namespace Follows

variable {p : Parser α} {w : Pass α} {a : α} {turns : Nat} {kind : TokenKind} {e : ParseError}

theorem mono (h : Follows p w middle c) (enough : goal ≤ middle) : Follows p w goal c :=
  fun on fueled => (h on fueled).mono enough

theorem bind {next : α → Parser β} {next' : α → Pass β} (first : Follows p w middle c)
    (others : ∀ a d, d.tokens = c.tokens → c.current ≤ d.current → middle ≤ d.current →
      Follows (next a) (next' a) goal d) : Follows (p >>= next) (w >>= next') goal c := by
  intro on fueled
  have along := first on fun f h => fueled f (Parser.bind_of_error h)
  generalize hp : p c.rest = r, hw : w c = s at along
  cases along with
  | @ok a d same onward far inside =>
    rw [Parser.bind_of_ok hp] at fueled ⊢
    rw [bind_of_ok hw]
    have on' : d.On := ⟨same ▸ on.ends, same ▸ inside⟩
    exact (others a d same onward far on' fueled).after same onward
  | error same onward inside fueled =>
    rw [Parser.bind_of_error hp, bind_of_error hw]
    exact .error same onward inside fueled

theorem pure (reached : goal ≤ c.current) : Follows (pure a) (Pure.pure a) goal c := fun on _ =>
  .ok rfl (Nat.le_refl _) reached on.inside

theorem outOfFuel : Follows (Parser.fail .outOfFuel) w goal c := fun _ fueled =>
  absurd rfl (fueled _ rfl)

theorem failAt : Follows (Parser.failAt t e : Parser α) (complain e t) goal c := fun on fueled =>
  .error rfl (Nat.le_refl _) on.inside (fueled _ rfl)

theorem fail (here : c.token? = some t) :
    Follows (Parser.fail e : Parser α) (complain e t) goal c := fun on fueled =>
  .refused here (fueled ⟨e, c.rest⟩ rfl) rfl (Nat.le_refl _) on.inside

theorem fail_advance {next : β → Pass α} (here : c.token? = some t) (more : t.kind ≠ .endOfInput) :
    Follows (Parser.fail e) (advance >>= fun first => complain e first >>= next) goal c := by
  intro on fueled
  rw [bind_of_ok (advance_of_token? here more), bind_of_error rfl]
  exact .refused here (fueled ⟨e, c.rest⟩ rfl) rfl (Nat.le_succ _) (on.inside_succ here more)

theorem peek_bind {next : TokenKind → Parser β} {next' : Token → Pass β}
    (others : ∀ t, c.token? = some t → Follows (next t.kind) (next' t) goal c) :
    Follows (Parser.peek >>= next) (peek >>= next') goal c := by
  intro on fueled
  obtain ⟨t, here⟩ := on.exists_token
  rw [Parser.peek_bind, Cursor.nextKind_rest here] at fueled ⊢
  rw [bind_of_ok (peek_of_token? here)]
  exact others t here on fueled

theorem next (here : c.token? = some t) (more : t.kind ≠ .endOfInput) :
    Follows Parser.next advance (c.current + 1) c := by
  intro on _
  rw [advance_of_token? here more, Cursor.rest_of_token? here]
  exact .ok rfl (Nat.le_succ _) (Nat.le_refl _) (on.inside_succ here more)

theorem expect (more : kind ≠ .endOfInput) :
    Follows (Parser.expect kind e) (expect kind e) (c.current + 1) c := by
  intro on fueled
  obtain ⟨t, here⟩ := on.exists_token
  rw [Pass.expect, bind_of_ok (peek_of_token? here)]
  by_cases same : t.kind = kind
  · have read : Parser.expect kind e c.rest = Parser.next c.rest := by
      rw [Cursor.rest_of_token? here]
      exact if_pos same
    rw [read] at fueled ⊢
    rw [if_pos same]
    exact next here (same ▸ more) on fueled
  · have refused : Parser.expect kind e c.rest = Parser.fail e c.rest := by
      rw [Cursor.rest_of_token? here]
      exact if_neg same
    rw [refused] at fueled ⊢
    rw [if_neg same]
    exact fail here on fueled

theorem accept (more : kind ≠ .endOfInput) :
    Follows (Parser.accept kind) (accept kind) c.current c := by
  intro on _
  obtain ⟨t, here⟩ := on.exists_token
  rw [Pass.accept, bind_of_ok (peek_of_token? here)]
  by_cases same : t.kind = kind
  · have read :
        Parser.accept kind c.rest = .ok (true, { c with current := c.current + 1 }.rest) := by
      rw [Cursor.rest_of_token? here]
      exact if_pos same
    rw [if_pos same, read, bind_of_ok (advance_of_token? here (same ▸ more))]
    exact .ok rfl (Nat.le_succ _) (Nat.le_succ _) (on.inside_succ here (same ▸ more))
  · have left : Parser.accept kind c.rest = .ok (false, c.rest) := by
      rw [Cursor.rest_of_token? here]
      exact if_neg same
    rw [if_neg same, left]
    exact .ok rfl (Nat.le_refl _) (Nat.le_refl _) on.inside

theorem optionalSemicolon : Follows Parser.optionalSemicolon optionalSemicolon c.current c :=
  (accept (by simp)).bind fun _ _ _ onward _ => .pure onward

theorem constant {value : Literal} (here : c.token? = some t) (more : t.kind ≠ .endOfInput) :
    Follows (Parser.constant value) (constant value) (c.current + 1) c :=
  (next here more).bind fun _ _ _ _ far => .pure far

/-- With as many turns as tokens are left a loop may go round. The turns that remain are then enough
for what is left behind any token. -/
theorem round {turn : σ → Pass (Turn σ α)} {state : σ} (enough : c.rest.length ≤ turns)
    (once : ∀ left, (∀ d : Cursor, d.tokens = c.tokens → c.current < d.current →
      d.rest.length ≤ left) → Follows p (rounds turn (left + 1) state) goal c) :
    Follows p (rounds turn turns state) goal c := by
  intro on
  have inside := on.inside
  rw [Cursor.length_rest] at enough
  obtain ⟨left, rfl⟩ := Nat.exists_eq_add_one.mpr (show 0 < turns by omega)
  refine once left (fun d same further => ?_) on
  rw [Cursor.length_rest, same]
  omega

theorem loop {turn : σ → Pass (Turn σ α)} {state : σ}
    (h : ∀ turns, c.rest.length ≤ turns → Follows p (rounds turn turns state) goal c) :
    Follows p (loop turn state) goal c :=
  h c.rest.length (Nat.le_refl _)

section Gathering

variable {p : Parser (List α)} {before : List α} {first : α}

theorem gather {turn : List α → Pass (Turn (List α) (List α))}
    (h : ∀ turns, c.rest.length ≤ turns → Follows (([] ++ ·) <$> p) (rounds turn turns []) goal c) :
    Follows p (Pass.loop turn []) goal c := by
  have same : ([] ++ ·) <$> p = p := by simp
  exact .loop fun turns enough => same ▸ h turns enough

theorem cons {w : Pass (List α)} (h : Follows ((before ++ [first] ++ ·) <$> p) w goal c) :
    Follows ((before ++ ·) <$> (p >>= fun others => Pure.pure (first :: others))) w goal c := by
  have same : (before ++ ·) <$> (p >>= fun others => Pure.pure (first :: others)) =
      (before ++ [first] ++ ·) <$> p := by simp
  rwa [same]

theorem comma {one : List α → Pass α} (reached : goal ≤ c.current)
    (others : ∀ d : Cursor, d.tokens = c.tokens → c.current ≤ d.current →
      Follows ((before ++ [first] ++ ·) <$> p)
        (rounds (commaTurn one) turns (before ++ [first])) goal d) :
    Follows
      ((before ++ ·) <$> (do
        if ← Parser.accept .comma then
          let others ← p
          Pure.pure (first :: others)
        else Pure.pure [first]))
      (do
        let comma ← Pass.accept .comma
        proceed (rounds (commaTurn one) turns)
          (if comma then .again (before ++ [first]) else .done (before ++ [first]))) goal c := by
  rw [map_bind]
  refine (accept (by simp)).bind fun comma d same onward _ => ?_
  cases comma with
  | true => exact (others d same onward).cons
  | false => exact .pure (Nat.le_trans reached onward)

end Gathering

end Follows

/-- How passes go as expressions are read on an amount of fuel, calls being nested at least as
deeply. A loop is met anywhere on its way, with turns enough for the tokens that are left there. -/
structure FollowsExpr (fuel : Nat) : Prop where
  expression : ∀ {depth level c}, fuel ≤ depth →
    Follows (Parser.expression fuel level) (expression depth level) (c.current + 1) c
  operatorChain : ∀ {depth level left turns c}, fuel ≤ depth → c.rest.length ≤ turns →
    Follows (Parser.operatorChain fuel level left)
      (rounds (operatorTurn level (Pass.expression depth (level + 1))) turns left) c.current c
  unaryExpression : ∀ {depth c}, fuel ≤ depth →
    Follows (Parser.unaryExpression fuel) (unaryExpression depth) (c.current + 1) c
  suffixes : ∀ {depth base turns c}, fuel ≤ depth → c.rest.length ≤ turns →
    Follows (Parser.suffixes fuel base)
      (rounds (suffixTurn (Pass.expression depth 0)) turns base) c.current c
  primary : ∀ {depth c}, fuel ≤ depth →
    Follows (Parser.primary fuel) (primary (Pass.expression depth 0)) (c.current + 1) c
  expressionsUntil : ∀ {depth closing c}, fuel ≤ depth →
    Follows (Parser.expressionsUntil fuel closing)
      (separated closing fun _ => Pass.expression depth 0) c.current c
  moreExpressions : ∀ {depth before turns c}, fuel ≤ depth → c.rest.length ≤ turns →
    Follows ((before ++ ·) <$> Parser.moreExpressions fuel)
      (rounds (commaTurn fun _ => Pass.expression depth 0) turns before) c.current c

namespace FollowsExpr

variable {fuel depth level turns : Nat}

theorem suffixed (below : FollowsExpr fuel) (deep : fuel ≤ depth) :
    Follows (Parser.primary fuel >>= Parser.suffixes fuel)
      (Pass.suffixed (Pass.primary (Pass.expression depth 0)) (Pass.expression depth 0))
      (c.current + 1) c := by
  refine (below.primary deep).bind fun base d _ _ far => ?_
  exact .loop fun _ enough => (below.suffixes deep enough).mono far

theorem expression_succ (below : FollowsExpr fuel) (deep : fuel + 1 ≤ depth) :
    Follows (Parser.expression (fuel + 1) level) (Pass.expression depth level) (c.current + 1)
      c := by
  obtain ⟨depth, rfl⟩ := Nat.exists_eq_add_one.mpr (Nat.lt_of_lt_of_le (Nat.succ_pos _) deep)
  rw [Parser.expression, Pass.expression]
  split
  · refine (below.expression (by omega)).bind fun left d _ _ far => ?_
    exact .loop fun _ enough => (below.operatorChain (by omega) enough).mono far
  · exact below.unaryExpression (by omega)

theorem operatorChain_succ (below : FollowsExpr fuel) {left : Expr} (deep : fuel + 1 ≤ depth)
    (enough : c.rest.length ≤ turns) :
    Follows (Parser.operatorChain (fuel + 1) level left)
      (rounds (operatorTurn level (Pass.expression depth (level + 1))) turns left) c.current c := by
  refine .round enough fun turns room => ?_
  simp only [Parser.operatorChain, rounds, operatorTurn, bind_assoc]
  refine .peek_bind fun t here => ?_
  cases kind : t.kind.binaryOp? with
  | none =>
    simp only [pure_bind]
    exact .pure (Nat.le_refl _)
  | some op =>
    have more := TokenKind.ne_of_isInner (TokenKind.isInner_of_binaryOp? kind)
    dsimp only
    split
    · simp only [bind_assoc, pure_bind]
      refine (Follows.next here more).bind fun _ d same _ far => ?_
      refine (below.expression (by omega)).bind fun right e same' _ far' => ?_
      have shorter := room e (same'.trans same) (by omega)
      exact (below.operatorChain (by omega) shorter).mono (by omega)
    · simp only [pure_bind]
      exact .pure (Nat.le_refl _)

theorem unaryExpression_succ (below : FollowsExpr fuel) (deep : fuel + 1 ≤ depth) :
    Follows (Parser.unaryExpression (fuel + 1)) (Pass.unaryExpression depth) (c.current + 1) c := by
  obtain ⟨depth, rfl⟩ := Nat.exists_eq_add_one.mpr (Nat.lt_of_lt_of_le (Nat.succ_pos _) deep)
  rw [Parser.unaryExpression, Pass.unaryExpression]
  refine .peek_bind fun t here => ?_
  cases kind : t.kind.unaryOp? with
  | some op =>
    have more := TokenKind.ne_of_isInner (TokenKind.isInner_of_unaryOp? kind)
    refine (Follows.next here more).bind fun sign d _ _ far => ?_
    exact (below.unaryExpression (by omega)).bind fun operand e _ _ far' => .pure (by omega)
  | none => exact below.suffixed (by omega)

theorem suffixes_succ (below : FollowsExpr fuel) {base : Expr} (deep : fuel + 1 ≤ depth)
    (enough : c.rest.length ≤ turns) :
    Follows (Parser.suffixes (fuel + 1) base)
      (rounds (suffixTurn (Pass.expression depth 0)) turns base) c.current c := by
  refine .round enough fun turns room => ?_
  simp only [Parser.suffixes, rounds, suffixTurn, bind_assoc]
  refine .peek_bind fun t here => ?_
  generalize kind : t.kind = k
  split
  · split
    · simp only [bind_assoc, pure_bind]
      refine (Follows.next here (by simp [kind])).bind fun first d same _ far => ?_
      refine (below.expressionsUntil (by omega)).bind fun arguments e same' _ far' => ?_
      refine (Follows.expect (by simp)).bind fun last f same'' _ far'' => ?_
      have shorter := room f (same''.trans (same'.trans same)) (by omega)
      exact (below.suffixes (by omega) shorter).mono (by omega)
    · simp only [bind_assoc]
      exact .fail_advance here (by simp [kind])
  · simp only [bind_assoc, pure_bind]
    refine (Follows.next here (by simp [kind])).bind fun first d same _ far => ?_
    refine (below.expression (by omega)).bind fun index e same' _ far' => ?_
    refine (Follows.expect (by simp)).bind fun last f same'' _ far'' => ?_
    have shorter := room f (same''.trans (same'.trans same)) (by omega)
    exact (below.suffixes (by omega) shorter).mono (by omega)
  · simp only [pure_bind]
    exact .pure (Nat.le_refl _)

theorem primary_succ (below : FollowsExpr fuel) (deep : fuel + 1 ≤ depth) :
    Follows (Parser.primary (fuel + 1)) (Pass.primary (Pass.expression depth 0)) (c.current + 1)
      c := by
  rw [Parser.primary, Pass.primary]
  refine .peek_bind fun t here => ?_
  generalize kind : t.kind = k
  split
  · exact .constant here (by simp [kind])
  · exact .constant here (by simp [kind])
  · exact .constant here (by simp [kind])
  · refine (Follows.next here (by simp [kind])).bind fun token d _ _ far => ?_
    cases numberLiteral? token.lexeme with
    | some value => exact .pure far
    | none => exact .failAt
  · exact (Follows.next here (by simp [kind])).bind fun token d _ _ far => .pure far
  · exact (Follows.next here (by simp [kind])).bind fun token d _ _ far => .pure far
  · refine (Follows.next here (by simp [kind])).bind fun first d _ _ far => ?_
    refine (below.expression (by omega)).bind fun inner e _ _ far' => ?_
    exact (Follows.expect (by simp)).bind fun last f _ _ far'' => .pure (by omega)
  · refine (Follows.next here (by simp [kind])).bind fun first d _ _ far => ?_
    refine (below.expressionsUntil (by omega)).bind fun elements e _ _ far' => ?_
    exact (Follows.expect (by simp)).bind fun last f _ _ far'' => .pure (by omega)
  · simpa only using Follows.fail here

theorem expressionsUntil_succ (below : FollowsExpr fuel) {closing : TokenKind}
    (deep : fuel + 1 ≤ depth) : Follows (Parser.expressionsUntil (fuel + 1) closing)
      (separated closing fun _ => Pass.expression depth 0) c.current c := by
  rw [Parser.expressionsUntil, separated]
  refine .peek_bind fun t _ => ?_
  split
  · exact .pure (Nat.le_refl _)
  · exact .gather fun turns enough => below.moreExpressions (by omega) enough

theorem moreExpressions_succ (below : FollowsExpr fuel) {before : List Expr}
    (deep : fuel + 1 ≤ depth) (enough : c.rest.length ≤ turns) :
    Follows ((before ++ ·) <$> Parser.moreExpressions (fuel + 1))
      (rounds (commaTurn fun _ => Pass.expression depth 0) turns before) c.current c := by
  refine .round enough fun turns room => ?_
  simp only [rounds, commaTurn, bind_assoc, pure_bind]
  rw [Parser.moreExpressions, map_bind]
  refine (below.expression (by omega)).bind fun first d same _ far => ?_
  refine .comma (by omega) fun e same' further => ?_
  have shorter := room e (same'.trans same) (by omega)
  exact (below.moreExpressions (by omega) shorter).mono (by omega)

end FollowsExpr

theorem followsExpr (fuel : Nat) : FollowsExpr fuel := by
  induction fuel with
  | zero =>
    exact {
      expression := fun _ => .outOfFuel
      operatorChain := fun _ _ => .outOfFuel
      unaryExpression := fun _ => .outOfFuel
      suffixes := fun _ _ => .outOfFuel
      primary := fun _ => .outOfFuel
      expressionsUntil := fun _ => .outOfFuel
      moreExpressions := fun _ _ => .outOfFuel }
  | succ fuel ih =>
    exact {
      expression := ih.expression_succ
      operatorChain := ih.operatorChain_succ
      unaryExpression := ih.unaryExpression_succ
      suffixes := ih.suffixes_succ
      primary := ih.primary_succ
      expressionsUntil := ih.expressionsUntil_succ
      moreExpressions := ih.moreExpressions_succ }

end Pass

end Script
