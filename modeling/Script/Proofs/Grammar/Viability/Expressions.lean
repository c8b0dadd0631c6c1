import Script.Proofs.Grammar.Completeness.Expressions
import Script.Proofs.Grammar.Soundness

namespace Script

/-- Whether a failure is not for want of fuel, and what stands in front of it can be completed. -/
structure ParseFailure.BreaksOff (f : ParseFailure) (whole : List Token → Prop)
    (tokens : List Token) : Prop where
  fueled : f.error ≠ .outOfFuel
  behind : ∃ read more, tokens = read ++ f.remaining ∧ whole (read ++ more)

namespace ParseFailure.BreaksOff

variable {f : ParseFailure} {whole whole' : List Token → Prop} {tokens rest more : List Token}
  {e : ParseError}

theorem after (read : List Token) (fueled : e ≠ .outOfFuel) (h : whole (read ++ more)) :
    (ParseFailure.mk e rest).BreaksOff whole (read ++ rest) :=
  ⟨fueled, read, more, rfl, h⟩

theorem here (fueled : e ≠ .outOfFuel) (h : whole more) :
    (ParseFailure.mk e rest).BreaksOff whole rest :=
  after [] fueled h

theorem later (before behind : List Token) (h : f.BreaksOff whole rest)
    (lift : ∀ as, whole as → whole' (before ++ (as ++ behind))) :
    f.BreaksOff whole' (before ++ rest) := by
  obtain ⟨fueled, read, more, split, inner⟩ := h
  exact ⟨fueled, before ++ read, more ++ behind, by rw [split, List.append_assoc],
    by simpa using lift _ inner⟩

theorem imp (h : f.BreaksOff whole tokens) (lift : ∀ as, whole as → whole' as) :
    f.BreaksOff whole' tokens :=
  h.later [] [] fun as inner => by simpa using lift as inner

end ParseFailure.BreaksOff

/-- A token to complete others with, at no place of its own. -/
def Symbol.supplied (s : Symbol) : Token := ⟨s.kind, s.lexeme, Place.first.spanTo Place.first⟩

theorem Symbol.supplied_fixed (k : TokenKind) : (fixed k).supplied.kind = k := rfl

theorem Symbol.supplied_name (word : String) : (name word).supplied.kind = .identifier := rfl

/-- Whether tokens spell an expression of a level or above. -/
def Expr.Whole (level : Nat) (as : List Token) : Prop :=
  ∃ e : Expr, e.Spelled as ∧ e.every Expr.fits ∧ level ≤ e.level

/-- Whether tokens spell expressions between commas, at least so many of them. -/
def Expr.WholeIn (least : Nat) (as : List Token) : Prop :=
  ∃ es : List Expr, Expr.SpelledIn es as ∧ Expr.everyIn Expr.fits es ∧ least ≤ es.length

namespace Expr

variable {e left target : Expr} {es : List Expr} {level other least : Nat}
  {as tokens middle rest : List Token} {t first : Token} {f : ParseFailure} {error : ParseError}

theorem Read.length_lt (h : e.Read level tokens rest) : rest.length < tokens.length := by
  obtain ⟨⟨as, rfl, spelled⟩, -, -⟩ := h
  have nonempty := spelled.length_pos
  rw [List.length_append]
  omega

theorem ReadIn.length_le (h : ReadIn es tokens rest) : rest.length ≤ tokens.length := by
  obtain ⟨⟨as, rfl, -⟩, -⟩ := h
  rw [List.length_append]
  omega

theorem Read.replace (h : e.Read level tokens rest) :
    ∃ as, tokens = as ++ rest ∧ ∀ rest', e.Read level (as ++ rest') rest' := by
  obtain ⟨⟨as, rfl, spelled⟩, fits, tight⟩ := h
  exact ⟨as, rfl, fun rest' => ⟨⟨as, rfl, spelled⟩, fits, tight⟩⟩

theorem Read.whole (h : e.Read level as []) : Whole level as := by
  obtain ⟨⟨as, rfl, spelled⟩, fits, tight⟩ := h
  exact ⟨e, by rwa [List.append_nil], fits, tight⟩

theorem Whole.read (h : Whole level as) : ∃ e : Expr, ∀ rest, e.Read level (as ++ rest) rest := by
  obtain ⟨e, spelled, fits, tight⟩ := h
  exact ⟨e, fun rest => ⟨⟨as, rfl, spelled⟩, fits, tight⟩⟩

theorem WholeIn.read (h : WholeIn least as) : ∃ es, ∀ rest, ReadIn es (as ++ rest) rest := by
  obtain ⟨es, spelled, fits, -⟩ := h
  exact ⟨es, fun rest => ⟨⟨as, rfl, spelled⟩, fits⟩⟩

theorem Whole.mono (h : Whole level as) (hl : other ≤ level) : Whole other as := by
  obtain ⟨e, spelled, fits, tight⟩ := h
  exact ⟨e, spelled, fits, Nat.le_trans hl tight⟩

theorem WholeIn.mono {fewer : Nat} (h : WholeIn least as) (hl : fewer ≤ least) :
    WholeIn fewer as := by
  obtain ⟨es, spelled, fits, many⟩ := h
  exact ⟨es, spelled, fits, Nat.le_trans hl many⟩

theorem whole_null (hl : level ≤ unaryLevel + 1) : Whole level [Literal.null.symbol.supplied] :=
  ⟨_, .literal (.null rfl), rfl, hl⟩

/-- Whatever is wrong behind a whole expression, it breaks off there. -/
theorem Read.breaksOff (h : e.Read level tokens rest) (fueled : error ≠ .outOfFuel) :
    (ParseFailure.mk error rest).BreaksOff (Whole level) tokens := by
  obtain ⟨as, rfl, again⟩ := h.replace
  exact .after as fueled (again []).whole

theorem ReadIn.breaksOff (h : ReadIn es tokens rest) (fueled : error ≠ .outOfFuel) :
    (ParseFailure.mk error rest).BreaksOff (WholeIn 0) tokens := by
  obtain ⟨⟨as, rfl, spelled⟩, fits⟩ := h
  have whole : WholeIn 0 (as ++ []) := ⟨es, by rwa [List.append_nil], fits, Nat.zero_le _⟩
  exact .after as fueled whole

theorem Read.binary_breaksOff {op : BinaryOp} (hl : left.Read op.level tokens (t :: middle))
    (hk : t.kind.binaryOp? = some op) (h : f.BreaksOff (Whole (op.level + 1)) middle) :
    f.BreaksOff (Whole op.level) tokens := by
  obtain ⟨as, rfl, again⟩ := hl.replace
  rw [List.append_cons]
  refine h.later (as ++ [t]) [] fun bs second => ?_
  obtain ⟨right, second⟩ := second.read
  have whole := ((again (t :: (bs ++ []))).binary hk (second [])).whole
  simpa using whole

theorem unary_breaksOff {op : UnaryOp} (hk : t.kind.unaryOp? = some op)
    (h : f.BreaksOff (Whole unaryLevel) middle) :
    f.BreaksOff (Whole unaryLevel) (t :: middle) := by
  refine h.later [t] [] fun as inner => ?_
  obtain ⟨operand, inner⟩ := inner.read
  exact (Read.unary hk (inner [])).whole

theorem Read.call_breaksOff {span : Span} {name : String}
    (hn : (Expr.name span name).Read (unaryLevel + 1) tokens (first :: middle))
    (opens : first.kind = .leftParen) (h : f.BreaksOff (WholeIn 0) middle) :
    f.BreaksOff (Whole (unaryLevel + 1)) tokens := by
  obtain ⟨as, rfl, again⟩ := hn.replace
  rw [List.append_cons]
  refine h.later (as ++ [first]) [(Symbol.fixed .rightParen).supplied] fun bs inner => ?_
  obtain ⟨arguments, inner⟩ := inner.read
  have whole := ((again _).call opens (inner [(Symbol.fixed .rightParen).supplied]) rfl).whole
  simpa using whole

theorem Read.index_breaksOff (hn : target.Read (unaryLevel + 1) tokens (first :: middle))
    (opens : first.kind = .leftBracket) (h : f.BreaksOff (Whole 0) middle) :
    f.BreaksOff (Whole (unaryLevel + 1)) tokens := by
  obtain ⟨as, rfl, again⟩ := hn.replace
  rw [List.append_cons]
  refine h.later (as ++ [first]) [(Symbol.fixed .rightBracket).supplied] fun bs inner => ?_
  obtain ⟨position, inner⟩ := inner.read
  have whole := ((again _).index opens (inner [(Symbol.fixed .rightBracket).supplied]) rfl).whole
  simpa using whole

theorem group_breaksOff (opens : first.kind = .leftParen) (h : f.BreaksOff (Whole 0) middle) :
    f.BreaksOff (Whole (unaryLevel + 1)) (first :: middle) := by
  refine h.later [first] [(Symbol.fixed .rightParen).supplied] fun as inner => ?_
  obtain ⟨e, inner⟩ := inner.read
  exact (Read.group opens (inner [(Symbol.fixed .rightParen).supplied]) rfl).whole

theorem array_breaksOff (opens : first.kind = .leftBracket) (h : f.BreaksOff (WholeIn 0) middle) :
    f.BreaksOff (Whole (unaryLevel + 1)) (first :: middle) := by
  refine h.later [first] [(Symbol.fixed .rightBracket).supplied] fun as inner => ?_
  obtain ⟨elements, inner⟩ := inner.read
  exact (Read.array opens (inner [(Symbol.fixed .rightBracket).supplied]) rfl).whole

theorem first_breaksOff (h : f.BreaksOff (Whole 0) tokens) : f.BreaksOff (WholeIn 1) tokens :=
  h.imp fun _ ⟨e, spelled, fits, _⟩ =>
    ⟨[e], .last spelled, by simpa [Expr.everyIn] using fits, Nat.le_refl _⟩

theorem Read.more_breaksOff (hf : e.Read 0 tokens (t :: middle)) (comma : t.kind = .comma)
    (h : f.BreaksOff (WholeIn 1) middle) : f.BreaksOff (WholeIn 1) tokens := by
  obtain ⟨⟨as, rfl, spelled⟩, fits, -⟩ := hf
  rw [List.append_cons]
  refine h.later (as ++ [t]) [] fun bs ⟨others, spelled', fits', nonempty⟩ => ?_
  obtain ⟨other, others, rfl⟩ := List.exists_cons_of_length_pos nonempty
  refine ⟨e :: other :: others, ?_, ?_, by simp⟩
  · simpa using Expr.SpelledIn.more spelled comma spelled'
  · rw [Expr.everyIn, fits, fits']
    rfl

end Expr

namespace Parser

/-- Where reading an expression breaks off on an amount of fuel, which is sixteen for each token
and one for each call that may come before the first of them is read. -/
structure FailsExpr (fuel : Nat) : Prop where
  expression : ∀ {level tokens f}, level ≤ unaryLevel → 16 * tokens.length + 9 ≤ fuel + level →
    expression fuel level tokens = .error f → f.BreaksOff (Expr.Whole level) tokens
  operatorChain : ∀ {level left tokens middle f}, left.Read level tokens middle →
    (nextKind .endOfInput middle).stops (level + 1) → level < unaryLevel →
    16 * middle.length + 1 ≤ fuel → operatorChain fuel level left middle = .error f →
    f.BreaksOff (Expr.Whole level) tokens
  unaryExpression : ∀ {tokens f}, 16 * tokens.length + 2 ≤ fuel →
    unaryExpression fuel tokens = .error f → f.BreaksOff (Expr.Whole unaryLevel) tokens
  suffixes : ∀ {base tokens middle f}, base.Read (unaryLevel + 1) tokens middle →
    16 * middle.length + 1 ≤ fuel → suffixes fuel base middle = .error f →
    f.BreaksOff (Expr.Whole (unaryLevel + 1)) tokens
  primary : ∀ {tokens f}, 16 * tokens.length + 1 ≤ fuel → primary fuel tokens = .error f →
    f.BreaksOff (Expr.Whole (unaryLevel + 1)) tokens
  expressionsUntil : ∀ {closing tokens f}, 16 * tokens.length + 11 ≤ fuel →
    expressionsUntil fuel closing tokens = .error f → f.BreaksOff (Expr.WholeIn 0) tokens
  moreExpressions : ∀ {tokens f}, 16 * tokens.length + 10 ≤ fuel →
    moreExpressions fuel tokens = .error f → f.BreaksOff (Expr.WholeIn 1) tokens

namespace FailsExpr

variable {fuel level : Nat} {tokens middle : List Token} {f : ParseFailure}

theorem expression_succ (below : FailsExpr fuel) (hl : level ≤ unaryLevel)
    (room : 16 * tokens.length + 9 ≤ fuel + 1 + level)
    (h : Parser.expression (fuel + 1) level tokens = .error f) :
    f.BreaksOff (Expr.Whole level) tokens := by
  rw [Parser.expression] at h
  unfold unaryLevel at hl
  split at h
  next lower =>
    rcases bind_eq_error.mp h with h | ⟨left, middle, operand, h⟩
    · exact (below.expression lower (by omega) h).imp fun _ => (·.mono (Nat.le_succ level))
    · obtain ⟨read, stops⟩ := (readsExpr fuel).expression lower operand
      have shorter := read.length_lt
      exact below.operatorChain (read.mono (Nat.le_succ level)) stops lower (by omega) h
  next top =>
    obtain rfl : level = unaryLevel := by unfold unaryLevel at top ⊢; omega
    exact below.unaryExpression (by unfold unaryLevel at room; omega) h

theorem operatorChain_succ (below : FailsExpr fuel) {left : Expr}
    (hl : left.Read level tokens middle) (stops : (nextKind .endOfInput middle).stops (level + 1))
    (lower : level < unaryLevel) (room : 16 * middle.length + 1 ≤ fuel + 1)
    (h : Parser.operatorChain (fuel + 1) level left middle = .error f) :
    f.BreaksOff (Expr.Whole level) tokens := by
  simp only [Parser.operatorChain, peek_bind] at h
  generalize hk : (nextKind .endOfInput middle).binaryOp? = op at h
  split at h
  next op =>
    split at h
    next same =>
      subst same
      obtain ⟨t, after, rfl, -⟩ := exists_cons_of_nextKind rfl fun ended => by
        rw [ended] at hk
        cases hk
      rw [next_bind] at h
      rw [List.length_cons] at room
      rcases bind_eq_error.mp h with h | ⟨right, last, operand, h⟩
      · exact hl.binary_breaksOff hk (below.expression lower (by omega) h)
      · obtain ⟨read, stops⟩ := (readsExpr fuel).expression lower operand
        have shorter := read.length_lt
        exact below.operatorChain (hl.binary hk read) stops lower (by omega) h
    next => exact absurd h pure_ne_error
  next => exact absurd h pure_ne_error

theorem unaryExpression_succ (below : FailsExpr fuel) (room : 16 * tokens.length + 2 ≤ fuel + 1)
    (h : Parser.unaryExpression (fuel + 1) tokens = .error f) :
    f.BreaksOff (Expr.Whole unaryLevel) tokens := by
  simp only [Parser.unaryExpression, peek_bind] at h
  generalize hk : (nextKind .endOfInput tokens).unaryOp? = op at h
  split at h
  next op =>
    obtain ⟨t, after, rfl, -⟩ := exists_cons_of_nextKind rfl fun ended => by
      rw [ended] at hk
      cases hk
    rw [next_bind] at h
    rw [List.length_cons] at room
    rcases bind_eq_error.mp h with h | ⟨_, _, -, h⟩
    · exact Expr.unary_breaksOff hk (below.unaryExpression (by omega) h)
    · exact absurd h pure_ne_error
  next =>
    rcases bind_eq_error.mp h with h | ⟨base, middle, hb, h⟩
    · exact (below.primary (by omega) h).imp fun _ => (·.mono (Nat.le_succ _))
    · have read := (readsExpr fuel).primary hb
      have shorter := read.length_lt
      exact (below.suffixes read (by omega) h).imp fun _ => (·.mono (Nat.le_succ _))

theorem suffixes_succ (below : FailsExpr fuel) {base : Expr}
    (hb : base.Read (unaryLevel + 1) tokens middle) (room : 16 * middle.length + 1 ≤ fuel + 1)
    (h : Parser.suffixes (fuel + 1) base middle = .error f) :
    f.BreaksOff (Expr.Whole (unaryLevel + 1)) tokens := by
  simp only [Parser.suffixes, peek_bind] at h
  generalize hk : nextKind .endOfInput middle = k at h
  split at h
  next =>
    obtain ⟨first, after, rfl, opens⟩ := exists_cons_of_nextKind hk (by simp)
    rw [List.length_cons] at room
    split at h
    next span function =>
      rw [next_bind] at h
      rcases bind_eq_error.mp h with h | ⟨arguments, rest, ha, h⟩
      · exact hb.call_breaksOff opens (below.expressionsUntil (by omega) h)
      · have read := (readsExpr fuel).expressionsUntil ha
        have shorter := read.length_le
        rcases expect_bind_error h with rfl | ⟨last, final, rfl, closes, h⟩
        · exact hb.call_breaksOff opens (read.breaksOff (by simp))
        · rw [List.length_cons] at shorter
          exact below.suffixes (hb.call opens read closes) (by omega) h
    next =>
      obtain rfl := fail_eq_error.mp h
      exact hb.breaksOff (by simp)
  next =>
    obtain ⟨first, after, rfl, opens⟩ := exists_cons_of_nextKind hk (by simp)
    rw [List.length_cons] at room
    rw [next_bind] at h
    rcases bind_eq_error.mp h with h | ⟨position, rest, hp, h⟩
    · exact hb.index_breaksOff opens (below.expression (Nat.zero_le _) (by omega) h)
    · have read := ((readsExpr fuel).expression (Nat.zero_le _) hp).1
      have shorter := read.length_lt
      rcases expect_bind_error h with rfl | ⟨last, final, rfl, closes, h⟩
      · exact hb.index_breaksOff opens (read.breaksOff (by simp))
      · rw [List.length_cons] at shorter
        exact below.suffixes (hb.index opens read closes) (by omega) h
  next => exact absurd h pure_ne_error

theorem primary_succ (below : FailsExpr fuel) (room : 16 * tokens.length + 1 ≤ fuel + 1)
    (h : Parser.primary (fuel + 1) tokens = .error f) :
    f.BreaksOff (Expr.Whole (unaryLevel + 1)) tokens := by
  simp only [Parser.primary, peek_bind] at h
  generalize hk : nextKind .endOfInput tokens = k at h
  split at h
  case h_9 =>
    obtain rfl := fail_eq_error.mp h
    exact .here (by simp) (Expr.whole_null (Nat.le_refl _))
  all_goals
    obtain ⟨t, after, rfl, kind⟩ := exists_cons_of_nextKind hk (by simp)
    rw [List.length_cons] at room
  case h_1 | h_2 | h_3 => exact absurd h pure_ne_error
  case h_4 =>
    rw [next_bind] at h
    cases read : numberLiteral? t.lexeme with
    | some value =>
      rw [read] at h
      exact absurd h pure_ne_error
    | none =>
      rw [read] at h
      cases h
      exact .here (by simp) (Expr.whole_null (Nat.le_refl _))
  case h_5 | h_6 => exact absurd h pure_ne_error
  case h_7 =>
    rw [next_bind] at h
    rcases bind_eq_error.mp h with h | ⟨inner, rest, hi, h⟩
    · exact Expr.group_breaksOff kind (below.expression (Nat.zero_le _) (by omega) h)
    · rcases expect_bind_error h with rfl | ⟨_, _, -, -, h⟩
      · have read := ((readsExpr fuel).expression (Nat.zero_le _) hi).1
        exact Expr.group_breaksOff kind (read.breaksOff (by simp))
      · exact absurd h pure_ne_error
  case h_8 =>
    rw [next_bind] at h
    rcases bind_eq_error.mp h with h | ⟨elements, rest, he, h⟩
    · exact Expr.array_breaksOff kind (below.expressionsUntil (by omega) h)
    · rcases expect_bind_error h with rfl | ⟨_, _, -, -, h⟩
      · have read := (readsExpr fuel).expressionsUntil he
        exact Expr.array_breaksOff kind (read.breaksOff (by simp))
      · exact absurd h pure_ne_error

theorem expressionsUntil_succ (below : FailsExpr fuel) {closing : TokenKind}
    (room : 16 * tokens.length + 11 ≤ fuel + 1)
    (h : Parser.expressionsUntil (fuel + 1) closing tokens = .error f) :
    f.BreaksOff (Expr.WholeIn 0) tokens := by
  simp only [Parser.expressionsUntil, peek_bind] at h
  split at h
  · exact absurd h pure_ne_error
  · exact (below.moreExpressions (by omega) h).imp fun _ => (·.mono (Nat.zero_le _))

theorem moreExpressions_succ (below : FailsExpr fuel) (room : 16 * tokens.length + 10 ≤ fuel + 1)
    (h : Parser.moreExpressions (fuel + 1) tokens = .error f) :
    f.BreaksOff (Expr.WholeIn 1) tokens := by
  rw [Parser.moreExpressions] at h
  rcases bind_eq_error.mp h with h | ⟨first, middle, hf, h⟩
  · exact Expr.first_breaksOff (below.expression (Nat.zero_le _) (by omega) h)
  · have read := ((readsExpr fuel).expression (Nat.zero_le _) hf).1
    have shorter := read.length_lt
    rcases accept_bind_error h with ⟨comma, after, rfl, separates, h⟩ | h
    · rw [List.length_cons] at shorter
      rw [if_pos rfl] at h
      rcases bind_eq_error.mp h with h | ⟨_, _, -, h⟩
      · exact read.more_breaksOff separates (below.moreExpressions (by omega) h)
      · exact absurd h pure_ne_error
    · exact absurd h pure_ne_error

end FailsExpr

theorem failsExpr (fuel : Nat) : FailsExpr fuel := by
  induction fuel with
  | zero =>
    constructor
    case expression =>
      intro level tokens f hl room
      unfold unaryLevel at hl
      omega
    all_goals intros; omega
  | succ fuel ih =>
    exact {
      expression := ih.expression_succ
      operatorChain := ih.operatorChain_succ
      unaryExpression := ih.unaryExpression_succ
      suffixes := ih.suffixes_succ
      primary := ih.primary_succ
      expressionsUntil := ih.expressionsUntil_succ
      moreExpressions := ih.moreExpressions_succ }

end Parser

end Script
