import Script.Proofs.Grammar.Steps

namespace Script

/-- Whether an expression that binds at least as tightly as a level requires is what has been read
of the tokens in front of the rest. -/
structure Expr.Read (e : Expr) (level : Nat) (tokens rest : List Token) : Prop where
  spelled : ∃ read, tokens = read ++ rest ∧ e.Spelled read
  fits : e.every Expr.fits
  tight : level ≤ e.level

structure Expr.ReadIn (es : List Expr) (tokens rest : List Token) : Prop where
  spelled : ∃ read, tokens = read ++ rest ∧ Expr.SpelledIn es read
  fits : Expr.everyIn Expr.fits es

namespace Expr.Read

variable {e left right target position : Expr} {level other : Nat} {tokens middle rest : List Token}
  {t first last : Token}

theorem mono (h : e.Read level tokens rest) (hl : other ≤ level) : e.Read other tokens rest :=
  ⟨h.spelled, h.fits, Nat.le_trans hl h.tight⟩

theorem binary {op : BinaryOp} (hl : left.Read op.level tokens (t :: middle))
    (hk : t.kind.binaryOp? = some op) (hr : right.Read (op.level + 1) middle rest) :
    (Expr.binary (left.span.to right.span) op left right).Read op.level tokens rest := by
  obtain ⟨⟨as, rfl, spelled⟩, fits, tight⟩ := hl
  obtain ⟨⟨bs, rfl, spelled'⟩, fits', tight'⟩ := hr
  refine ⟨⟨as ++ t :: bs, by simp, .binary spelled hk spelled'⟩, ?_, Nat.le_refl _⟩
  simp only [Expr.every, Expr.fits, fits, fits', Bool.and_true, Bool.and_eq_true,
    decide_eq_true_eq]
  exact ⟨tight, by omega⟩

theorem unary {op : UnaryOp} (hk : t.kind.unaryOp? = some op) (h : e.Read unaryLevel middle rest) :
    (Expr.unary (t.span.to e.span) op e).Read unaryLevel (t :: middle) rest := by
  obtain ⟨⟨as, rfl, spelled⟩, fits, tight⟩ := h
  refine ⟨⟨t :: as, rfl, .unary hk spelled⟩, ?_, Nat.le_refl _⟩
  simpa only [Expr.every, Expr.fits, fits, Bool.and_true, decide_eq_true_eq] using tight

theorem call {span : Span} {name : String} {arguments : List Expr}
    (hn : (Expr.name span name).Read (unaryLevel + 1) tokens (first :: middle))
    (opens : first.kind = .leftParen) (inner : ReadIn arguments middle (last :: rest))
    (closes : last.kind = .rightParen) :
    (Expr.call (span.to last.span) name arguments).Read (unaryLevel + 1) tokens rest := by
  obtain ⟨⟨as, rfl, spelled⟩, -, -⟩ := hn
  obtain ⟨⟨bs, rfl, spelled'⟩, fits⟩ := inner
  cases spelled with
  | @name t kind =>
    refine ⟨⟨t :: first :: (bs ++ [last]), by simp, .call kind opens spelled' closes⟩, ?_,
      Nat.le_refl _⟩
    simpa only [Expr.every, Expr.fits, Bool.true_and] using fits

theorem index (hn : target.Read (unaryLevel + 1) tokens (first :: middle))
    (opens : first.kind = .leftBracket) (inner : position.Read 0 middle (last :: rest))
    (closes : last.kind = .rightBracket) :
    (Expr.index (target.span.to last.span) target position).Read (unaryLevel + 1) tokens rest := by
  obtain ⟨⟨as, rfl, spelled⟩, fits, tight⟩ := hn
  obtain ⟨⟨bs, rfl, spelled'⟩, fits', -⟩ := inner
  refine ⟨⟨as ++ first :: (bs ++ [last]), by simp, .index spelled opens spelled' closes⟩, ?_,
    Nat.le_refl _⟩
  simp only [Expr.every, Expr.fits, fits, fits', Bool.and_true, decide_eq_true_eq]
  exact tight

theorem literal {value : Literal} (denotes : t.Denotes value) :
    (Expr.literal t.span value).Read (unaryLevel + 1) (t :: rest) rest :=
  ⟨⟨[t], rfl, .literal denotes⟩, rfl, Nat.le_refl _⟩

theorem name (kind : t.kind = .identifier) :
    (Expr.name t.span t.lexeme).Read (unaryLevel + 1) (t :: rest) rest :=
  ⟨⟨[t], rfl, .name kind⟩, rfl, Nat.le_refl _⟩

theorem group (opens : first.kind = .leftParen) (inner : e.Read 0 middle (last :: rest))
    (closes : last.kind = .rightParen) :
    (Expr.group (first.span.to last.span) e).Read (unaryLevel + 1) (first :: middle) rest := by
  obtain ⟨⟨as, rfl, spelled⟩, fits, -⟩ := inner
  exact ⟨⟨first :: (as ++ [last]), by simp, .group opens spelled closes⟩, fits, Nat.le_refl _⟩

theorem array {elements : List Expr} (opens : first.kind = .leftBracket)
    (inner : ReadIn elements middle (last :: rest)) (closes : last.kind = .rightBracket) :
    (Expr.array (first.span.to last.span) elements).Read (unaryLevel + 1) (first :: middle)
      rest := by
  obtain ⟨⟨as, rfl, spelled⟩, fits⟩ := inner
  refine ⟨⟨first :: (as ++ [last]), by simp, .array opens spelled closes⟩, ?_, Nat.le_refl _⟩
  simpa only [Expr.every, Expr.fits, Bool.true_and] using fits

end Expr.Read

namespace Parser

/-- What is read on some amount of fuel. -/
structure ReadsExpr (fuel : Nat) : Prop where
  expression : ∀ {level tokens e rest}, level ≤ unaryLevel →
    expression fuel level tokens = .ok (e, rest) →
    e.Read level tokens rest ∧ (nextKind .endOfInput rest).stops level
  operatorChain : ∀ {level left tokens middle e rest}, left.Read level tokens middle →
    (nextKind .endOfInput middle).stops (level + 1) → level < unaryLevel →
    operatorChain fuel level left middle = .ok (e, rest) →
    e.Read level tokens rest ∧ (nextKind .endOfInput rest).stops level
  unaryExpression : ∀ {tokens e rest}, unaryExpression fuel tokens = .ok (e, rest) →
    e.Read unaryLevel tokens rest ∧ (nextKind .endOfInput rest).stops unaryLevel
  suffixes : ∀ {base tokens middle e rest}, base.Read (unaryLevel + 1) tokens middle →
    suffixes fuel base middle = .ok (e, rest) →
    e.Read (unaryLevel + 1) tokens rest ∧ (nextKind .endOfInput rest).stops unaryLevel
  primary : ∀ {tokens e rest}, primary fuel tokens = .ok (e, rest) →
    e.Read (unaryLevel + 1) tokens rest
  expressionsUntil : ∀ {closing tokens es rest},
    expressionsUntil fuel closing tokens = .ok (es, rest) → Expr.ReadIn es tokens rest
  moreExpressions : ∀ {tokens es rest}, moreExpressions fuel tokens = .ok (es, rest) →
    Expr.ReadIn es tokens rest ∧ es ≠ []

namespace ReadsExpr

variable {fuel level : Nat} {tokens middle rest : List Token} {e : Expr} {es : List Expr}

theorem expression_succ (below : ReadsExpr fuel) (hl : level ≤ unaryLevel)
    (h : Parser.expression (fuel + 1) level tokens = .ok (e, rest)) :
    e.Read level tokens rest ∧ (nextKind .endOfInput rest).stops level := by
  rw [Parser.expression] at h
  split at h
  next lower =>
    rw [bind_eq_ok] at h
    obtain ⟨left, middle, operand, h⟩ := h
    obtain ⟨read, stops⟩ := below.expression lower operand
    exact below.operatorChain (read.mono (Nat.le_succ level)) stops lower h
  next top =>
    obtain rfl : level = unaryLevel := by omega
    exact below.unaryExpression h

theorem operatorChain_succ (below : ReadsExpr fuel) {left : Expr}
    (hl : left.Read level tokens middle)
    (stops : (nextKind .endOfInput middle).stops (level + 1)) (lower : level < unaryLevel)
    (h : Parser.operatorChain (fuel + 1) level left middle = .ok (e, rest)) :
    e.Read level tokens rest ∧ (nextKind .endOfInput rest).stops level := by
  simp only [Parser.operatorChain, peek_bind] at h
  generalize hk : (nextKind .endOfInput middle).binaryOp? = op at h
  split at h
  next op =>
    split at h
    next same =>
      simp only [bind_eq_ok, next_eq_ok] at h
      obtain ⟨t, after, rfl, right, last, operand, h⟩ := h
      subst same
      obtain ⟨read, stops⟩ := below.expression lower operand
      exact below.operatorChain (hl.binary hk read) stops lower h
    next other =>
      obtain ⟨rfl, rfl⟩ := pure_eq_ok.mp h
      exact ⟨hl, TokenKind.stops_of_ne stops hk other⟩
  next =>
    obtain ⟨rfl, rfl⟩ := pure_eq_ok.mp h
    exact ⟨hl, TokenKind.stops_of_none stops hk⟩

theorem unaryExpression_succ (below : ReadsExpr fuel)
    (h : Parser.unaryExpression (fuel + 1) tokens = .ok (e, rest)) :
    e.Read unaryLevel tokens rest ∧ (nextKind .endOfInput rest).stops unaryLevel := by
  simp only [Parser.unaryExpression, peek_bind] at h
  generalize hk : (nextKind .endOfInput tokens).unaryOp? = op at h
  split at h
  next op =>
    simp only [bind_eq_ok, next_eq_ok, pure_eq_ok] at h
    obtain ⟨t, after, rfl, operand, last, ho, rfl, rfl⟩ := h
    obtain ⟨read, stops⟩ := below.unaryExpression ho
    exact ⟨read.unary hk, stops⟩
  next =>
    rw [bind_eq_ok] at h
    obtain ⟨base, middle, hb, h⟩ := h
    obtain ⟨read, stops⟩ := below.suffixes (below.primary hb) h
    exact ⟨read.mono (Nat.le_succ _), stops⟩

theorem suffixes_succ (below : ReadsExpr fuel) {base : Expr}
    (hb : base.Read (unaryLevel + 1) tokens middle)
    (h : Parser.suffixes (fuel + 1) base middle = .ok (e, rest)) :
    e.Read (unaryLevel + 1) tokens rest ∧ (nextKind .endOfInput rest).stops unaryLevel := by
  simp only [Parser.suffixes, peek_bind] at h
  generalize hk : nextKind .endOfInput middle = k at h
  split at h
  next =>
    split at h
    next span function =>
      simp only [bind_eq_ok, next_eq_ok, expect_eq_ok] at h
      obtain ⟨first, after, rfl, arguments, _, ha, closing, final, ⟨rfl, closes⟩, h⟩ := h
      exact below.suffixes (hb.call hk (below.expressionsUntil ha) closes) h
    next => exact absurd h fail_ne_ok
  next =>
    simp only [bind_eq_ok, next_eq_ok, expect_eq_ok] at h
    obtain ⟨first, after, rfl, index, _, hi, closing, final, ⟨rfl, closes⟩, h⟩ := h
    have inner := (below.expression (Nat.zero_le _) hi).1
    exact below.suffixes (hb.index hk inner closes) h
  next noCall noIndex =>
    obtain ⟨rfl, rfl⟩ := pure_eq_ok.mp h
    exact ⟨hb, hk ▸ TokenKind.stops_unaryLevel noCall noIndex⟩

theorem constant_read {value : Literal} {kind : TokenKind}
    (denotes : ∀ t : Token, t.kind = kind → t.Denotes value)
    (hk : nextKind .endOfInput tokens = kind) (h : constant value tokens = .ok (e, rest)) :
    e.Read (unaryLevel + 1) tokens rest := by
  simp only [constant, bind_eq_ok, next_eq_ok, pure_eq_ok] at h
  obtain ⟨t, after, rfl, rfl, rfl⟩ := h
  exact .literal (denotes t hk)

theorem primary_succ (below : ReadsExpr fuel)
    (h : Parser.primary (fuel + 1) tokens = .ok (e, rest)) :
    e.Read (unaryLevel + 1) tokens rest := by
  simp only [Parser.primary, peek_bind] at h
  generalize hk : nextKind .endOfInput tokens = k at h
  split at h
  · exact constant_read (fun _ => .true) hk h
  · exact constant_read (fun _ => .false) hk h
  · exact constant_read (fun _ => .null) hk h
  · simp only [bind_eq_ok, next_eq_ok] at h
    obtain ⟨t, after, rfl, h⟩ := h
    generalize read : numberLiteral? t.lexeme = value at h
    split at h
    next value =>
      obtain ⟨rfl, rfl⟩ := pure_eq_ok.mp h
      exact .literal (.number hk read)
    next => exact absurd h failAt_ne_ok
  · simp only [bind_eq_ok, next_eq_ok, pure_eq_ok] at h
    obtain ⟨t, after, rfl, rfl, rfl⟩ := h
    exact .literal (.string hk)
  · simp only [bind_eq_ok, next_eq_ok, pure_eq_ok] at h
    obtain ⟨t, after, rfl, rfl, rfl⟩ := h
    exact .name hk
  · simp only [bind_eq_ok, next_eq_ok, expect_eq_ok, pure_eq_ok] at h
    obtain ⟨first, after, rfl, inner, _, hi, closing, final, ⟨rfl, closes⟩, rfl, rfl⟩ := h
    exact .group hk (below.expression (Nat.zero_le _) hi).1 closes
  · simp only [bind_eq_ok, next_eq_ok, expect_eq_ok, pure_eq_ok] at h
    obtain ⟨first, after, rfl, elements, _, he, closing, final, ⟨rfl, closes⟩, rfl, rfl⟩ := h
    exact .array hk (below.expressionsUntil he) closes
  · exact absurd h fail_ne_ok

theorem expressionsUntil_succ (below : ReadsExpr fuel) {closing : TokenKind}
    (h : Parser.expressionsUntil (fuel + 1) closing tokens = .ok (es, rest)) :
    Expr.ReadIn es tokens rest := by
  simp only [Parser.expressionsUntil, peek_bind] at h
  split at h
  · obtain ⟨rfl, rfl⟩ := pure_eq_ok.mp h
    exact ⟨⟨[], rfl, .nil⟩, rfl⟩
  · exact (below.moreExpressions h).1

theorem moreExpressions_succ (below : ReadsExpr fuel)
    (h : Parser.moreExpressions (fuel + 1) tokens = .ok (es, rest)) :
    Expr.ReadIn es tokens rest ∧ es ≠ [] := by
  simp only [Parser.moreExpressions, bind_eq_ok] at h
  obtain ⟨first, middle, hf, comma, after, hc, h⟩ := h
  obtain ⟨⟨⟨as, rfl, spelled⟩, fits, -⟩, -⟩ := below.expression (Nat.zero_le _) hf
  cases comma with
  | true =>
    simp only [if_true, bind_eq_ok, pure_eq_ok] at h
    obtain ⟨others, last, ho, rfl, rfl⟩ := h
    obtain ⟨t, rfl, kind⟩ := accept_eq_ok.mp hc
    obtain ⟨⟨⟨bs, rfl, spelled'⟩, fits'⟩, nonempty⟩ := below.moreExpressions ho
    obtain ⟨other, others, rfl⟩ := List.exists_cons_of_ne_nil nonempty
    refine ⟨⟨⟨as ++ t :: bs, by simp, .more spelled kind spelled'⟩, ?_⟩, by simp⟩
    rw [Expr.everyIn, fits, fits']
    rfl
  | false =>
    simp only [Bool.false_eq_true, if_false, pure_eq_ok] at h
    obtain ⟨rfl, rfl⟩ := h
    obtain ⟨rfl, -⟩ := (accept_eq_ok_false (by simp)).mp hc
    refine ⟨⟨⟨as, rfl, .last spelled⟩, ?_⟩, by simp⟩
    rw [Expr.everyIn, fits]
    rfl

end ReadsExpr

theorem readsExpr (fuel : Nat) : ReadsExpr fuel := by
  induction fuel with
  | zero => exact ⟨nofun, nofun, nofun, nofun, nofun, nofun, nofun⟩
  | succ fuel ih =>
    exact {
      expression := ih.expression_succ
      operatorChain := ih.operatorChain_succ
      unaryExpression := ih.unaryExpression_succ
      suffixes := ih.suffixes_succ
      primary := ih.primary_succ
      expressionsUntil := ih.expressionsUntil_succ
      moreExpressions := ih.moreExpressions_succ }

theorem expression_read {fuel : Nat} {tokens rest : List Token} {e : Expr}
    (h : expression fuel 0 tokens = .ok (e, rest)) :
    ∃ read, tokens = read ++ rest ∧ e.Spelled read ∧ e.every Expr.fits ∧
      (nextKind .endOfInput rest).stops 0 := by
  obtain ⟨⟨⟨read, rfl, spelled⟩, fits, -⟩, stops⟩ :=
    (readsExpr fuel).expression (Nat.zero_le _) h
  exact ⟨read, rfl, spelled, fits, stops⟩

end Parser

end Script
