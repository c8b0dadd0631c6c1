import Script.Proofs.Grammar.Steps

namespace Script

/-- Whether an expression may begin with a token of this kind. -/
def TokenKind.startsExpression : TokenKind → Bool
  | .identifier | .number | .string | .leftParen | .leftBracket | .minus | .bang => true
  | .keyword word => word = .true || word = .false || word = .null
  | _ => false

theorem Token.Denotes.starts {t : Token} {value : Literal} (h : t.Denotes value) :
    t.kind.startsExpression := by
  cases h with
  | null kind | «true» kind | «false» kind | string kind | number kind =>
    simp [kind, TokenKind.startsExpression]

theorem Expr.Spelled.starts {e : Expr} {as : List Token} (h : e.Spelled as) :
    ∃ t ts, as = t :: ts ∧ t.kind.startsExpression := by
  cases h with
  | literal denotes => exact ⟨_, _, rfl, denotes.starts⟩
  | name kind | call kind | array kind | group kind =>
    exact ⟨_, _, rfl, by simp [kind, TokenKind.startsExpression]⟩
  | binary first =>
    obtain ⟨t, ts, rfl, starts⟩ := first.starts
    exact ⟨t, _, rfl, starts⟩
  | @unary _ _ t _ kind =>
    refine ⟨t, _, rfl, ?_⟩
    cases ht : t.kind <;> simp [ht, TokenKind.unaryOp?, TokenKind.startsExpression] at kind ⊢
  | index owner =>
    obtain ⟨t, ts, rfl, starts⟩ := owner.starts
    exact ⟨t, _, rfl, starts⟩

theorem Expr.Spelled.startsExpression {e : Expr} {last : TokenKind} {as rest : List Token}
    (h : e.Spelled as) : (nextKind last (as ++ rest)).startsExpression := by
  obtain ⟨t, ts, rfl, starts⟩ := h.starts
  exact starts

theorem Expr.Spelled.length_pos {e : Expr} {as : List Token} (h : e.Spelled as) :
    0 < as.length := by
  obtain ⟨t, ts, rfl, -⟩ := h.starts
  simp

namespace Parser

variable {fuel level : Nat} {e : Expr} {tokens rest : List Token}

theorem operatorChain_of_stops (h : (nextKind .endOfInput rest).stops level) :
    operatorChain (fuel + 1) level e rest = .ok (e, rest) := by
  simp only [operatorChain, peek_bind]
  generalize nextKind .endOfInput rest = k at h
  cases hk : k.binaryOp? with
  | none => rfl
  | some op =>
    have below := TokenKind.level_of_stops h hk
    have other : op.level ≠ level := by omega
    simp only [other, if_false]
    rfl

theorem suffixes_of_stops (h : (nextKind .endOfInput rest).stops level) :
    suffixes (fuel + 1) e rest = .ok (e, rest) := by
  simp only [suffixes, peek_bind]
  generalize nextKind .endOfInput rest = k at h
  cases k <;> first | rfl | simp [TokenKind.stops] at h

theorem expression_lower (hl : level < unaryLevel)
    (h : expression fuel (level + 1) tokens = .ok (e, rest)) :
    expression (fuel + 1) level tokens = operatorChain fuel level e rest := by
  rw [expression, if_pos hl]
  exact bind_of_ok h

theorem expression_unary :
    expression (fuel + 1) unaryLevel tokens = unaryExpression fuel tokens := by
  rw [expression, if_neg (Nat.lt_irrefl _)]

end Parser

namespace Expr

variable {e : Expr} {as : List Token} {level : Nat}

/-- Whether tokens are read as an expression where operators of a level and above may follow. -/
def ParsesAt (e : Expr) (as : List Token) (level : Nat) : Prop :=
  ∀ fuel rest, 16 * as.length ≤ fuel + level → (nextKind .endOfInput rest).stops level →
    Parser.expression fuel level (as ++ rest) = .ok (e, rest)

/-- Whether tokens are read as what stands on the left of the next operator of a level. -/
def ChainsAt (e : Expr) (as : List Token) (level : Nat) : Prop :=
  ∀ fuel rest, 16 * as.length ≤ fuel + level → (nextKind .endOfInput rest).stops (level + 1) →
    ∃ left, fuel ≤ left + as.length ∧
      Parser.expression fuel level (as ++ rest) = Parser.operatorChain left level e rest

def ParsesUnary (e : Expr) (as : List Token) : Prop :=
  ∀ fuel rest, 16 * as.length ≤ fuel + (unaryLevel + 1) →
    (nextKind .endOfInput rest).stops unaryLevel →
      Parser.unaryExpression fuel (as ++ rest) = .ok (e, rest)

/-- Whether tokens are read as what a suffix may follow. -/
structure ParsesSuffixed (e : Expr) (as : List Token) : Prop where
  base : (nextKind .endOfInput as).unaryOp? = none
  read : ∀ fuel rest, 16 * as.length ≤ fuel + (unaryLevel + 2) →
    ∃ left, fuel ≤ left + as.length ∧
      (Parser.primary fuel >>= Parser.suffixes fuel) (as ++ rest) = Parser.suffixes left e rest

theorem ParsesAt.chainsAt (h : e.ParsesAt as (level + 1)) (hl : level < unaryLevel)
    (nonempty : 0 < as.length) : e.ChainsAt as level := by
  intro fuel rest room stops
  obtain ⟨fuel, rfl⟩ := Nat.exists_eq_add_one.mpr (show 0 < fuel by unfold unaryLevel at hl; omega)
  exact ⟨fuel, by omega, Parser.expression_lower hl (h fuel rest (by omega) stops)⟩

theorem ChainsAt.parsesAt (h : e.ChainsAt as level) (hl : level < unaryLevel)
    (nonempty : 0 < as.length) : e.ParsesAt as level := by
  intro fuel rest room stops
  obtain ⟨left, hf, he⟩ := h fuel rest room (TokenKind.stops_mono stops (Nat.le_succ _))
  obtain ⟨left, rfl⟩ := Nat.exists_eq_add_one.mpr (show 0 < left by unfold unaryLevel at hl; omega)
  rw [he]
  exact Parser.operatorChain_of_stops stops

theorem ParsesAt.mono {other : Nat} (h : e.ParsesAt as level) (hl : level ≤ unaryLevel)
    (nonempty : 0 < as.length) (le : other ≤ level) : e.ParsesAt as other := by
  induction le with
  | refl => exact h
  | step _ ih => exact ih ((h.chainsAt hl nonempty).parsesAt hl nonempty) (Nat.le_of_lt hl)

theorem ParsesUnary.parsesAt (h : e.ParsesUnary as) (nonempty : 0 < as.length) :
    e.ParsesAt as unaryLevel := by
  intro fuel rest room stops
  unfold unaryLevel at room
  obtain ⟨fuel, rfl⟩ := Nat.exists_eq_add_one.mpr (show 0 < fuel by omega)
  rw [Parser.expression_unary]
  exact h fuel rest (by unfold unaryLevel; omega) stops

theorem ParsesSuffixed.parsesUnary (h : e.ParsesSuffixed as) (nonempty : 0 < as.length) :
    e.ParsesUnary as := by
  intro fuel rest room stops
  have base : (nextKind .endOfInput (as ++ rest)).unaryOp? = none := by
    cases as with
    | nil => exact absurd nonempty (Nat.lt_irrefl 0)
    | cons => exact h.base
  unfold unaryLevel at room
  obtain ⟨fuel, rfl⟩ := Nat.exists_eq_add_one.mpr (show 0 < fuel by omega)
  obtain ⟨left, hf, he⟩ := h.read fuel rest (by unfold unaryLevel; omega)
  obtain ⟨left, rfl⟩ := Nat.exists_eq_add_one.mpr (show 0 < left by omega)
  simp only [Parser.unaryExpression, Parser.peek_bind, base]
  rw [he]
  exact Parser.suffixes_of_stops stops

/-- What the tokens of an expression are read as wherever the expression may stand. -/
structure Parses (e : Expr) (as : List Token) : Prop where
  parsesAt : ∀ {level}, level ≤ e.level → level ≤ unaryLevel → e.ParsesAt as level
  chainsAt : ∀ {level}, level ≤ e.level → level < unaryLevel → e.ChainsAt as level
  parsesUnary : unaryLevel ≤ e.level → e.ParsesUnary as
  parsesSuffixed : unaryLevel < e.level → e.ParsesSuffixed as

theorem Parses.expression (h : e.Parses as) (fuel : Nat) (rest : List Token)
    (room : 16 * as.length ≤ fuel) (stops : (nextKind .endOfInput rest).stops 0) :
    Parser.expression fuel 0 (as ++ rest) = .ok (e, rest) :=
  h.parsesAt (Nat.zero_le _) (Nat.zero_le _) fuel rest room stops

theorem ChainsAt.parses (h : e.ChainsAt as e.level) (hl : e.level < unaryLevel)
    (nonempty : 0 < as.length) : e.Parses as where
  parsesAt le _ := (h.parsesAt hl nonempty).mono (Nat.le_of_lt hl) nonempty le
  chainsAt {level} le lower := by
    rcases Nat.lt_or_eq_of_le le with lt | rfl
    · exact ((h.parsesAt hl nonempty).mono (Nat.le_of_lt hl) nonempty lt).chainsAt lower nonempty
    · exact h
  parsesUnary le := absurd hl (Nat.not_lt.mpr le)
  parsesSuffixed lt := absurd hl (Nat.lt_asymm lt)

theorem ParsesUnary.parses (h : e.ParsesUnary as) (nonempty : 0 < as.length)
    (suffixed : unaryLevel < e.level → e.ParsesSuffixed as) : e.Parses as where
  parsesAt _ le := (h.parsesAt nonempty).mono (Nat.le_refl _) nonempty le
  chainsAt _ lt := ((h.parsesAt nonempty).mono (Nat.le_refl _) nonempty lt).chainsAt lt nonempty
  parsesUnary _ := h
  parsesSuffixed := suffixed

theorem ParsesSuffixed.parses (h : e.ParsesSuffixed as) (nonempty : 0 < as.length) :
    e.Parses as :=
  (h.parsesUnary nonempty).parses nonempty fun _ => h

variable {es : List Expr} {bs : List Token} {t first last : Token}

theorem Parses.binary {op : BinaryOp} {left right : Expr} (hl : left.Parses as)
    (hk : t.kind.binaryOp? = some op) (hr : right.Parses bs) (fits : op.level ≤ left.level)
    (fits' : op.level < right.level) :
    (Expr.binary (left.span.to right.span) op left right).Parses (as ++ t :: bs) := by
  have lower : op.level < unaryLevel := by cases op <;> decide
  have tight : op.level < 6 := lower
  refine ChainsAt.parses (fun fuel rest room stops => ?_) lower
    (by simp only [List.length_append, List.length_cons]; omega)
  simp only [level, List.length_append, List.length_cons] at room stops ⊢
  obtain ⟨rounds, hf, he⟩ := hl.chainsAt fits lower fuel (t :: (bs ++ rest)) (by omega)
    (TokenKind.stops_of_binaryOp? hk (Nat.lt_succ_self _))
  obtain ⟨rounds, rfl⟩ := Nat.exists_eq_add_one.mpr (show 0 < rounds by omega)
  refine ⟨rounds, by omega, ?_⟩
  rw [List.append_assoc, List.cons_append, he]
  simp only [Parser.operatorChain, Parser.peek_bind, nextKind, hk, if_true, Parser.next_bind]
  exact Parser.bind_of_ok (hr.parsesAt fits' lower rounds rest (by omega) stops)

theorem Parses.unary {op : UnaryOp} (hk : t.kind.unaryOp? = some op) (h : e.Parses as)
    (fits : unaryLevel ≤ e.level) : (Expr.unary (t.span.to e.span) op e).Parses (t :: as) := by
  refine ParsesUnary.parses (fun fuel rest room stops => ?_) (by simp) fun lt =>
    absurd lt (Nat.lt_irrefl _)
  rw [List.length_cons, unaryLevel] at room
  obtain ⟨fuel, rfl⟩ := Nat.exists_eq_add_one.mpr (show 0 < fuel by omega)
  simp only [List.cons_append, Parser.unaryExpression, Parser.peek_bind, nextKind, hk,
    Parser.next_bind]
  exact Parser.bind_of_ok (h.parsesUnary fits fuel rest (by unfold unaryLevel; omega) stops)

/-- Whether tokens are read as expressions between commas. -/
def ParsesIn (es : List Expr) (as : List Token) : Prop :=
  ∀ closing fuel rest, closing = .rightParen ∨ closing = .rightBracket →
    16 * as.length + 2 ≤ fuel → nextKind .endOfInput rest = closing →
      Parser.expressionsUntil fuel closing (as ++ rest) = .ok (es, rest)

/-- Whether tokens are read as one expression or several between commas. -/
def ParsesMore (es : List Expr) (as : List Token) : Prop :=
  ∀ fuel rest, 16 * as.length + 1 ≤ fuel → nextKind .endOfInput rest ≠ .comma →
    (nextKind .endOfInput rest).stops 0 →
      Parser.moreExpressions fuel (as ++ rest) = .ok (es, rest)

theorem Parses.only (h : e.Parses as) : ParsesMore [e] as := by
  intro fuel rest room noComma stops
  obtain ⟨fuel, rfl⟩ := Nat.exists_eq_add_one.mpr (show 0 < fuel by omega)
  rw [Parser.moreExpressions]
  have first := h.expression fuel rest (by omega) stops
  rw [Parser.bind_of_ok first, Parser.accept_bind_of_ne (by simp) noComma]
  rfl

theorem Parses.more {comma : Token} (h : e.Parses as) (kind : comma.kind = .comma)
    (others : ParsesMore es bs) : ParsesMore (e :: es) (as ++ comma :: bs) := by
  intro fuel rest room noComma stops
  simp only [List.length_append, List.length_cons] at room
  obtain ⟨fuel, rfl⟩ := Nat.exists_eq_add_one.mpr (show 0 < fuel by omega)
  rw [List.append_assoc, List.cons_append, Parser.moreExpressions]
  have first := h.expression fuel (comma :: (bs ++ rest)) (by omega)
    (nextKind_stops kind (by decide))
  rw [Parser.bind_of_ok first, Parser.accept_bind kind, if_pos rfl,
    Parser.bind_of_ok (others fuel rest (by omega) noComma stops)]
  rfl

theorem SpelledIn.parsesIn (h : SpelledIn es as) (more : es ≠ [] → ParsesMore es as) :
    ParsesIn es as := by
  intro closing fuel rest brackets room closes
  obtain ⟨fuel, rfl⟩ := Nat.exists_eq_add_one.mpr (show 0 < fuel by omega)
  simp only [Parser.expressionsUntil, Parser.peek_bind]
  by_cases empty : es = []
  · subst empty
    cases h
    rw [List.nil_append, if_pos closes]
    rfl
  · have opens : nextKind .endOfInput (as ++ rest) ≠ closing := by
      have starts : (nextKind .endOfInput (as ++ rest)).startsExpression := by
        cases h with
        | nil => exact absurd rfl empty
        | last only => exact only.startsExpression
        | more first =>
          rw [List.append_assoc]
          exact first.startsExpression
      intro same
      rw [same] at starts
      rcases brackets with rfl | rfl <;> cases starts
    rw [if_neg opens]
    refine more empty fuel rest (by omega) ?_ ?_ <;> rw [closes] <;>
      rcases brackets with rfl | rfl <;> decide

theorem ParsesSuffixed.of_primary (nonempty : 0 < as.length)
    (base : (nextKind .endOfInput as).unaryOp? = none)
    (read : ∀ fuel rest, 16 * as.length ≤ fuel + (unaryLevel + 3) →
      Parser.primary (fuel + 1) (as ++ rest) = .ok (e, rest)) : e.ParsesSuffixed as where
  base := base
  read fuel rest room := by
    unfold unaryLevel at room
    obtain ⟨fuel, rfl⟩ := Nat.exists_eq_add_one.mpr (show 0 < fuel by omega)
    exact ⟨fuel + 1, by omega, Parser.bind_of_ok (read fuel rest (by unfold unaryLevel; omega))⟩

theorem ParsesSuffixed.literal {value : Literal} (denotes : t.Denotes value) :
    (Expr.literal t.span value).ParsesSuffixed [t] := by
  refine .of_primary (by simp) ?_ fun fuel rest _ => ?_
  · cases denotes with
    | null kind | «true» kind | «false» kind | string kind | number kind =>
      simp [nextKind, kind, TokenKind.unaryOp?]
  · cases denotes with
    | null kind | «true» kind | «false» kind | string kind =>
      simp only [Parser.primary, Parser.peek_bind, List.singleton_append, nextKind, kind]
      rfl
    | number kind read =>
      simp only [Parser.primary, Parser.peek_bind, List.singleton_append, nextKind, kind,
        Parser.next_bind, read]
      rfl

theorem ParsesSuffixed.name (kind : t.kind = .identifier) :
    (Expr.name t.span t.lexeme).ParsesSuffixed [t] := by
  refine .of_primary (by simp) (by simp [nextKind, kind, TokenKind.unaryOp?]) fun fuel rest _ => ?_
  simp only [Parser.primary, Parser.peek_bind, List.cons_append, List.nil_append, nextKind, kind]
  rfl

theorem ParsesSuffixed.group (opens : first.kind = .leftParen) (h : e.Parses as)
    (closes : last.kind = .rightParen) :
    (Expr.group (first.span.to last.span) e).ParsesSuffixed (first :: (as ++ [last])) := by
  refine .of_primary (by simp) (by simp [nextKind, opens, TokenKind.unaryOp?])
    fun fuel rest room => ?_
  simp only [List.length_cons, List.length_append, List.length_nil, unaryLevel] at room
  have inner := h.expression fuel (last :: rest) (by omega) (nextKind_stops closes (by decide))
  simp only [Parser.primary, Parser.peek_bind, List.cons_append, List.append_assoc,
    List.nil_append, nextKind, opens, Parser.next_bind, Parser.bind_of_ok inner,
    Parser.expect_bind closes]
  rfl

theorem ParsesSuffixed.array (opens : first.kind = .leftBracket) (h : ParsesIn es as)
    (closes : last.kind = .rightBracket) :
    (Expr.array (first.span.to last.span) es).ParsesSuffixed (first :: (as ++ [last])) := by
  refine .of_primary (by simp) (by simp [nextKind, opens, TokenKind.unaryOp?])
    fun fuel rest room => ?_
  simp only [List.length_cons, List.length_append, List.length_nil, unaryLevel] at room
  have inner := h .rightBracket fuel (last :: rest) (.inr rfl) (by omega) closes
  simp only [Parser.primary, Parser.peek_bind, List.cons_append, List.append_assoc,
    List.nil_append, nextKind, opens, Parser.next_bind, Parser.bind_of_ok inner,
    Parser.expect_bind closes]
  rfl

theorem ParsesSuffixed.call (kind : t.kind = .identifier) (opens : first.kind = .leftParen)
    (h : ParsesIn es as) (closes : last.kind = .rightParen) :
    (Expr.call (t.span.to last.span) t.lexeme es).ParsesSuffixed
      (t :: first :: (as ++ [last])) where
  base := by simp [nextKind, kind, TokenKind.unaryOp?]
  read fuel rest room := by
    simp only [List.length_cons, List.length_append, List.length_nil, unaryLevel] at room ⊢
    obtain ⟨rounds, hf, he⟩ := (ParsesSuffixed.name kind).read fuel (first :: (as ++ last :: rest))
      (by simp only [List.length_singleton, unaryLevel]; omega)
    rw [List.length_singleton] at hf
    obtain ⟨rounds, rfl⟩ := Nat.exists_eq_add_one.mpr (show 0 < rounds by omega)
    refine ⟨rounds, by omega, ?_⟩
    have inner := h .rightParen rounds (last :: rest) (.inl rfl) (by omega) closes
    rw [show t :: first :: (as ++ [last]) ++ rest = [t] ++ first :: (as ++ last :: rest) by simp,
      he]
    simp only [Parser.suffixes, Parser.peek_bind, nextKind, opens, Parser.next_bind,
      Parser.bind_of_ok inner, Parser.expect_bind closes]

theorem ParsesSuffixed.index {target position : Expr} (h : target.ParsesSuffixed as)
    (nonempty : 0 < as.length) (opens : first.kind = .leftBracket) (h' : position.Parses bs)
    (closes : last.kind = .rightBracket) :
    (Expr.index (target.span.to last.span) target position).ParsesSuffixed
      (as ++ first :: (bs ++ [last])) where
  base := by
    cases as with
    | nil => exact absurd nonempty (Nat.lt_irrefl 0)
    | cons => exact h.base
  read fuel rest room := by
    simp only [List.length_cons, List.length_append, List.length_nil, unaryLevel] at room ⊢
    obtain ⟨rounds, hf, he⟩ := h.read fuel (first :: (bs ++ last :: rest))
      (by unfold unaryLevel; omega)
    obtain ⟨rounds, rfl⟩ := Nat.exists_eq_add_one.mpr (show 0 < rounds by omega)
    refine ⟨rounds, by omega, ?_⟩
    have inner := h'.expression rounds (last :: rest) (by omega) (nextKind_stops closes (by decide))
    rw [show as ++ first :: (bs ++ [last]) ++ rest = as ++ first :: (bs ++ last :: rest) by simp,
      he]
    simp only [Parser.suffixes, Parser.peek_bind, nextKind, opens, Parser.next_bind,
      Parser.bind_of_ok inner, Parser.expect_bind closes]

mutual

theorem Spelled.parses {e : Expr} {as : List Token} (h : e.Spelled as) (fits : e.every Expr.fits) :
    e.Parses as := by
  have nonempty := h.length_pos
  cases h with
  | literal denotes => exact (ParsesSuffixed.literal denotes).parses nonempty
  | name kind => exact (ParsesSuffixed.name kind).parses nonempty
  | binary first kind second =>
    simp only [every, Expr.fits, Bool.and_eq_true, decide_eq_true_eq] at fits
    obtain ⟨⟨⟨hl, hr⟩, fits⟩, fits'⟩ := fits
    exact (first.parses fits).binary kind (second.parses fits') hl hr
  | unary kind inner =>
    simp only [every, Expr.fits, Bool.and_eq_true, decide_eq_true_eq] at fits
    exact (inner.parses fits.2).unary kind fits.1
  | call kind opens inner closes =>
    simp only [every, Expr.fits, Bool.true_and] at fits
    have arguments := inner.parsesIn (inner.parsesMore fits)
    exact (ParsesSuffixed.call kind opens arguments closes).parses nonempty
  | array opens inner closes =>
    simp only [every, Expr.fits, Bool.true_and] at fits
    have elements := inner.parsesIn (inner.parsesMore fits)
    exact (ParsesSuffixed.array opens elements closes).parses nonempty
  | group opens inner closes =>
    simp only [every, Expr.fits, Bool.true_and] at fits
    exact (ParsesSuffixed.group opens (inner.parses fits) closes).parses nonempty
  | index owner opens position closes =>
    simp only [every, Expr.fits, Bool.and_eq_true, decide_eq_true_eq] at fits
    have target := (owner.parses fits.1.2).parsesSuffixed fits.1.1
    exact (target.index owner.length_pos opens (position.parses fits.2) closes).parses nonempty

theorem SpelledIn.parsesMore {es : List Expr} {as : List Token} (h : SpelledIn es as)
    (fits : everyIn Expr.fits es) (nonempty : es ≠ []) : ParsesMore es as := by
  cases h with
  | nil => exact absurd rfl nonempty
  | last only =>
    simp only [everyIn, Bool.and_eq_true] at fits
    exact (only.parses fits.1).only
  | more first kind others =>
    rw [everyIn, Bool.and_eq_true] at fits
    exact (first.parses fits.1).more kind (others.parsesMore fits.2 (by simp))

end

end Expr

end Script
