import Script.Proofs.Grammar.Completeness.Expressions
import Script.Proofs.Grammar.Soundness

namespace Script

/-- Whether a statement may begin with a token of this kind. -/
def TokenKind.startsStatement (k : TokenKind) : Bool :=
  k.startsExpression || k = .leftBrace ||
    match k with
    | .keyword word => word ≠ .else && word ≠ .in
    | _ => false

theorem TokenKind.startsStatement_of_startsExpression {k : TokenKind} (h : k.startsExpression) :
    k.startsStatement := by
  simp [startsStatement, h]

theorem Stmt.SpelledIn.starts {body : List Stmt} {span : Span} {as : List Token}
    (h : Stmt.SpelledIn body span as) : ∃ t ts, as = t :: ts ∧ t.kind = .leftBrace := by
  cases h with
  | braces opens => exact ⟨_, _, rfl, opens⟩

theorem Stmt.Spelled.starts {s : Stmt} {as : List Token} (h : s.Spelled as) :
    ∃ t ts, as = t :: ts ∧ t.kind.startsStatement := by
  cases h with
  | declare starts | var starts | define starts | function starts | «include» starts
  | ifThen starts | ifElse starts | elseIf starts | «while» starts | loop starts | «for» starts
  | leave starts | «return» starts | «break» starts | «continue» starts =>
    exact ⟨_, _, rfl, by rw [starts]; rfl⟩
  | assign place =>
    obtain ⟨t, ts, rfl, starts⟩ := place.starts
    exact ⟨t, _, rfl, TokenKind.startsStatement_of_startsExpression starts⟩
  | expr spelled =>
    obtain ⟨t, ts, rfl, starts⟩ := spelled.starts
    exact ⟨t, ts, rfl, TokenKind.startsStatement_of_startsExpression starts⟩
  | block block =>
    obtain ⟨t, ts, rfl, starts⟩ := block.starts
    exact ⟨t, ts, rfl, by rw [starts]; rfl⟩

theorem Stmt.SpelledUpTo.not_else {last : TokenKind} {stmts : List Stmt} {as : List Token}
    (h : Stmt.SpelledUpTo last stmts as) (hl : last ≠ .keyword .else) :
    nextKind last as ≠ .keyword .else := by
  cases h with
  | nil => exact hl
  | cons first =>
    obtain ⟨t, ts, rfl, starts⟩ := first.starts
    rintro same
    rw [List.cons_append, nextKind] at same
    rw [same] at starts
    cases starts

namespace Stmt

variable {s : Stmt} {last : TokenKind} {middle rest bs cs : List Token}

theorem endsBefore_semicolon (simple : s.isSimple) : s.endsBefore .semicolon = false := by
  cases s with
  | var _ _ value | «return» _ value => cases value <;> simp [endsBefore]
  | _ => simp_all [endsBefore, isSimple]

theorem EndsAt.optionalSemicolon (h : s.EndsAt .endOfInput middle rest) (simple : s.isSimple) :
    Parser.optionalSemicolon middle = .ok ((), rest) := by
  rw [Parser.optionalSemicolon_eq_ok]
  cases h with
  | semicolon _ kind => exact .inl ⟨_, rfl, kind⟩
  | without ends =>
    refine .inr ⟨rfl, fun same => ?_⟩
    rw [same, endsBefore_semicolon simple] at ends
    cases ends

theorem EndsAt.next (h : s.EndsAt last bs cs) :
    nextKind last bs = .semicolon ∨ s.endsBefore (nextKind last bs) := by
  cases h with
  | semicolon _ kind => exact .inl kind
  | without ends => exact .inr ends

theorem EndsAt.stops (h : s.EndsAt last bs cs) (hs : ∀ k, s.endsBefore k → k.stops 0) :
    (nextKind last bs).stops 0 := by
  rcases h.next with semicolon | ends
  · rw [semicolon]
    decide
  · exact hs _ ends

theorem EndsAt.not_assign (h : s.EndsAt last bs cs) (hs : s.endsBefore .assign = false) :
    nextKind last bs ≠ .assign := by
  intro same
  have next := h.next
  rw [same, hs] at next
  simp at next

theorem EndsAt.length_le (h : s.EndsAt last bs cs) : cs.length ≤ bs.length := by
  cases h with
  | semicolon => exact Nat.le_succ _
  | without => exact Nat.le_refl _

theorem EndsAt.append (h : s.EndsAt last bs cs) (hr : nextKind .endOfInput rest = last) :
    s.EndsAt .endOfInput (bs ++ rest) (cs ++ rest) := by
  cases h with
  | semicolon simple kind => exact .semicolon simple kind
  | without ends => exact .without (by rwa [nextKind_append, hr])

end Stmt

namespace Parser

variable {fuel : Nat} {tokens : List Token}

theorem statement_of_startsExpression (h : (nextKind .endOfInput tokens).startsExpression) :
    statement (fuel + 1) tokens = expressionStatement fuel tokens := by
  simp only [statement, peek_bind]
  generalize nextKind .endOfInput tokens = k at h
  split <;> first | rfl | cases h

theorem moreParameters_of_spelled {names seen : List String} {as rest : List Token}
    (h : NamesSpelled names as) (nonempty : names ≠ []) (nodup : names.Nodup)
    (fresh : ∀ name ∈ names, name ∉ seen) (room : as.length ≤ fuel)
    (noComma : nextKind .endOfInput rest ≠ .comma) :
    moreParameters fuel seen (as ++ rest) = .ok (names, rest) := by
  induction h generalizing seen fuel with
  | nil => exact absurd rfl nonempty
  | @last t kind =>
    rw [List.length_singleton] at room
    obtain ⟨fuel, rfl⟩ := Nat.exists_eq_add_one.mpr room
    simp only [moreParameters, List.cons_append, List.nil_append, expect_bind kind]
    rw [if_neg (fresh t.lexeme (by simp)), accept_bind_of_ne (by simp) noComma]
    rfl
  | @more t comma name names as kind separates _ ih =>
    simp only [List.length_cons] at room
    obtain ⟨fuel, rfl⟩ := Nat.exists_eq_add_one.mpr (show 0 < fuel by omega)
    obtain ⟨apart, nodup⟩ := List.nodup_cons.mp nodup
    have unseen : ∀ n ∈ name :: names, n ∉ t.lexeme :: seen := by
      intro n hn known
      rcases List.mem_cons.mp known with rfl | known
      · exact apart hn
      · exact fresh n (List.mem_cons_of_mem _ hn) known
    have others : moreParameters fuel (t.lexeme :: seen) (as ++ rest) = .ok (name :: names, rest) :=
      ih (by simp) nodup unseen (by omega)
    simp only [moreParameters, List.cons_append, expect_bind kind]
    rw [if_neg (fresh t.lexeme (by simp)), accept_bind separates, if_pos rfl, bind_of_ok others]
    rfl

theorem parameters_of_spelled {names : List String} {as rest : List Token}
    (h : NamesSpelled names as) (nodup : names.Nodup) (room : as.length ≤ fuel)
    (closes : nextKind .endOfInput rest = .rightParen) :
    parameters fuel (as ++ rest) = .ok (names, rest) := by
  simp only [parameters, peek_bind]
  by_cases empty : names = []
  · subst empty
    cases h
    rw [List.nil_append, if_pos closes]
    rfl
  · have more : nextKind .endOfInput (as ++ rest) ≠ .rightParen := by
      cases h with
      | nil => exact absurd rfl empty
      | last kind | more kind =>
        rw [List.cons_append, nextKind_cons, kind]
        simp
    rw [if_neg more]
    exact moreParameters_of_spelled h empty nodup (by simp) room (by simp [closes])

end Parser

namespace Stmt

variable {s : Stmt} {as bs : List Token}

/-- What the tokens of a statement are read as. -/
structure Parses (s : Stmt) (as : List Token) : Prop where
  statement : ∀ fuel middle rest, 16 * as.length + 1 ≤ fuel → s.EndsAt .endOfInput middle rest →
    nextKind .endOfInput rest ≠ .keyword .else →
      Parser.statement fuel (as ++ middle) = .ok (s, rest)
  ifStatement : s.isIf → ∀ fuel rest, 16 * as.length ≤ fuel →
    nextKind .endOfInput rest ≠ .keyword .else →
      Parser.ifStatement fuel (as ++ rest) = .ok (s, rest)

structure ParsesIn (body : List Stmt) (span : Span) (as : List Token) : Prop where
  opens : ∀ rest, nextKind .endOfInput (as ++ rest) = .leftBrace
  block : ∀ fuel rest, 16 * as.length ≤ fuel →
    Parser.block fuel (as ++ rest) = .ok ((body, span), rest)

def ParsesUpTo (last : TokenKind) (stmts : List Stmt) (as : List Token) : Prop :=
  ∀ fuel rest, 16 * as.length + 2 ≤ fuel → nextKind .endOfInput rest = last →
    Parser.statementsUntil fuel last (as ++ rest) = .ok (stmts, rest)

theorem parses_of_not_if (other : s.isIf = false)
    (h : ∀ fuel middle rest, 16 * as.length ≤ fuel → s.EndsAt .endOfInput middle rest →
      Parser.statement (fuel + 1) (as ++ middle) = .ok (s, rest)) : s.Parses as where
  statement fuel middle rest room ends _ := by
    obtain ⟨fuel, rfl⟩ := Nat.exists_eq_add_one.mpr (show 0 < fuel by omega)
    exact h fuel middle rest (by omega) ends
  ifStatement isIf := absurd isIf (by simp [other])

theorem parses_of_not_simple (compound : s.isSimple = false) (other : s.isIf = false)
    (h : ∀ fuel rest, 16 * as.length ≤ fuel →
      Parser.statement (fuel + 1) (as ++ rest) = .ok (s, rest)) : s.Parses as := by
  refine parses_of_not_if other fun fuel middle rest room ends => ?_
  obtain rfl := ends.eq_of_not_simple compound
  exact h fuel middle room

theorem parses_of_if (isIf : s.isIf)
    (first : ∀ rest, nextKind .endOfInput (as ++ rest) = .keyword .if)
    (h : ∀ fuel rest, 16 * as.length ≤ fuel → nextKind .endOfInput rest ≠ .keyword .else →
      Parser.ifStatement fuel (as ++ rest) = .ok (s, rest)) : s.Parses as where
  statement fuel middle rest room ends noElse := by
    obtain ⟨fuel, rfl⟩ := Nat.exists_eq_add_one.mpr (show 0 < fuel by omega)
    obtain rfl := ends.eq_of_not_simple (not_simple_of_isIf isIf)
    simp only [Parser.statement, Parser.peek_bind, first]
    exact h fuel middle (by omega) noElse
  ifStatement _ := h

theorem ParsesIn.stops {body : List Stmt} {span : Span} (h : ParsesIn body span as)
    (rest : List Token) : (nextKind .endOfInput (as ++ rest)).stops 0 := by
  rw [h.opens]
  decide

variable {value condition target : Expr} {body otherwise : List Stmt} {names : List String}
  {span span' : Span} {next : Stmt} {word name equals other first last : Token} {cs : List Token}

theorem Parses.declare (starts : word.kind = .keyword .var) (kind : name.kind = .identifier) :
    (Stmt.var (word.span.to name.span) name.lexeme none).Parses [word, name] := by
  refine parses_of_not_if rfl fun fuel middle rest room ends => ?_
  have noValue : nextKind .endOfInput middle ≠ .assign :=
    ends.not_assign (by simp [endsBefore])
  simp only [Parser.statement, Parser.peek_bind, List.cons_append, List.nil_append, nextKind_cons,
    starts, Parser.varStatement, Parser.next_bind, Parser.expect_bind kind,
    Parser.accept_bind_of_ne (by simp) noValue]
  exact Parser.bind_of_ok (ends.optionalSemicolon rfl)

theorem Parses.var (starts : word.kind = .keyword .var) (kind : name.kind = .identifier)
    (assign : equals.kind = .assign) (h : value.Parses as) :
    (Stmt.var (word.span.to value.span) name.lexeme (some value)).Parses
      (word :: name :: equals :: as) := by
  refine parses_of_not_if rfl fun fuel middle rest room ends => ?_
  simp only [List.length_cons] at room
  have stops : (nextKind .endOfInput middle).stops 0 :=
    ends.stops fun k => by simp [endsBefore]
  have initial := h.expression fuel middle (by omega) stops
  simp only [Parser.statement, Parser.peek_bind, List.cons_append, nextKind_cons, starts,
    Parser.varStatement, Parser.next_bind, Parser.expect_bind kind, Parser.accept_bind assign,
    if_true, Parser.bind_of_ok initial]
  exact Parser.bind_of_ok (ends.optionalSemicolon rfl)

theorem Parses.define (starts : word.kind = .keyword .define) (kind : name.kind = .identifier)
    (assign : equals.kind = .assign) (h : value.Parses as) :
    (Stmt.define (word.span.to value.span) name.lexeme value).Parses
      (word :: name :: equals :: as) := by
  refine parses_of_not_if rfl fun fuel middle rest room ends => ?_
  simp only [List.length_cons] at room
  have stops : (nextKind .endOfInput middle).stops 0 :=
    ends.stops fun k => by simp [endsBefore]
  have global := h.expression fuel middle (by omega) stops
  simp only [Parser.statement, Parser.peek_bind, List.cons_append, nextKind_cons, starts,
    Parser.defineStatement, Parser.next_bind, Parser.expect_bind kind, Parser.expect_bind assign,
    Parser.bind_of_ok global]
  exact Parser.bind_of_ok (ends.optionalSemicolon rfl)

theorem Parses.include (starts : word.kind = .keyword .include)
    (kind : name.kind = .string ∨ name.kind = .identifier) (named : name.lexeme ≠ "") :
    (Stmt.include (word.span.to name.span) name.lexeme).Parses [word, name] := by
  refine parses_of_not_if rfl fun fuel middle rest room ends => ?_
  have module : nextKind .endOfInput (name :: middle) = .string ∨
      nextKind .endOfInput (name :: middle) = .identifier := kind
  simp only [Parser.statement, Parser.peek_bind, List.cons_append, List.nil_append, nextKind_cons,
    starts]
  simp only [Parser.includeStatement, Parser.next_bind, Parser.peek_bind]
  rw [if_pos module, Parser.next_bind, if_neg named]
  exact Parser.bind_of_ok (ends.optionalSemicolon rfl)

theorem Parses.leave (starts : word.kind = .keyword .return) :
    (Stmt.return (word.span.to word.span) none).Parses [word] := by
  refine parses_of_not_if rfl fun fuel middle rest room ends => ?_
  have visible : nextKind .endOfInput middle = .semicolon ∨
      nextKind .endOfInput middle = .rightBrace ∨ nextKind .endOfInput middle = .endOfInput :=
    ends.next.imp id fun hk => by simpa [endsBefore] using hk
  simp only [Parser.statement, Parser.peek_bind, List.cons_append, List.nil_append, nextKind_cons,
    starts, Parser.returnStatement, Parser.next_bind]
  rw [if_pos visible]
  exact Parser.bind_of_ok (ends.optionalSemicolon rfl)

theorem Parses.return (starts : word.kind = .keyword .return) (spelled : value.Spelled as)
    (h : value.Parses as) :
    (Stmt.return (word.span.to value.span) (some value)).Parses (word :: as) := by
  refine parses_of_not_if rfl fun fuel middle rest room ends => ?_
  simp only [List.length_cons] at room
  have stops : (nextKind .endOfInput middle).stops 0 :=
    ends.stops fun k => by simp [endsBefore]
  have result := h.expression fuel middle (by omega) stops
  have more : ¬(nextKind .endOfInput (as ++ middle) = .semicolon ∨
      nextKind .endOfInput (as ++ middle) = .rightBrace ∨
      nextKind .endOfInput (as ++ middle) = .endOfInput) := by
    have begins : (nextKind .endOfInput (as ++ middle)).startsExpression :=
      spelled.startsExpression
    rintro (same | same | same) <;> rw [same] at begins <;> cases begins
  simp only [Parser.statement, Parser.peek_bind, List.cons_append, nextKind_cons, starts]
  simp only [Parser.returnStatement, Parser.next_bind, Parser.peek_bind]
  rw [if_neg more, Parser.bind_of_ok result]
  exact Parser.bind_of_ok (ends.optionalSemicolon rfl)

theorem Parses.assign (place : target.Spelled as) (ht : target.Parses as)
    (assignable : Parser.isAssignable target) (kind : equals.kind = .assign)
    (h : value.Parses bs) :
    (Stmt.assign (target.span.to value.span) target value).Parses (as ++ equals :: bs) := by
  refine parses_of_not_if rfl fun fuel middle rest room ends => ?_
  simp only [List.length_append, List.length_cons] at room
  have stops : (nextKind .endOfInput middle).stops 0 :=
    ends.stops fun k => by simp [endsBefore]
  have new := h.expression fuel middle (by omega) stops
  have old := ht.expression fuel (equals :: (bs ++ middle))
    (by omega) (nextKind_stops kind (by decide))
  rw [List.append_assoc, List.cons_append,
    Parser.statement_of_startsExpression place.startsExpression]
  simp only [Parser.expressionStatement, Parser.bind_of_ok old, Parser.peek_bind, nextKind_cons,
    kind, if_true, Parser.next_bind, assignable, Parser.bind_of_ok new]
  exact Parser.bind_of_ok (ends.optionalSemicolon rfl)

theorem Parses.expr (spelled : value.Spelled as) (h : value.Parses as) :
    (Stmt.expr value.span value).Parses as := by
  refine parses_of_not_if rfl fun fuel middle rest room ends => ?_
  have stops : (nextKind .endOfInput middle).stops 0 :=
    ends.stops fun k => by simp [endsBefore]
  have noAssign : nextKind .endOfInput middle ≠ .assign :=
    ends.not_assign (by simp [endsBefore])
  have whole := h.expression fuel middle (by omega) stops
  rw [Parser.statement_of_startsExpression spelled.startsExpression]
  simp only [Parser.expressionStatement, Parser.bind_of_ok whole, Parser.peek_bind, noAssign,
    if_false]
  exact Parser.bind_of_ok (ends.optionalSemicolon rfl)

theorem parses_word {make : Span → Stmt} (simple : (make word.span).isSimple)
    (other : (make word.span).isIf = false)
    (dispatch : ∀ fuel rest, Parser.statement (fuel + 1) (word :: rest) =
      Parser.wordStatement make (word :: rest)) : (make word.span).Parses [word] := by
  refine parses_of_not_if other fun fuel middle rest room ends => ?_
  rw [List.singleton_append, dispatch, Parser.wordStatement, Parser.next_bind]
  exact Parser.bind_of_ok (ends.optionalSemicolon simple)

theorem Parses.block (h : ParsesIn body span as) : (Stmt.block span body).Parses as := by
  refine parses_of_not_simple rfl rfl fun fuel rest room => ?_
  simp only [Parser.statement, Parser.peek_bind, h.opens]
  rw [Parser.bind_of_ok (h.block fuel rest room)]
  rfl

theorem Parses.function (starts : word.kind = .keyword .func)
    (kind : name.kind = .identifier) (opens : first.kind = .leftParen)
    (spelled : NamesSpelled names as) (nodup : names.Nodup) (closes : last.kind = .rightParen)
    (h : ParsesIn body span bs) :
    (Stmt.function (word.span.to span) name.lexeme names body).Parses
      (word :: name :: first :: (as ++ last :: bs)) := by
  refine parses_of_not_simple rfl rfl fun fuel rest room => ?_
  simp only [List.length_cons, List.length_append] at room
  have parameters : Parser.parameters fuel (as ++ last :: (bs ++ rest)) =
      .ok (names, last :: (bs ++ rest)) :=
    Parser.parameters_of_spelled spelled nodup (by omega) closes
  simp only [Parser.statement, Parser.peek_bind, List.cons_append, List.append_assoc,
    nextKind_cons, starts, Parser.next_bind, Parser.expect_bind kind, Parser.expect_bind opens,
    Parser.bind_of_ok parameters, Parser.expect_bind closes,
    Parser.bind_of_ok (h.block fuel rest (by omega))]
  rfl

theorem Parses.while (starts : word.kind = .keyword .while) (hc : condition.Parses as)
    (h : ParsesIn body span bs) :
    (Stmt.while (word.span.to span) condition body).Parses (word :: (as ++ bs)) := by
  refine parses_of_not_simple rfl rfl fun fuel rest room => ?_
  simp only [List.length_cons, List.length_append] at room
  have test := hc.expression fuel (bs ++ rest) (by omega) (h.stops rest)
  simp only [Parser.statement, Parser.peek_bind, List.cons_append, List.append_assoc,
    nextKind_cons, starts, Parser.next_bind, Parser.bind_of_ok test,
    Parser.bind_of_ok (h.block fuel rest (by omega))]
  rfl

theorem Parses.loop (starts : word.kind = .keyword .loop) (h : ParsesIn body span as) :
    (Stmt.loop (word.span.to span) body).Parses (word :: as) := by
  refine parses_of_not_simple rfl rfl fun fuel rest room => ?_
  rw [List.length_cons] at room
  simp only [Parser.statement, Parser.peek_bind, List.cons_append, nextKind_cons, starts,
    Parser.next_bind, Parser.bind_of_ok (h.block fuel rest (by omega))]
  rfl

theorem Parses.for (starts : word.kind = .keyword .for) (kind : name.kind = .identifier)
    (separates : other.kind = .keyword .in) (he : value.Parses as) (h : ParsesIn body span bs) :
    (Stmt.for (word.span.to span) name.lexeme value body).Parses
      (word :: name :: other :: (as ++ bs)) := by
  refine parses_of_not_simple rfl rfl fun fuel rest room => ?_
  simp only [List.length_cons, List.length_append] at room
  have elements := he.expression fuel (bs ++ rest) (by omega) (h.stops rest)
  simp only [Parser.statement, Parser.peek_bind, List.cons_append, List.append_assoc,
    nextKind_cons, starts, Parser.next_bind, Parser.expect_bind kind,
    Parser.expect_bind separates, Parser.bind_of_ok elements,
    Parser.bind_of_ok (h.block fuel rest (by omega))]
  rfl

theorem Parses.ifThen (starts : word.kind = .keyword .if) (hc : condition.Parses as)
    (h : ParsesIn body span bs) :
    (Stmt.ifThen (word.span.to span) condition body).Parses (word :: (as ++ bs)) := by
  refine parses_of_if rfl (fun _ => starts) fun fuel rest room noElse => ?_
  simp only [List.length_cons, List.length_append] at room
  obtain ⟨fuel, rfl⟩ := Nat.exists_eq_add_one.mpr (show 0 < fuel by omega)
  have test := hc.expression fuel (bs ++ rest) (by omega) (h.stops rest)
  simp only [Parser.ifStatement, List.cons_append, List.append_assoc, Parser.next_bind,
    Parser.bind_of_ok test, Parser.bind_of_ok (h.block fuel rest (by omega)),
    Parser.accept_bind_of_ne (by simp) noElse]
  rfl

theorem Parses.ifElse (starts : word.kind = .keyword .if) (hc : condition.Parses as)
    (h : ParsesIn body span bs) (kind : other.kind = .keyword .else)
    (h' : ParsesIn otherwise span' cs) :
    (Stmt.ifElse (word.span.to span') condition body otherwise).Parses
      (word :: (as ++ (bs ++ other :: cs))) := by
  refine parses_of_if rfl (fun _ => starts) fun fuel rest room noElse => ?_
  simp only [List.length_cons, List.length_append] at room
  obtain ⟨fuel, rfl⟩ := Nat.exists_eq_add_one.mpr (show 0 < fuel by omega)
  have test := hc.expression fuel (bs ++ other :: (cs ++ rest)) (by omega) (h.stops _)
  have noIf : nextKind .endOfInput (cs ++ rest) ≠ .keyword .if := by simp [h'.opens]
  simp only [Parser.ifStatement, List.cons_append, List.append_assoc, Parser.next_bind,
    Parser.bind_of_ok test, Parser.bind_of_ok (h.block fuel (other :: (cs ++ rest)) (by omega)),
    Parser.accept_bind kind, if_true, Parser.peek_bind, noIf, if_false,
    Parser.bind_of_ok (h'.block fuel rest (by omega))]
  rfl

theorem Parses.elseIf (starts : word.kind = .keyword .if) (hc : condition.Parses as)
    (h : ParsesIn body span bs) (kind : other.kind = .keyword .else) (isIf : next.isIf)
    (another : ∀ rest, nextKind .endOfInput (cs ++ rest) = .keyword .if) (h' : next.Parses cs) :
    (Stmt.ifElse (word.span.to next.span) condition body [next]).Parses
      (word :: (as ++ (bs ++ other :: cs))) := by
  refine parses_of_if rfl (fun _ => starts) fun fuel rest room noElse => ?_
  simp only [List.length_cons, List.length_append] at room
  obtain ⟨fuel, rfl⟩ := Nat.exists_eq_add_one.mpr (show 0 < fuel by omega)
  have test := hc.expression fuel (bs ++ other :: (cs ++ rest)) (by omega) (h.stops _)
  simp only [Parser.ifStatement, List.cons_append, List.append_assoc, Parser.next_bind,
    Parser.bind_of_ok test, Parser.bind_of_ok (h.block fuel (other :: (cs ++ rest)) (by omega)),
    Parser.accept_bind kind, if_true, Parser.peek_bind, another,
    Parser.bind_of_ok (h'.ifStatement isIf fuel rest (by omega) noElse)]
  rfl

theorem SpelledIn.parsesIn (h : SpelledIn body span as)
    (inside : ∀ {bs}, SpelledUpTo .rightBrace body bs → ParsesUpTo .rightBrace body bs) :
    ParsesIn body span as := by
  cases h with
  | @braces _ first last as opens inner closes =>
    refine ⟨fun _ => opens, fun fuel rest room => ?_⟩
    simp only [List.length_cons, List.length_append, List.length_nil] at room
    obtain ⟨fuel, rfl⟩ := Nat.exists_eq_add_one.mpr (show 0 < fuel by omega)
    have stmts := inside inner fuel (last :: rest) (by omega) closes
    simp only [Parser.block, List.cons_append, List.append_assoc, List.nil_append,
      Parser.expect_bind opens, Parser.bind_of_ok stmts, Parser.expect_bind closes]
    rfl

theorem ParsesUpTo.nil {last : TokenKind} : ParsesUpTo last [] [] := by
  intro fuel rest room closes
  obtain ⟨fuel, rfl⟩ := Nat.exists_eq_add_one.mpr (show 0 < fuel by omega)
  simp only [Parser.statementsUntil, Parser.peek_bind, List.nil_append]
  rw [if_pos (.inl closes)]
  rfl

theorem ParsesUpTo.cons {last : TokenKind} {stmts : List Stmt} (spelled : s.Spelled as)
    (h : s.Parses as) (ends : s.EndsAt last bs cs) (others : SpelledUpTo last stmts cs)
    (h' : ParsesUpTo last stmts cs) (closing : last = .rightBrace ∨ last = .endOfInput) :
    ParsesUpTo last (s :: stmts) (as ++ bs) := by
  intro fuel rest room closes
  obtain ⟨t, ts, rfl, starts⟩ := spelled.starts
  have shorter := ends.length_le
  simp only [List.length_append, List.length_cons] at room
  obtain ⟨fuel, rfl⟩ := Nat.exists_eq_add_one.mpr (show 0 < fuel by omega)
  have more : ¬(nextKind .endOfInput (t :: ts ++ (bs ++ rest)) = last ∨
      nextKind .endOfInput (t :: ts ++ (bs ++ rest)) = .endOfInput) := by
    rintro (same | same) <;> rw [List.cons_append, nextKind_cons] at same <;>
      rw [same] at starts
    · rcases closing with rfl | rfl <;> cases starts
    · cases starts
  have noElse : nextKind .endOfInput (cs ++ rest) ≠ .keyword .else := by
    rw [nextKind_append, closes]
    exact others.not_else (by rcases closing with rfl | rfl <;> simp)
  have first := h.statement fuel (bs ++ rest) (cs ++ rest)
    (by rw [List.length_cons]; omega) (ends.append closes) noElse
  simp only [Parser.statementsUntil, Parser.peek_bind, List.append_assoc]
  rw [if_neg more, Parser.bind_of_ok first, Parser.bind_of_ok (h' fuel rest (by omega) closes)]
  rfl

theorem Spelled.starts_if (h : s.Spelled as) (hs : s.isIf) (rest : List Token) :
    nextKind .endOfInput (as ++ rest) = .keyword .if := by
  cases h with
  | ifThen starts | ifElse starts | elseIf starts => exact starts
  | _ => cases hs

mutual

theorem Spelled.parses {s : Stmt} {as : List Token} (h : s.Spelled as)
    (fits : s.every Stmt.fits Expr.fits) : s.Parses as := by
  cases h with
  | declare starts kind => exact .declare starts kind
  | var starts kind assign initial =>
    simp only [every, Stmt.fits, Option.toList, Expr.everyIn, Bool.and_true, Bool.true_and] at fits
    exact .var starts kind assign (initial.parses fits)
  | define starts kind assign initial =>
    simp only [every, Stmt.fits, Bool.true_and] at fits
    exact .define starts kind assign (initial.parses fits)
  | assign place kind new =>
    simp only [every, Stmt.fits, Bool.and_eq_true] at fits
    obtain ⟨⟨assignable, fits⟩, fits'⟩ := fits
    exact .assign place (place.parses fits) assignable kind (new.parses fits')
  | function starts kind opens names closes block =>
    simp only [every, Stmt.fits, Bool.and_eq_true, decide_eq_true_eq] at fits
    have body := block.parsesIn (·.parsesUpTo fits.2 (.inl rfl))
    exact .function starts kind opens names fits.1 closes body
  | «include» starts kind =>
    simp only [every, Stmt.fits, decide_eq_true_eq] at fits
    exact .include starts kind fits
  | expr spelled =>
    simp only [every, Stmt.fits, Bool.true_and] at fits
    exact .expr spelled (spelled.parses fits)
  | block block =>
    simp only [every, Stmt.fits, Bool.true_and] at fits
    exact .block (block.parsesIn (·.parsesUpTo fits (.inl rfl)))
  | ifThen starts test block =>
    simp only [every, Stmt.fits, Bool.true_and, Bool.and_eq_true] at fits
    have body := block.parsesIn (·.parsesUpTo fits.2 (.inl rfl))
    exact .ifThen starts (test.parses fits.1) body
  | ifElse starts test block kind final =>
    simp only [every, Stmt.fits, Bool.true_and, Bool.and_eq_true] at fits
    have body := block.parsesIn (·.parsesUpTo fits.1.2 (.inl rfl))
    have otherwise := final.parsesIn (·.parsesUpTo fits.2 (.inl rfl))
    exact .ifElse starts (test.parses fits.1.1) body kind otherwise
  | elseIf starts test block kind isIf final =>
    simp only [every, Stmt.fits, everyIn, Bool.true_and, Bool.and_true, Bool.and_eq_true] at fits
    have body := block.parsesIn (·.parsesUpTo fits.1.2 (.inl rfl))
    exact .elseIf starts (test.parses fits.1.1) body kind isIf (final.starts_if isIf)
      (final.parses fits.2)
  | «while» starts test block =>
    simp only [every, Stmt.fits, Bool.true_and, Bool.and_eq_true] at fits
    have body := block.parsesIn (·.parsesUpTo fits.2 (.inl rfl))
    exact .while starts (test.parses fits.1) body
  | loop starts block =>
    simp only [every, Stmt.fits, Bool.true_and] at fits
    exact .loop starts (block.parsesIn (·.parsesUpTo fits (.inl rfl)))
  | «for» starts kind separates elements block =>
    simp only [every, Stmt.fits, Bool.true_and, Bool.and_eq_true] at fits
    have body := block.parsesIn (·.parsesUpTo fits.2 (.inl rfl))
    exact .for starts kind separates (elements.parses fits.1) body
  | leave starts => exact .leave starts
  | «return» starts result =>
    simp only [every, Stmt.fits, Option.toList, Expr.everyIn, Bool.and_true, Bool.true_and] at fits
    exact .return starts result (result.parses fits)
  | «break» starts | «continue» starts =>
    exact parses_word rfl rfl fun _ _ => by
      simp only [Parser.statement, Parser.peek_bind, nextKind_cons, starts]

theorem SpelledUpTo.parsesUpTo {last : TokenKind} {stmts : List Stmt} {as : List Token}
    (h : SpelledUpTo last stmts as) (fits : everyIn Stmt.fits Expr.fits stmts)
    (closing : last = .rightBrace ∨ last = .endOfInput) : ParsesUpTo last stmts as := by
  cases h with
  | nil => exact .nil
  | cons first ends others =>
    simp only [everyIn, Bool.and_eq_true] at fits
    exact .cons first (first.parses fits.1) ends others (others.parsesUpTo fits.2 closing) closing

end

end Stmt

/-- A program whose operands need no further brackets is what its tokens parse to. -/
theorem parseTokens_of_spelled {program : Program} {read : List Token} {last : Token}
    (h : program.Spelled read) (fits : program.fits) (kind : last.kind = .endOfInput) :
    parseTokens (read ++ [last]) = .ok program := by
  have parsed := h.parsesUpTo fits (.inr rfl) (parseFuel (read ++ [last])) [last]
    (by simp only [parseFuel, List.length_append, List.length_singleton]; omega) kind
  rw [parseTokens, parsed]

theorem parseTokens_eq_ok_iff {program : Program} {read : List Token} {last : Token}
    (kind : last.kind = .endOfInput) (inside : ∀ t ∈ read, t.kind ≠ .endOfInput) :
    parseTokens (read ++ [last]) = .ok program ↔ program.Spelled read ∧ program.fits :=
  ⟨parseTokens_spelled kind inside, fun h => parseTokens_of_spelled h.1 h.2 kind⟩

end Script
