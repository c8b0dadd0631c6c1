import Script.Proofs.Grammar.Soundness.Expressions
import Script.Proofs.Grammar.Printer

namespace Script

/-- Whether a statement is what has been read of the tokens in front of the rest, its semicolon
included. -/
structure Stmt.Read (s : Stmt) (tokens rest : List Token) : Prop where
  spelled : ∃ read middle, tokens = read ++ middle ∧ s.Spelled read ∧
    s.EndsAt .endOfInput middle rest
  fits : s.every Stmt.fits Expr.fits

/-- Whether a block is what has been read of the tokens in front of the rest. -/
structure Stmt.ReadIn (body : List Stmt) (span : Span) (tokens rest : List Token) : Prop where
  spelled : ∃ read, tokens = read ++ rest ∧ Stmt.SpelledIn body span read
  fits : Stmt.everyIn Stmt.fits Expr.fits body

/-- Whether statements are what has been read of the tokens in front of the rest. -/
structure Stmt.ReadUpTo (stmts : List Stmt) (tokens rest : List Token) : Prop where
  spelled : ∃ read, tokens = read ++ rest ∧
    Stmt.SpelledUpTo (nextKind .endOfInput rest) stmts read
  fits : Stmt.everyIn Stmt.fits Expr.fits stmts

namespace Stmt

variable {s : Stmt} {tokens middle rest cs : List Token}

theorem EndsAt.take (h : s.EndsAt .endOfInput middle (cs ++ rest)) :
    ∃ bs, middle = bs ++ rest ∧ s.EndsAt (nextKind .endOfInput rest) bs cs := by
  cases h with
  | @semicolon t _ simple kind => exact ⟨t :: cs, rfl, .semicolon simple kind⟩
  | without ends =>
    rw [nextKind_append] at ends
    exact ⟨cs, rfl, .without ends⟩

theorem Read.simple {read : List Token} (spelled : s.Spelled read) (he : tokens = read ++ middle)
    (simple : s.isSimple) (fits : s.every Stmt.fits Expr.fits)
    (ends : nextKind .endOfInput middle ≠ .semicolon →
      s.endsBefore (nextKind .endOfInput middle))
    (h : Parser.optionalSemicolon middle = .ok ((), rest)) : s.Read tokens rest := by
  refine ⟨⟨read, middle, he, spelled, ?_⟩, fits⟩
  rcases Parser.optionalSemicolon_eq_ok.mp h with ⟨t, rfl, kind⟩ | ⟨rfl, none⟩
  · exact .semicolon simple kind
  · exact .without (ends none)

theorem Read.compound {read : List Token} (spelled : s.Spelled read) (he : tokens = read ++ rest)
    (ends : ∀ k, s.endsBefore k) (fits : s.every Stmt.fits Expr.fits) :
    s.Read tokens rest :=
  ⟨⟨read, rest, he, spelled, .without (ends _)⟩, fits⟩

end Stmt

namespace Parser

variable {fuel : Nat} {tokens rest : List Token} {s : Stmt}

theorem varStatement_read (hk : nextKind .endOfInput tokens = .keyword .var)
    (h : varStatement fuel tokens = .ok (s, rest)) : s.Read tokens rest := by
  simp only [varStatement, bind_eq_ok, next_eq_ok, expect_eq_ok] at h
  obtain ⟨word, _, rfl, name, _, ⟨rfl, kind⟩, equals, after, he, h⟩ := h
  cases equals with
  | true =>
    simp only [if_true, bind_eq_ok, pure_eq_ok] at h
    obtain ⟨value, middle, hv, _, _, ended, rfl, rfl⟩ := h
    obtain ⟨t, rfl, assign⟩ := accept_eq_ok.mp he
    obtain ⟨as, rfl, spelled, fits, stops⟩ := expression_read hv
    refine .simple (.var hk kind assign spelled) (by simp) rfl ?_ ?_ ended
    · simpa [Stmt.every, Stmt.fits, Expr.everyIn] using fits
    · intro none
      simp [Stmt.endsBefore, none, stops]
  | false =>
    simp only [Bool.false_eq_true, if_false, bind_eq_ok, pure_eq_ok] at h
    obtain ⟨_, _, ended, rfl, rfl⟩ := h
    obtain ⟨rfl, noValue⟩ := (accept_eq_ok_false (by simp)).mp he
    refine .simple (.declare hk kind) (by simp) rfl rfl ?_ ended
    intro none
    simp [Stmt.endsBefore, none, noValue]

theorem defineStatement_read (hk : nextKind .endOfInput tokens = .keyword .define)
    (h : defineStatement fuel tokens = .ok (s, rest)) : s.Read tokens rest := by
  simp only [defineStatement, bind_eq_ok, next_eq_ok, expect_eq_ok, pure_eq_ok] at h
  obtain ⟨word, _, rfl, name, _, ⟨rfl, kind⟩, t, after, ⟨rfl, assign⟩, value, middle, hv, _, _,
    ended, rfl, rfl⟩ := h
  obtain ⟨as, rfl, spelled, fits, stops⟩ := expression_read hv
  refine .simple (.define hk kind assign spelled) (by simp) rfl ?_ ?_ ended
  · simpa [Stmt.every, Stmt.fits] using fits
  · intro none
    simp [Stmt.endsBefore, none, stops]

theorem includeStatement_read (hk : nextKind .endOfInput tokens = .keyword .include)
    (h : includeStatement tokens = .ok (s, rest)) : s.Read tokens rest := by
  simp only [includeStatement, bind_eq_ok, next_eq_ok, peek_bind] at h
  obtain ⟨word, after, rfl, h⟩ := h
  split at h
  next kind =>
    simp only [bind_eq_ok, next_eq_ok] at h
    obtain ⟨name, middle, rfl, h⟩ := h
    split at h
    next => exact absurd h failAt_ne_ok
    next named =>
      simp only [bind_eq_ok, pure_eq_ok] at h
      obtain ⟨_, _, ended, rfl, rfl⟩ := h
      refine .simple (.include hk kind) (by simp) rfl ?_ ?_ ended
      · simpa [Stmt.every, Stmt.fits] using named
      · intro none
        simp [Stmt.endsBefore, none]
  next => exact absurd h fail_ne_ok

theorem returnStatement_read (hk : nextKind .endOfInput tokens = .keyword .return)
    (h : returnStatement fuel tokens = .ok (s, rest)) : s.Read tokens rest := by
  simp only [returnStatement, bind_eq_ok, next_eq_ok, peek_bind] at h
  obtain ⟨word, middle, rfl, h⟩ := h
  split at h
  next visible =>
    simp only [bind_eq_ok, pure_eq_ok] at h
    obtain ⟨_, _, ended, rfl, rfl⟩ := h
    refine .simple (.leave hk) (by simp) rfl rfl ?_ ended
    intro none
    simpa [Stmt.endsBefore, none] using visible
  next =>
    simp only [bind_eq_ok, pure_eq_ok] at h
    obtain ⟨value, middle, hv, _, _, ended, rfl, rfl⟩ := h
    obtain ⟨as, rfl, spelled, fits, stops⟩ := expression_read hv
    refine .simple (.return hk spelled) (by simp) rfl ?_ ?_ ended
    · simpa [Stmt.every, Stmt.fits, Expr.everyIn] using fits
    · intro none
      simp [Stmt.endsBefore, none, stops]

theorem expressionStatement_read (h : expressionStatement fuel tokens = .ok (s, rest)) :
    s.Read tokens rest := by
  simp only [expressionStatement, bind_eq_ok, peek_bind] at h
  obtain ⟨target, after, ht, h⟩ := h
  obtain ⟨as, rfl, spelled, fits, stops⟩ := expression_read ht
  split at h
  next assign =>
    simp only [bind_eq_ok, next_eq_ok] at h
    obtain ⟨equals, last, rfl, h⟩ := h
    split at h
    next assignable =>
      simp only [bind_eq_ok, pure_eq_ok] at h
      obtain ⟨value, middle, hv, _, _, ended, rfl, rfl⟩ := h
      obtain ⟨bs, rfl, spelled', fits', stops'⟩ := expression_read hv
      refine .simple (.assign spelled assign spelled') (by simp) rfl ?_ ?_ ended
      · simp [Stmt.every, Stmt.fits, assignable, fits, fits']
      · intro none
        simp [Stmt.endsBefore, none, stops']
    next => exact absurd h failAt_ne_ok
  next noAssign =>
    simp only [bind_eq_ok, pure_eq_ok] at h
    obtain ⟨_, _, ended, rfl, rfl⟩ := h
    refine .simple (.expr spelled) rfl rfl ?_ ?_ ended
    · simpa [Stmt.every, Stmt.fits] using fits
    · intro none
      simp [Stmt.endsBefore, none, noAssign, stops]

theorem wordStatement_read {make : Span → Stmt} {kind : TokenKind}
    (spelled : ∀ t : Token, t.kind = kind → (make t.span).Spelled [t])
    (simple : ∀ span, (make span).isSimple)
    (fits : ∀ span, (make span).every Stmt.fits Expr.fits)
    (ends : ∀ span k, k ≠ .semicolon → (make span).endsBefore k)
    (hk : nextKind .endOfInput tokens = kind)
    (h : wordStatement make tokens = .ok (s, rest)) : s.Read tokens rest := by
  simp only [wordStatement, bind_eq_ok, next_eq_ok, pure_eq_ok] at h
  obtain ⟨word, middle, rfl, _, _, ended, rfl, rfl⟩ := h
  exact .simple (spelled word hk) rfl (simple _) (fits _) (ends _ _) ended

theorem moreParameters_read {fuel : Nat} {seen names : List String} {tokens rest : List Token}
    (h : moreParameters fuel seen tokens = .ok (names, rest)) :
    (∃ read, tokens = read ++ rest ∧ NamesSpelled names read) ∧ names ≠ [] ∧
      names.Nodup ∧ ∀ name ∈ names, name ∉ seen := by
  induction fuel generalizing seen names tokens with
  | zero => exact absurd h fail_ne_ok
  | succ fuel ih =>
    simp only [moreParameters, bind_eq_ok, expect_eq_ok] at h
    obtain ⟨t, after, ⟨rfl, kind⟩, h⟩ := h
    split at h
    next => exact absurd h failAt_ne_ok
    next fresh =>
      rw [bind_eq_ok] at h
      obtain ⟨comma, middle, hc, h⟩ := h
      cases comma with
      | true =>
        simp only [if_true, bind_eq_ok, pure_eq_ok] at h
        obtain ⟨others, last, ho, rfl, rfl⟩ := h
        obtain ⟨separator, rfl, separates⟩ := accept_eq_ok.mp hc
        obtain ⟨⟨as, rfl, spelled⟩, nonempty, nodup, apart⟩ := ih ho
        obtain ⟨other, others, rfl⟩ := List.exists_cons_of_ne_nil nonempty
        refine ⟨⟨t :: separator :: as, rfl, .more kind separates spelled⟩, by simp, ?_, ?_⟩
        · exact List.nodup_cons.mpr ⟨fun again => apart _ again (by simp), nodup⟩
        · rintro name (_ | ⟨_, later⟩)
          · exact fresh
          · exact fun known => apart name later (List.mem_cons_of_mem _ known)
      | false =>
        simp only [Bool.false_eq_true, if_false, pure_eq_ok] at h
        obtain ⟨rfl, rfl⟩ := h
        obtain ⟨rfl, -⟩ := (accept_eq_ok_false (by simp)).mp hc
        exact ⟨⟨[t], rfl, .last kind⟩, by simp, by simp, by simpa using fresh⟩

theorem parameters_read {names : List String} (h : parameters fuel tokens = .ok (names, rest)) :
    (∃ read, tokens = read ++ rest ∧ NamesSpelled names read) ∧ names.Nodup := by
  simp only [parameters, peek_bind] at h
  split at h
  next =>
    obtain ⟨rfl, rfl⟩ := pure_eq_ok.mp h
    exact ⟨⟨[], rfl, .nil⟩, List.nodup_nil⟩
  next =>
    obtain ⟨spelled, -, nodup, -⟩ := moreParameters_read h
    exact ⟨spelled, nodup⟩

/-- What is read on some amount of fuel. -/
structure ReadsStmt (fuel : Nat) : Prop where
  statement : ∀ {tokens s rest}, statement fuel tokens = .ok (s, rest) → s.Read tokens rest
  ifStatement : ∀ {tokens s rest}, nextKind .endOfInput tokens = .keyword .if →
    ifStatement fuel tokens = .ok (s, rest) → s.Read tokens rest ∧ s.isIf
  block : ∀ {tokens body span rest}, block fuel tokens = .ok ((body, span), rest) →
    Stmt.ReadIn body span tokens rest
  statementsUntil : ∀ {closing tokens stmts rest},
    statementsUntil fuel closing tokens = .ok (stmts, rest) → Stmt.ReadUpTo stmts tokens rest ∧
      (nextKind .endOfInput rest = closing ∨ nextKind .endOfInput rest = .endOfInput)

namespace ReadsStmt

theorem statement_succ (below : ReadsStmt fuel)
    (h : Parser.statement (fuel + 1) tokens = .ok (s, rest)) : s.Read tokens rest := by
  simp only [Parser.statement, peek_bind] at h
  generalize hk : nextKind .endOfInput tokens = k at h
  split at h
  · exact varStatement_read hk h
  · exact defineStatement_read hk h
  · simp only [bind_eq_ok, next_eq_ok, expect_eq_ok, pure_eq_ok] at h
    obtain ⟨word, _, rfl, name, _, ⟨rfl, kind⟩, first, _, ⟨rfl, opens⟩, names, _, hn, last, after,
      ⟨rfl, closes⟩, ⟨body, span⟩, _, hb, rfl, rfl⟩ := h
    obtain ⟨⟨as, rfl, spelled⟩, nodup⟩ := parameters_read hn
    obtain ⟨⟨bs, rfl, block⟩, fits⟩ := below.block hb
    refine .compound (.function hk kind opens spelled closes block) (by simp) (fun _ => rfl) ?_
    simpa [Stmt.every, Stmt.fits, fits] using nodup
  · exact includeStatement_read hk h
  · exact (below.ifStatement hk h).1
  · simp only [bind_eq_ok, next_eq_ok, pure_eq_ok] at h
    obtain ⟨word, _, rfl, condition, _, hc, ⟨body, span⟩, _, hb, rfl, rfl⟩ := h
    obtain ⟨as, rfl, spelled, fits, -⟩ := expression_read hc
    obtain ⟨⟨bs, rfl, block⟩, fits'⟩ := below.block hb
    refine .compound (.while hk spelled block) (by simp) (fun _ => rfl) ?_
    simp [Stmt.every, Stmt.fits, fits, fits']
  · simp only [bind_eq_ok, next_eq_ok, pure_eq_ok] at h
    obtain ⟨word, _, rfl, ⟨body, span⟩, _, hb, rfl, rfl⟩ := h
    obtain ⟨⟨as, rfl, block⟩, fits⟩ := below.block hb
    refine .compound (.loop hk block) (by simp) (fun _ => rfl) ?_
    simpa [Stmt.every, Stmt.fits] using fits
  · simp only [bind_eq_ok, next_eq_ok, expect_eq_ok, pure_eq_ok] at h
    obtain ⟨word, _, rfl, name, _, ⟨rfl, kind⟩, other, _, ⟨rfl, separates⟩, iterable, _, hi,
      ⟨body, span⟩, _, hb, rfl, rfl⟩ := h
    obtain ⟨as, rfl, spelled, fits, -⟩ := expression_read hi
    obtain ⟨⟨bs, rfl, block⟩, fits'⟩ := below.block hb
    refine .compound (.for hk kind separates spelled block) (by simp) (fun _ => rfl) ?_
    simp [Stmt.every, Stmt.fits, fits, fits']
  · exact returnStatement_read hk h
  · refine wordStatement_read (fun _ => .break) (fun _ => rfl) (fun _ => rfl) ?_ hk h
    simp [Stmt.endsBefore]
  · refine wordStatement_read (fun _ => .continue) (fun _ => rfl) (fun _ => rfl) ?_ hk h
    simp [Stmt.endsBefore]
  · simp only [bind_eq_ok, pure_eq_ok] at h
    obtain ⟨⟨body, span⟩, _, hb, rfl, rfl⟩ := h
    obtain ⟨⟨as, rfl, block⟩, fits⟩ := below.block hb
    refine .compound (.block block) (by simp) (fun _ => rfl) ?_
    simpa [Stmt.every, Stmt.fits] using fits
  · exact expressionStatement_read h

theorem ifStatement_succ (below : ReadsStmt fuel)
    (hk : nextKind .endOfInput tokens = .keyword .if)
    (h : Parser.ifStatement (fuel + 1) tokens = .ok (s, rest)) :
    s.Read tokens rest ∧ s.isIf := by
  simp only [Parser.ifStatement, bind_eq_ok, next_eq_ok] at h
  obtain ⟨word, _, rfl, condition, _, hc, ⟨body, span⟩, _, hb, otherwise, after, he, h⟩ := h
  obtain ⟨as, rfl, spelled, fits, -⟩ := expression_read hc
  obtain ⟨⟨bs, rfl, block⟩, fits'⟩ := below.block hb
  cases otherwise with
  | true =>
    obtain ⟨other, rfl, kind⟩ := accept_eq_ok.mp he
    simp only [if_true, peek_bind] at h
    split at h
    next another =>
      simp only [bind_eq_ok, pure_eq_ok] at h
      obtain ⟨next, last, hn, rfl, rfl⟩ := h
      obtain ⟨⟨⟨cs, _, rfl, final, ends⟩, fits''⟩, isIf⟩ := below.ifStatement another hn
      obtain rfl := ends.eq_of_not_simple (Stmt.not_simple_of_isIf isIf)
      refine ⟨.compound (.elseIf hk spelled block kind isIf final) (by simp) (fun _ => rfl) ?_, rfl⟩
      simp [Stmt.every, Stmt.fits, Stmt.everyIn, fits, fits', fits'']
    next =>
      simp only [bind_eq_ok, pure_eq_ok] at h
      obtain ⟨⟨otherwise, finish⟩, last, ho, rfl, rfl⟩ := h
      obtain ⟨⟨cs, rfl, final⟩, fits''⟩ := below.block ho
      refine ⟨.compound (.ifElse hk spelled block kind final) (by simp) (fun _ => rfl) ?_, rfl⟩
      simp [Stmt.every, Stmt.fits, fits, fits', fits'']
  | false =>
    simp only [Bool.false_eq_true, if_false, pure_eq_ok] at h
    obtain ⟨rfl, rfl⟩ := h
    obtain ⟨rfl, -⟩ := (accept_eq_ok_false (by simp)).mp he
    refine ⟨.compound (.ifThen hk spelled block) (by simp) (fun _ => rfl) ?_, rfl⟩
    simp [Stmt.every, Stmt.fits, fits, fits']

theorem block_succ (below : ReadsStmt fuel) {body : List Stmt} {span : Span}
    (h : Parser.block (fuel + 1) tokens = .ok ((body, span), rest)) :
    Stmt.ReadIn body span tokens rest := by
  simp only [Parser.block, bind_eq_ok, expect_eq_ok, pure_eq_ok, Prod.mk.injEq] at h
  obtain ⟨first, _, ⟨rfl, opens⟩, body, _, hb, last, after, ⟨rfl, closes⟩, ⟨rfl, rfl⟩, rfl⟩ := h
  obtain ⟨⟨⟨as, rfl, inner⟩, fits⟩, -⟩ := below.statementsUntil hb
  rw [nextKind, closes] at inner
  exact ⟨⟨first :: (as ++ [last]), by simp, .braces opens inner closes⟩, fits⟩

theorem statementsUntil_succ (below : ReadsStmt fuel) {closing : TokenKind} {stmts : List Stmt}
    (h : Parser.statementsUntil (fuel + 1) closing tokens = .ok (stmts, rest)) :
    Stmt.ReadUpTo stmts tokens rest ∧
      (nextKind .endOfInput rest = closing ∨ nextKind .endOfInput rest = .endOfInput) := by
  simp only [Parser.statementsUntil, peek_bind] at h
  split at h
  next ended =>
    obtain ⟨rfl, rfl⟩ := pure_eq_ok.mp h
    exact ⟨⟨⟨[], rfl, .nil⟩, rfl⟩, ended⟩
  next =>
    simp only [bind_eq_ok, pure_eq_ok] at h
    obtain ⟨first, middle, hf, others, _, ho, rfl, rfl⟩ := h
    obtain ⟨⟨⟨cs, rfl, spelled'⟩, fits'⟩, ended⟩ := below.statementsUntil ho
    obtain ⟨⟨as, _, rfl, spelled, ends⟩, fits⟩ := below.statement hf
    obtain ⟨bs, rfl, ends'⟩ := ends.take
    refine ⟨⟨⟨as ++ bs, by simp, .cons spelled ends' spelled'⟩, ?_⟩, ended⟩
    simp [Stmt.everyIn, fits, fits']

end ReadsStmt

theorem readsStmt (fuel : Nat) : ReadsStmt fuel := by
  induction fuel with
  | zero => exact ⟨nofun, nofun, nofun, nofun⟩
  | succ fuel ih =>
    exact {
      statement := ih.statement_succ
      ifStatement := ih.ifStatement_succ
      block := ih.block_succ
      statementsUntil := ih.statementsUntil_succ }

end Parser

theorem eq_of_append_eq {as bs rest : List Token} {last : Token} (h : as ++ rest = bs ++ [last])
    (hk : last.kind = .endOfInput) (ha : ∀ t ∈ as, t.kind ≠ .endOfInput)
    (hb : ∀ t ∈ bs, t.kind ≠ .endOfInput) (hr : nextKind .endOfInput rest = .endOfInput) :
    as = bs := by
  induction as generalizing bs with
  | nil =>
    cases bs with
    | nil => rfl
    | cons b bs =>
      rw [List.nil_append] at h
      rw [h] at hr
      exact absurd hr (hb b (by simp))
  | cons a as ih =>
    cases bs with
    | nil =>
      obtain ⟨rfl, -⟩ := List.cons.inj h
      exact absurd hk (ha a (by simp))
    | cons b bs =>
      obtain ⟨rfl, others⟩ := List.cons.inj h
      rw [ih others (fun t ht => ha t (List.mem_cons_of_mem _ ht))
        (fun t ht => hb t (List.mem_cons_of_mem _ ht))]

variable {program : Program}

theorem parseTokens_spelled {read : List Token} {last : Token} (hk : last.kind = .endOfInput)
    (ends : ∀ t ∈ read, t.kind ≠ .endOfInput)
    (h : parseTokens (read ++ [last]) = .ok program) : program.Spelled read ∧ program.fits := by
  unfold parseTokens at h
  split at h
  next parsed =>
    cases h
    obtain ⟨⟨⟨front, split, spelled⟩, fits⟩, ended⟩ := (Parser.readsStmt _).statementsUntil parsed
    rw [or_self] at ended
    rw [ended] at spelled
    obtain rfl := eq_of_append_eq split.symm hk spelled.kind_ne ends ended
    exact ⟨spelled, fits⟩
  next => cases h

end Script
