import Script.Proofs.Grammar.Completeness
import Script.Proofs.Grammar.Printer

namespace Script

theorem BinaryOp.binaryOp?_kind (op : BinaryOp) : op.kind.binaryOp? = some op := by
  cases op <;> rfl

theorem UnaryOp.unaryOp?_kind (op : UnaryOp) : op.kind.unaryOp? = some op := by
  cases op <;> rfl

section Tokens

variable {t : Token} {k : TokenKind} {word : String}

theorem Token.kind_of_fixed (h : t.symbol = .fixed k) : t.kind = k := congrArg Symbol.kind h

theorem Token.of_name (h : t.symbol = .name word) : t.kind = .identifier ∧ t.lexeme = word :=
  ⟨congrArg Symbol.kind h, congrArg Symbol.lexeme h⟩

theorem Token.denotes_of_symbol {value : Literal} (printable : value.isPrintable)
    (h : t.symbol = value.symbol) : t.Denotes value := by
  have kind : t.kind = value.symbol.kind := congrArg Symbol.kind h
  have lexeme : t.lexeme = value.symbol.lexeme := congrArg Symbol.lexeme h
  cases value with
  | null => exact .null kind
  | bool value =>
    cases value with
    | «false» => exact .false kind
    | «true» => exact .true kind
  | int value =>
    refine .number kind ?_
    rw [lexeme]
    exact numberLiteral?_toString (of_decide_eq_true printable)
  | float => cases printable
  | string value =>
    obtain rfl : t.lexeme = value := lexeme
    exact .string kind

theorem exists_namesSpelled {words : List String} {tokens : List Token}
    (h : tokens.map Token.symbol = Symbol.names words) : NamesSpelled words tokens := by
  fun_induction Symbol.names words generalizing tokens with
  | case1 =>
    obtain rfl := List.map_eq_nil_iff.mp h
    exact .nil
  | case2 word =>
    obtain ⟨t, rfl, ht⟩ := List.map_eq_singleton_iff.mp h
    obtain ⟨kind, rfl⟩ := Token.of_name ht
    exact .last kind
  | case3 word other rest ih =>
    simp only [List.map_eq_cons_iff] at h
    obtain ⟨t, _, rfl, ht, comma, as, rfl, hc, h⟩ := h
    obtain ⟨kind, rfl⟩ := Token.of_name ht
    exact .more kind (Token.kind_of_fixed hc) (ih h)

end Tokens

mutual

theorem Expr.exists_spelled {e : Expr} {tokens : List Token} (printable : e.every isPrintable)
    (h : tokens.map Token.symbol = e.symbols) :
    ∃ e' : Expr, e'.bare = e.bare ∧ e'.Spelled tokens := by
  cases e with
  | literal _ value =>
    obtain ⟨t, rfl, ht⟩ := List.map_eq_singleton_iff.mp h
    exact ⟨.literal t.span value, rfl, .literal (Token.denotes_of_symbol printable ht)⟩
  | name _ word =>
    obtain ⟨t, rfl, ht⟩ := List.map_eq_singleton_iff.mp h
    obtain ⟨kind, rfl⟩ := Token.of_name ht
    exact ⟨.name t.span t.lexeme, rfl, .name kind⟩
  | binary _ op left right =>
    simp only [every, isPrintable, Bool.true_and, Bool.and_eq_true] at printable
    simp only [symbols, List.map_eq_append_iff, List.map_eq_cons_iff] at h
    obtain ⟨as, _, rfl, ha, t, bs, rfl, ht, hb⟩ := h
    obtain ⟨left', bl, spelled⟩ := left.exists_spelled printable.1 ha
    obtain ⟨right', br, spelled'⟩ := right.exists_spelled printable.2 hb
    have kind : t.kind.binaryOp? = some op := Token.kind_of_fixed ht ▸ op.binaryOp?_kind
    exact ⟨_, by simp only [bare, bl, br], .binary spelled kind spelled'⟩
  | unary _ op operand =>
    simp only [every, isPrintable, Bool.true_and] at printable
    simp only [symbols, List.map_eq_cons_iff] at h
    obtain ⟨t, as, rfl, ht, ha⟩ := h
    obtain ⟨operand', bo, spelled⟩ := operand.exists_spelled printable ha
    have kind : t.kind.unaryOp? = some op := Token.kind_of_fixed ht ▸ op.unaryOp?_kind
    exact ⟨_, by simp only [bare, bo], .unary kind spelled⟩
  | call _ function arguments =>
    simp only [every, isPrintable, Bool.and_eq_true] at printable
    simp only [symbols, List.map_eq_append_iff, List.map_eq_cons_iff, List.map_eq_nil_iff] at h
    obtain ⟨t, _, rfl, ht, first, _, rfl, hf, as, _, rfl, ha, last, _, rfl, hl, rfl⟩ := h
    obtain ⟨kind, rfl⟩ := Token.of_name ht
    obtain ⟨arguments', ba, spelled⟩ := Expr.exists_spelledIn printable.2 ha
    exact ⟨_, by simp only [bare, ba],
      .call kind (Token.kind_of_fixed hf) spelled (Token.kind_of_fixed hl)⟩
  | array _ elements =>
    simp only [every, isPrintable, Bool.true_and] at printable
    simp only [symbols, List.map_eq_append_iff, List.map_eq_cons_iff, List.map_eq_nil_iff] at h
    obtain ⟨first, _, rfl, hf, as, _, rfl, ha, last, _, rfl, hl, rfl⟩ := h
    obtain ⟨elements', be, spelled⟩ := Expr.exists_spelledIn printable ha
    exact ⟨_, by simp only [bare, be],
      .array (Token.kind_of_fixed hf) spelled (Token.kind_of_fixed hl)⟩
  | group _ inner =>
    simp only [every, isPrintable, Bool.true_and] at printable
    simp only [symbols, List.map_eq_append_iff, List.map_eq_cons_iff, List.map_eq_nil_iff] at h
    obtain ⟨first, _, rfl, hf, as, _, rfl, ha, last, _, rfl, hl, rfl⟩ := h
    obtain ⟨inner', bi, spelled⟩ := inner.exists_spelled printable ha
    exact ⟨_, by simp only [bare, bi],
      .group (Token.kind_of_fixed hf) spelled (Token.kind_of_fixed hl)⟩
  | index _ target position =>
    simp only [every, isPrintable, Bool.true_and, Bool.and_eq_true] at printable
    simp only [symbols, List.map_eq_append_iff, List.map_eq_cons_iff, List.map_eq_nil_iff] at h
    obtain ⟨as, _, rfl, ha, first, _, rfl, hf, bs, _, rfl, hb, last, _, rfl, hl, rfl⟩ := h
    obtain ⟨target', bt, spelled⟩ := target.exists_spelled printable.1 ha
    obtain ⟨position', bp, spelled'⟩ := position.exists_spelled printable.2 hb
    exact ⟨_, by simp only [bare, bt, bp],
      .index spelled (Token.kind_of_fixed hf) spelled' (Token.kind_of_fixed hl)⟩

theorem Expr.exists_spelledIn {es : List Expr} {tokens : List Token}
    (printable : everyIn isPrintable es) (h : tokens.map Token.symbol = symbolsIn es) :
    ∃ es', bareIn es' = bareIn es ∧ SpelledIn es' tokens := by
  match es with
  | [] =>
    obtain rfl := List.map_eq_nil_iff.mp h
    exact ⟨[], rfl, .nil⟩
  | [e] =>
    simp only [everyIn, Bool.and_true] at printable
    obtain ⟨e', be, spelled⟩ := e.exists_spelled printable h
    exact ⟨[e'], by simp only [bareIn, be], .last spelled⟩
  | e :: other :: rest =>
    rw [everyIn, Bool.and_eq_true] at printable
    simp only [symbolsIn, List.map_eq_append_iff, List.map_eq_cons_iff] at h
    obtain ⟨as, _, rfl, ha, comma, bs, rfl, hc, hb⟩ := h
    obtain ⟨e', be, spelled⟩ := e.exists_spelled printable.1 ha
    obtain ⟨others, bo, spelled'⟩ := Expr.exists_spelledIn printable.2 hb
    cases others with
    | nil => simp [bareIn] at bo
    | cons other' rest' =>
      exact ⟨e' :: other' :: rest', List.cons_eq_cons.mpr ⟨be, bo⟩,
        .more spelled (Token.kind_of_fixed hc) spelled'⟩

end

namespace Stmt

theorem isSimple_bare (s : Stmt) : s.bare.isSimple = s.isSimple := by
  cases s <;> rfl

theorem endsBefore_of_not_simple {s : Stmt} {k : TokenKind} (h : s.isSimple = false) :
    s.endsBefore k := by
  cases s <;> simp_all [isSimple, endsBefore]

theorem exists_spelledIn {body : List Stmt} {tokens : List Token}
    (inside : ∀ {as : List Token}, as.map Token.symbol = symbolsIn body →
      ∃ body', bareIn body' = bareIn body ∧ SpelledUpTo .rightBrace body' as)
    (h : tokens.map Token.symbol = Symbol.braces (symbolsIn body)) :
    ∃ body' span, bareIn body' = bareIn body ∧ SpelledIn body' span tokens := by
  simp only [Symbol.braces, List.map_eq_append_iff, List.map_eq_cons_iff, List.map_eq_nil_iff] at h
  obtain ⟨first, _, rfl, hf, as, _, rfl, ha, last, _, rfl, hl, rfl⟩ := h
  obtain ⟨body', bb, inner⟩ := inside ha
  exact ⟨body', _, bb, .braces (Token.kind_of_fixed hf) inner (Token.kind_of_fixed hl)⟩

mutual

theorem exists_spelled {s : Stmt} {tokens : List Token}
    (printable : s.every isPrintable Expr.isPrintable)
    (h : tokens.map Token.symbol = s.symbols) :
    ∃ s' : Stmt, s'.bare = s.bare ∧ s'.Spelled tokens := by
  cases s with
  | var _ name initial =>
    cases initial with
    | none =>
      simp only [symbols, List.map_eq_cons_iff, List.map_eq_nil_iff] at h
      obtain ⟨t, _, rfl, ht, word, _, rfl, hw, rfl⟩ := h
      obtain ⟨kind, rfl⟩ := Token.of_name hw
      exact ⟨_, by rfl, .declare (Token.kind_of_fixed ht) kind⟩
    | some value =>
      simp only [every, Option.toList, Expr.everyIn, Bool.and_true, Bool.and_eq_true] at printable
      simp only [symbols, List.map_eq_cons_iff] at h
      obtain ⟨t, _, rfl, ht, word, _, rfl, hw, equals, as, rfl, he, ha⟩ := h
      obtain ⟨kind, rfl⟩ := Token.of_name hw
      obtain ⟨value', bv, spelled⟩ := value.exists_spelled printable.2 ha
      exact ⟨_, by simp only [bare, Option.map_some, bv],
        .var (Token.kind_of_fixed ht) kind (Token.kind_of_fixed he) spelled⟩
  | define _ name value =>
    simp only [every, Bool.and_eq_true] at printable
    simp only [symbols, List.map_eq_cons_iff] at h
    obtain ⟨t, _, rfl, ht, word, _, rfl, hw, equals, as, rfl, he, ha⟩ := h
    obtain ⟨kind, rfl⟩ := Token.of_name hw
    obtain ⟨value', bv, spelled⟩ := value.exists_spelled printable.2 ha
    exact ⟨_, by simp only [bare, bv],
      .define (Token.kind_of_fixed ht) kind (Token.kind_of_fixed he) spelled⟩
  | assign _ target value =>
    simp only [every, isPrintable, Bool.true_and, Bool.and_eq_true] at printable
    simp only [symbols, List.map_eq_append_iff, List.map_eq_cons_iff] at h
    obtain ⟨as, _, rfl, ha, equals, bs, rfl, he, hb⟩ := h
    obtain ⟨target', bt, spelled⟩ := target.exists_spelled printable.1 ha
    obtain ⟨value', bv, spelled'⟩ := value.exists_spelled printable.2 hb
    exact ⟨_, by simp only [bare, bt, bv], .assign spelled (Token.kind_of_fixed he) spelled'⟩
  | function _ name parameters body =>
    simp only [every, Bool.and_eq_true] at printable
    simp only [symbols, List.map_eq_append_iff, List.map_eq_cons_iff] at h
    obtain ⟨t, _, rfl, ht, word, _, rfl, hw, first, _, rfl, hf, as, _, rfl, ha, last, bs, rfl, hl,
      hb⟩ := h
    obtain ⟨kind, rfl⟩ := Token.of_name hw
    obtain ⟨body', span, bb, block⟩ := exists_spelledIn (exists_spelledUpTo _ printable.2) hb
    exact ⟨_, by simp only [bare, bb], .function (Token.kind_of_fixed ht) kind
      (Token.kind_of_fixed hf) (exists_namesSpelled ha) (Token.kind_of_fixed hl) block⟩
  | «include» _ module =>
    simp only [symbols, List.map_eq_cons_iff, List.map_eq_nil_iff] at h
    obtain ⟨t, _, rfl, ht, text, _, rfl, hn, rfl⟩ := h
    obtain rfl : text.lexeme = module := congrArg Symbol.lexeme hn
    exact ⟨_, by rfl, .include (Token.kind_of_fixed ht) (.inl (congrArg Symbol.kind hn))⟩
  | expr _ value =>
    simp only [every, isPrintable, Bool.true_and] at printable
    obtain ⟨value', bv, spelled⟩ := value.exists_spelled printable h
    exact ⟨_, by simp only [bare, bv], .expr spelled⟩
  | block _ body =>
    simp only [every, isPrintable, Bool.true_and] at printable
    obtain ⟨body', span, bb, block⟩ := exists_spelledIn (exists_spelledUpTo _ printable) h
    exact ⟨_, by simp only [bare, bb], .block block⟩
  | ifThen _ condition body =>
    simp only [every, isPrintable, Bool.true_and, Bool.and_eq_true] at printable
    simp only [symbols, List.map_eq_append_iff, List.map_eq_cons_iff] at h
    obtain ⟨t, _, rfl, ht, as, bs, rfl, ha, hb⟩ := h
    obtain ⟨condition', bc, spelled⟩ := condition.exists_spelled printable.1 ha
    obtain ⟨body', span, bb, block⟩ := exists_spelledIn (exists_spelledUpTo _ printable.2) hb
    exact ⟨_, by simp only [bare, bc, bb], .ifThen (Token.kind_of_fixed ht) spelled block⟩
  | ifElse _ condition body otherwise =>
    simp only [every, isPrintable, Bool.true_and, Bool.and_eq_true] at printable
    simp only [symbols, List.map_eq_append_iff, List.map_eq_cons_iff] at h
    obtain ⟨t, _, rfl, ht, as, _, rfl, ha, bs, _, rfl, hb, other, cs, rfl, ho, hc⟩ := h
    obtain ⟨condition', bc, spelled⟩ := condition.exists_spelled printable.1.1 ha
    obtain ⟨body', span, bb, block⟩ := exists_spelledIn (exists_spelledUpTo _ printable.1.2) hb
    obtain ⟨otherwise', last, bo, final⟩ := exists_spelledIn (exists_spelledUpTo _ printable.2) hc
    exact ⟨_, by simp only [bare, bc, bb, bo], .ifElse (Token.kind_of_fixed ht) spelled block
      (Token.kind_of_fixed ho) final⟩
  | «while» _ condition body =>
    simp only [every, isPrintable, Bool.true_and, Bool.and_eq_true] at printable
    simp only [symbols, List.map_eq_append_iff, List.map_eq_cons_iff] at h
    obtain ⟨t, _, rfl, ht, as, bs, rfl, ha, hb⟩ := h
    obtain ⟨condition', bc, spelled⟩ := condition.exists_spelled printable.1 ha
    obtain ⟨body', span, bb, block⟩ := exists_spelledIn (exists_spelledUpTo _ printable.2) hb
    exact ⟨_, by simp only [bare, bc, bb], .while (Token.kind_of_fixed ht) spelled block⟩
  | loop _ body =>
    simp only [every, isPrintable, Bool.true_and] at printable
    simp only [symbols, List.map_eq_cons_iff] at h
    obtain ⟨t, as, rfl, ht, ha⟩ := h
    obtain ⟨body', span, bb, block⟩ := exists_spelledIn (exists_spelledUpTo _ printable) ha
    exact ⟨_, by simp only [bare, bb], .loop (Token.kind_of_fixed ht) block⟩
  | «for» _ binding iterable body =>
    simp only [every, Bool.and_eq_true] at printable
    simp only [symbols, List.map_eq_append_iff, List.map_eq_cons_iff] at h
    obtain ⟨t, _, rfl, ht, word, _, rfl, hw, other, _, rfl, ho, as, bs, rfl, ha, hb⟩ := h
    obtain ⟨kind, rfl⟩ := Token.of_name hw
    obtain ⟨iterable', bi, spelled⟩ := iterable.exists_spelled printable.1.2 ha
    obtain ⟨body', span, bb, block⟩ := exists_spelledIn (exists_spelledUpTo _ printable.2) hb
    exact ⟨_, by simp only [bare, bi, bb], .for (Token.kind_of_fixed ht) kind
      (Token.kind_of_fixed ho) spelled block⟩
  | «return» _ value =>
    cases value with
    | none =>
      simp only [symbols, List.map_eq_cons_iff, List.map_eq_nil_iff] at h
      obtain ⟨t, _, rfl, ht, rfl⟩ := h
      exact ⟨_, by rfl, .leave (Token.kind_of_fixed ht)⟩
    | some value =>
      simp only [every, isPrintable, Option.toList, Expr.everyIn, Bool.and_true, Bool.true_and]
        at printable
      simp only [symbols, List.map_eq_cons_iff] at h
      obtain ⟨t, as, rfl, ht, ha⟩ := h
      obtain ⟨value', bv, spelled⟩ := value.exists_spelled printable ha
      exact ⟨_, by simp only [bare, Option.map_some, bv],
        .return (Token.kind_of_fixed ht) spelled⟩
  | «break» =>
    obtain ⟨t, rfl, ht⟩ := List.map_eq_singleton_iff.mp h
    exact ⟨_, by rfl, .break (Token.kind_of_fixed ht)⟩
  | «continue» =>
    obtain ⟨t, rfl, ht⟩ := List.map_eq_singleton_iff.mp h
    exact ⟨_, by rfl, .continue (Token.kind_of_fixed ht)⟩

theorem exists_spelledUpTo (last : TokenKind) {stmts : List Stmt} {tokens : List Token}
    (printable : everyIn isPrintable Expr.isPrintable stmts)
    (h : tokens.map Token.symbol = symbolsIn stmts) :
    ∃ stmts', bareIn stmts' = bareIn stmts ∧ SpelledUpTo last stmts' tokens := by
  cases stmts with
  | nil =>
    obtain rfl := List.map_eq_nil_iff.mp h
    exact ⟨[], rfl, .nil⟩
  | cons s rest =>
    rw [everyIn, Bool.and_eq_true] at printable
    simp only [symbolsIn, List.map_eq_append_iff] at h
    obtain ⟨as, _, rfl, ha, semicolon, cs, rfl, hs, hc⟩ := h
    obtain ⟨s', bs, spelled⟩ := exists_spelled printable.1 ha
    obtain ⟨rest', br, others⟩ := exists_spelledUpTo last printable.2 hc
    have simple : s'.isSimple = s.isSimple := by rw [← isSimple_bare, bs, isSimple_bare]
    refine ⟨s' :: rest', List.cons_eq_cons.mpr ⟨bs, br⟩, .cons spelled ?_ others⟩
    cases known : s.isSimple with
    | «true» =>
      rw [if_pos known] at hs
      obtain ⟨t, rfl, ht⟩ := List.map_eq_singleton_iff.mp hs
      exact .semicolon (simple.trans known) (Token.kind_of_fixed ht)
    | «false» =>
      rw [if_neg (by simp [known])] at hs
      obtain rfl := List.map_eq_nil_iff.mp hs
      exact .without (endsBefore_of_not_simple (simple.trans known))

end

end Stmt

theorem Expr.level_bare (e : Expr) : e.bare.level = e.level := by
  cases e <;> rfl

theorem Expr.isAssignable_bare (e : Expr) : Parser.isAssignable e.bare = Parser.isAssignable e := by
  cases e <;> rfl

mutual

theorem Expr.fits_bare (e : Expr) : e.bare.every Expr.fits = e.every Expr.fits := by
  cases e with
  | literal | name => rfl
  | binary _ _ left right =>
    simp only [bare, every, Expr.fits, level_bare, left.fits_bare, right.fits_bare]
  | unary _ _ operand => simp only [bare, every, Expr.fits, level_bare, operand.fits_bare]
  | call _ _ arguments => simp only [bare, every, Expr.fits, Expr.fits_bareIn arguments]
  | array _ elements => simp only [bare, every, Expr.fits, Expr.fits_bareIn elements]
  | group _ inner => simp only [bare, every, Expr.fits, inner.fits_bare]
  | index _ target position =>
    simp only [bare, every, Expr.fits, level_bare, target.fits_bare, position.fits_bare]

theorem Expr.fits_bareIn (es : List Expr) :
    everyIn Expr.fits (bareIn es) = everyIn Expr.fits es := by
  cases es with
  | nil => rfl
  | cons e rest => simp only [bareIn, everyIn, e.fits_bare, Expr.fits_bareIn rest]

end

mutual

theorem Stmt.fits_bare (s : Stmt) :
    s.bare.every Stmt.fits Expr.fits = s.every Stmt.fits Expr.fits := by
  cases s with
  | var _ _ value | «return» _ value =>
    cases value <;> simp [bare, every, Stmt.fits, Expr.everyIn, Expr.fits_bare]
  | define | expr => simp only [bare, every, Stmt.fits, Expr.fits_bare]
  | assign => simp only [bare, every, Stmt.fits, Expr.fits_bare, Expr.isAssignable_bare]
  | «include» | «break» | «continue» => rfl
  | function _ _ _ body | block _ body | loop _ body =>
    simp only [bare, every, Stmt.fits, Stmt.fits_bareIn body]
  | ifThen _ _ body | «while» _ _ body | «for» _ _ _ body =>
    simp only [bare, every, Stmt.fits, Expr.fits_bare, Stmt.fits_bareIn body]
  | ifElse _ _ body otherwise =>
    simp only [bare, every, Stmt.fits, Expr.fits_bare, Stmt.fits_bareIn body,
      Stmt.fits_bareIn otherwise]

theorem Stmt.fits_bareIn (stmts : List Stmt) :
    everyIn Stmt.fits Expr.fits (bareIn stmts) = everyIn Stmt.fits Expr.fits stmts := by
  cases stmts with
  | nil => rfl
  | cons s rest => simp only [bareIn, everyIn, s.fits_bare, Stmt.fits_bareIn rest]

end

/-- A program that can be printed is what its text parses to, up to spans. -/
theorem parseProgram_text {program : Program} (printable : program.isPrintable)
    (fits : program.fits) :
    ∃ parsed, parseProgram program.text = .ok parsed ∧
      Stmt.bareIn parsed = Stmt.bareIn program := by
  have legible := Stmt.isLegible_symbolsIn printable
  obtain ⟨tokens, last, scanned, shows, kind⟩ := tokensFrom_line legible .first
  obtain ⟨parsed, bare, spelled⟩ := Stmt.exists_spelledUpTo .endOfInput printable shows
  have same : Program.fits parsed = program.fits := by
    rw [Program.fits, ← Stmt.fits_bareIn, bare, Stmt.fits_bareIn]
    rfl
  refine ⟨parsed, ?_, bare⟩
  have scanned : tokenize program.text = .ok (tokens ++ [last]) := scanned
  have read := parseTokens_of_spelled spelled (same.trans fits) kind
  simp only [parseProgram, scanned, read]

theorem parseProgram_text_nested :
    let here : Span := ⟨0, 0, 0⟩
    let operand := .group here (.binary here .add (.literal here (.int 1)) (.name here "y"))
    let program : Program := [.ifElse here (.unary here .not (.name here "a"))
      [.var here "x" none, .expr here (.call here "f" [.unary here .negate operand,
        .index here (.array here [.literal here (.string "\"q\\")]) (.literal here (.int 0))])]
      [.ifThen here (.name here "b") [.return here none], .include here "m"]]
    program.text = "if ! a \x7b var x ; f ( - ( 1 + y ) , [ \"\\\"q\\\\\" ] [ 0 ] ) ; \x7d else " ++
      "\x7b if b \x7b return ; \x7d include \"m\" ; \x7d" ∧
    ∃ parsed, parseProgram program.text = .ok parsed ∧
      Stmt.bareIn parsed = Stmt.bareIn program := by
  refine ⟨by decide +kernel, parseProgram_text (by decide +kernel) (by decide +kernel)⟩

end Script
