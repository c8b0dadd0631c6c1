import Script.Proofs.Grammar
import Script.Proofs.Lexing
import Script.Proofs.Numerals

namespace Script

namespace Symbol

def name (word : String) : Symbol := ⟨.identifier, word⟩

def fixed (k : TokenKind) : Symbol := ⟨k, k.fixed?.getD ""⟩

def braces (inner : List Symbol) : List Symbol :=
  fixed .leftBrace :: (inner ++ [fixed .rightBrace])

def names : List String → List Symbol
  | [] => []
  | [word] => [name word]
  | word :: other :: rest => name word :: fixed .comma :: names (other :: rest)

end Symbol

def Literal.symbol : Literal → Symbol
  | .null => .fixed (.keyword .null)
  | .bool value => .fixed (.keyword (if value then .true else .false))
  | .int value => ⟨.number, toString value.toInt⟩
  | .float value => ⟨.number, floatText .echoed value⟩
  | .string value => ⟨.string, value⟩

def BinaryOp.kind : BinaryOp → TokenKind
  | .or => .doublePipe
  | .and => .doubleAmpersand
  | .equal => .equalEqual
  | .notEqual => .bangEqual
  | .less => .less
  | .lessEqual => .lessEqual
  | .greater => .greater
  | .greaterEqual => .greaterEqual
  | .add => .plus
  | .sub => .minus
  | .mul => .star
  | .div => .slash
  | .mod => .percent

def UnaryOp.kind : UnaryOp → TokenKind
  | .negate => .minus
  | .not => .bang

mutual

def Expr.symbols : Expr → List Symbol
  | .literal _ value => [value.symbol]
  | .name _ word => [.name word]
  | .binary _ op left right => left.symbols ++ .fixed op.kind :: right.symbols
  | .unary _ op operand => .fixed op.kind :: operand.symbols
  | .call _ function arguments =>
    .name function :: .fixed .leftParen :: (Expr.symbolsIn arguments ++ [.fixed .rightParen])
  | .array _ elements => .fixed .leftBracket :: (Expr.symbolsIn elements ++ [.fixed .rightBracket])
  | .group _ inner => .fixed .leftParen :: (inner.symbols ++ [.fixed .rightParen])
  | .index _ target position =>
    target.symbols ++ .fixed .leftBracket :: (position.symbols ++ [.fixed .rightBracket])

def Expr.symbolsIn : List Expr → List Symbol
  | [] => []
  | [e] => e.symbols
  | e :: other :: rest => e.symbols ++ .fixed .comma :: Expr.symbolsIn (other :: rest)

end

mutual

/-- The symbols of a statement without the semicolon behind it. -/
def Stmt.symbols : Stmt → List Symbol
  | .var _ name none => [.fixed (.keyword .var), .name name]
  | .var _ name (some value) =>
    .fixed (.keyword .var) :: .name name :: .fixed .assign :: value.symbols
  | .define _ name value =>
    .fixed (.keyword .define) :: .name name :: .fixed .assign :: value.symbols
  | .assign _ target value => target.symbols ++ .fixed .assign :: value.symbols
  | .function _ name parameters body =>
    .fixed (.keyword .func) :: .name name :: .fixed .leftParen ::
      (Symbol.names parameters ++ .fixed .rightParen :: Symbol.braces (Stmt.symbolsIn body))
  | .include _ module => [.fixed (.keyword .include), ⟨.string, module⟩]
  | .expr _ value => value.symbols
  | .block _ body => Symbol.braces (Stmt.symbolsIn body)
  | .ifThen _ condition body =>
    .fixed (.keyword .if) :: (condition.symbols ++ Symbol.braces (Stmt.symbolsIn body))
  | .ifElse _ condition body otherwise =>
    .fixed (.keyword .if) :: (condition.symbols ++ (Symbol.braces (Stmt.symbolsIn body) ++
      .fixed (.keyword .else) :: Symbol.braces (Stmt.symbolsIn otherwise)))
  | .while _ condition body =>
    .fixed (.keyword .while) :: (condition.symbols ++ Symbol.braces (Stmt.symbolsIn body))
  | .loop _ body => .fixed (.keyword .loop) :: Symbol.braces (Stmt.symbolsIn body)
  | .for _ binding iterable body =>
    .fixed (.keyword .for) :: .name binding :: .fixed (.keyword .in) ::
      (iterable.symbols ++ Symbol.braces (Stmt.symbolsIn body))
  | .return _ none => [.fixed (.keyword .return)]
  | .return _ (some value) => .fixed (.keyword .return) :: value.symbols
  | .break _ => [.fixed (.keyword .break)]
  | .continue _ => [.fixed (.keyword .continue)]

/-- Every statement that a semicolon may belong to has one. -/
def Stmt.symbolsIn : List Stmt → List Symbol
  | [] => []
  | s :: rest =>
    s.symbols ++ ((if s.isSimple then [.fixed .semicolon] else []) ++ Stmt.symbolsIn rest)

end

/-- A program as text, with a space between any two tokens. -/
def Program.text (program : Program) : String := Symbol.line (Stmt.symbolsIn program)

mutual

def Expr.bare : Expr → Expr
  | .literal _ value => .literal ⟨0, 0, 0⟩ value
  | .name _ word => .name ⟨0, 0, 0⟩ word
  | .binary _ op left right => .binary ⟨0, 0, 0⟩ op left.bare right.bare
  | .unary _ op operand => .unary ⟨0, 0, 0⟩ op operand.bare
  | .call _ function arguments => .call ⟨0, 0, 0⟩ function (Expr.bareIn arguments)
  | .array _ elements => .array ⟨0, 0, 0⟩ (Expr.bareIn elements)
  | .group _ inner => .group ⟨0, 0, 0⟩ inner.bare
  | .index _ target position => .index ⟨0, 0, 0⟩ target.bare position.bare

def Expr.bareIn : List Expr → List Expr
  | [] => []
  | e :: rest => e.bare :: Expr.bareIn rest

end

mutual

/-- A statement with all its spans replaced by the same one. -/
def Stmt.bare : Stmt → Stmt
  | .var _ name initial => .var ⟨0, 0, 0⟩ name (initial.map Expr.bare)
  | .define _ name value => .define ⟨0, 0, 0⟩ name value.bare
  | .assign _ target value => .assign ⟨0, 0, 0⟩ target.bare value.bare
  | .function _ name parameters body =>
    .function ⟨0, 0, 0⟩ name parameters (Stmt.bareIn body)
  | .include _ module => .include ⟨0, 0, 0⟩ module
  | .expr _ value => .expr ⟨0, 0, 0⟩ value.bare
  | .block _ body => .block ⟨0, 0, 0⟩ (Stmt.bareIn body)
  | .ifThen _ condition body => .ifThen ⟨0, 0, 0⟩ condition.bare (Stmt.bareIn body)
  | .ifElse _ condition body otherwise =>
    .ifElse ⟨0, 0, 0⟩ condition.bare (Stmt.bareIn body) (Stmt.bareIn otherwise)
  | .while _ condition body => .while ⟨0, 0, 0⟩ condition.bare (Stmt.bareIn body)
  | .loop _ body => .loop ⟨0, 0, 0⟩ (Stmt.bareIn body)
  | .for _ binding iterable body => .for ⟨0, 0, 0⟩ binding iterable.bare (Stmt.bareIn body)
  | .return _ value => .return ⟨0, 0, 0⟩ (value.map Expr.bare)
  | .break _ => .break ⟨0, 0, 0⟩
  | .continue _ => .continue ⟨0, 0, 0⟩

def Stmt.bareIn : List Stmt → List Stmt
  | [] => []
  | s :: rest => s.bare :: Stmt.bareIn rest

end

def Literal.isPrintable : Literal → Bool
  | .int value => 0 ≤ value
  | .float _ => false
  | _ => true

def Expr.isPrintable : Expr → Bool
  | .literal _ value => value.isPrintable
  | .name _ word | .call _ word _ => isName word
  | _ => true

def Stmt.isPrintable : Stmt → Bool
  | .var _ word _ | .define _ word _ | .for _ word _ _ => isName word
  | .function _ word parameters _ => isName word && parameters.all isName
  | _ => true

def Program.isPrintable (program : Program) : Bool :=
  Stmt.everyIn Stmt.isPrintable Expr.isPrintable program

namespace Symbol

theorem isLegible_name {word : String} (h : isName word) : (name word).isLegible := h

theorem isLegible_fixed {k : TokenKind} (h : k.fixed?.isSome) : (fixed k).isLegible := by
  cases k with
  | keyword => simp [isLegible, fixed, TokenKind.fixed?]
  | _ => first | rfl | cases h

theorem isLegible_names {words : List String} (h : words.all isName) :
    ∀ s ∈ names words, s.isLegible := by
  fun_induction names words with
  | case1 => simp
  | case2 word => exact fun s hs => List.mem_singleton.mp hs ▸ isLegible_name (by simpa using h)
  | case3 word other rest ih =>
    rw [List.all_cons, Bool.and_eq_true] at h
    have comma : (fixed .comma).isLegible := rfl
    simpa [isLegible_name h.1, comma] using ih h.2

theorem isLegible_braces {inner : List Symbol} (h : ∀ s ∈ inner, s.isLegible) :
    ∀ s ∈ braces inner, s.isLegible := by
  have left : (fixed .leftBrace).isLegible := rfl
  have right : (fixed .rightBrace).isLegible := rfl
  simpa [braces, or_imp, forall_and, left, right] using h

end Symbol

theorem Literal.isLegible_symbol {value : Literal} (h : value.isPrintable) :
    value.symbol.isLegible := by
  cases value with
  | null => rfl
  | bool value => cases value <;> rfl
  | int value =>
    obtain ⟨n, -, text⟩ := toList_toString (of_decide_eq_true h)
    have nonempty : toString value.toInt ≠ "" := by
      intro empty
      rw [empty] at text
      exact Nat.toDigits_ne_nil text.symm
    have digits : (toString value.toInt).toList.all Char.isDigit := by
      rw [text, List.all_eq_true]
      exact fun c hc => Nat.isDigit_of_mem_toDigits (by decide) (by decide) hc
    exact Bool.and_eq_true_iff.mpr ⟨decide_eq_true nonempty, digits⟩
  | float => cases h
  | string => rfl

mutual

theorem Expr.isLegible_symbols {e : Expr} (h : e.every Expr.isPrintable) :
    ∀ s ∈ e.symbols, s.isLegible := by
  have mark {k : TokenKind} (hk : k.fixed?.isSome) : (Symbol.fixed k).isLegible :=
    Symbol.isLegible_fixed hk
  cases e with
  | literal _ value =>
    simp only [Expr.every, Expr.isPrintable] at h
    simp [Expr.symbols, Literal.isLegible_symbol h]
  | name _ word =>
    simp only [Expr.every, Expr.isPrintable] at h
    simp [Expr.symbols, Symbol.isLegible_name h]
  | binary _ op left right =>
    simp only [Expr.every, Expr.isPrintable, Bool.true_and, Bool.and_eq_true] at h
    have operator : (Symbol.fixed op.kind).isLegible := mark (by cases op <;> rfl)
    simpa [Expr.symbols, or_imp, forall_and, operator] using
      ⟨Expr.isLegible_symbols h.1, Expr.isLegible_symbols h.2⟩
  | unary _ op operand =>
    simp only [Expr.every, Expr.isPrintable, Bool.true_and] at h
    have operator : (Symbol.fixed op.kind).isLegible := mark (by cases op <;> rfl)
    simpa [Expr.symbols, operator] using Expr.isLegible_symbols h
  | call _ function arguments =>
    simp only [Expr.every, Expr.isPrintable, Bool.and_eq_true] at h
    simpa [Expr.symbols, or_imp, forall_and, Symbol.isLegible_name h.1,
      mark (k := .leftParen) rfl, mark (k := .rightParen) rfl] using Expr.isLegible_symbolsIn h.2
  | array _ elements =>
    simp only [Expr.every, Expr.isPrintable, Bool.true_and] at h
    simpa [Expr.symbols, or_imp, forall_and, mark (k := .leftBracket) rfl,
      mark (k := .rightBracket) rfl] using Expr.isLegible_symbolsIn h
  | group _ inner =>
    simp only [Expr.every, Expr.isPrintable, Bool.true_and] at h
    simpa [Expr.symbols, or_imp, forall_and, mark (k := .leftParen) rfl,
      mark (k := .rightParen) rfl] using Expr.isLegible_symbols h
  | index _ target position =>
    simp only [Expr.every, Expr.isPrintable, Bool.true_and, Bool.and_eq_true] at h
    simpa [Expr.symbols, or_imp, forall_and, mark (k := .leftBracket) rfl,
      mark (k := .rightBracket) rfl] using
      ⟨Expr.isLegible_symbols h.1, Expr.isLegible_symbols h.2⟩

theorem Expr.isLegible_symbolsIn {es : List Expr} (h : Expr.everyIn Expr.isPrintable es) :
    ∀ s ∈ Expr.symbolsIn es, s.isLegible := by
  have comma : (Symbol.fixed .comma).isLegible := rfl
  match es with
  | [] => simp [Expr.symbolsIn]
  | [e] =>
    simp only [Expr.everyIn, Bool.and_true] at h
    exact Expr.isLegible_symbols h
  | e :: other :: rest =>
    rw [Expr.everyIn, Bool.and_eq_true] at h
    simpa [Expr.symbolsIn, or_imp, forall_and, comma] using
      ⟨Expr.isLegible_symbols h.1, Expr.isLegible_symbolsIn h.2⟩

end

mutual

theorem Stmt.isLegible_symbols {s : Stmt} (h : s.every Stmt.isPrintable Expr.isPrintable) :
    ∀ symbol ∈ s.symbols, symbol.isLegible := by
  have word (k : Keyword) : (Symbol.fixed (.keyword k)).isLegible := Symbol.isLegible_fixed rfl
  have equals : (Symbol.fixed .assign).isLegible := rfl
  cases s with
  | var _ name initial =>
    rw [Stmt.every, Bool.and_eq_true] at h
    cases initial with
    | none => simp [Stmt.symbols, word, Symbol.isLegible_name h.1]
    | some value =>
      simp only [Option.toList, Expr.everyIn, Bool.and_true] at h
      simpa [Stmt.symbols, word, equals, Symbol.isLegible_name h.1] using
        Expr.isLegible_symbols h.2
  | define _ name value =>
    rw [Stmt.every, Bool.and_eq_true] at h
    simpa [Stmt.symbols, word, equals, Symbol.isLegible_name h.1] using
      Expr.isLegible_symbols h.2
  | assign _ target value =>
    simp only [Stmt.every, Stmt.isPrintable, Bool.true_and, Bool.and_eq_true] at h
    simpa [Stmt.symbols, or_imp, forall_and, equals] using
      ⟨Expr.isLegible_symbols h.1, Expr.isLegible_symbols h.2⟩
  | function _ name parameters body =>
    simp only [Stmt.every, Stmt.isPrintable, Bool.and_eq_true] at h
    have left : (Symbol.fixed .leftParen).isLegible := rfl
    have right : (Symbol.fixed .rightParen).isLegible := rfl
    simpa [Stmt.symbols, or_imp, forall_and, word, Symbol.isLegible_name h.1.1, left, right] using
      ⟨Symbol.isLegible_names h.1.2, Symbol.isLegible_braces (Stmt.isLegible_symbolsIn h.2)⟩
  | «include» _ module =>
    have text : (Symbol.mk .string module).isLegible := rfl
    simp [Stmt.symbols, word, text]
  | expr _ value =>
    simp only [Stmt.every, Stmt.isPrintable, Bool.true_and] at h
    exact Expr.isLegible_symbols h
  | block _ body =>
    simp only [Stmt.every, Stmt.isPrintable, Bool.true_and] at h
    exact Symbol.isLegible_braces (Stmt.isLegible_symbolsIn h)
  | ifThen _ condition body | «while» _ condition body =>
    simp only [Stmt.every, Stmt.isPrintable, Bool.true_and, Bool.and_eq_true] at h
    simpa [Stmt.symbols, or_imp, forall_and, word] using
      ⟨Expr.isLegible_symbols h.1, Symbol.isLegible_braces (Stmt.isLegible_symbolsIn h.2)⟩
  | ifElse _ condition body otherwise =>
    simp only [Stmt.every, Stmt.isPrintable, Bool.true_and, Bool.and_eq_true] at h
    simpa [Stmt.symbols, or_imp, forall_and, word] using
      ⟨Expr.isLegible_symbols h.1.1, Symbol.isLegible_braces (Stmt.isLegible_symbolsIn h.1.2),
        Symbol.isLegible_braces (Stmt.isLegible_symbolsIn h.2)⟩
  | loop _ body =>
    simp only [Stmt.every, Stmt.isPrintable, Bool.true_and] at h
    simpa [Stmt.symbols, word] using Symbol.isLegible_braces (Stmt.isLegible_symbolsIn h)
  | «for» _ binding iterable body =>
    simp only [Stmt.every, Stmt.isPrintable, Bool.and_eq_true] at h
    simpa [Stmt.symbols, or_imp, forall_and, word, Symbol.isLegible_name h.1.1] using
      ⟨Expr.isLegible_symbols h.1.2, Symbol.isLegible_braces (Stmt.isLegible_symbolsIn h.2)⟩
  | «return» _ value =>
    cases value with
    | none => simp [Stmt.symbols, word]
    | some value =>
      simp only [Stmt.every, Stmt.isPrintable, Option.toList, Expr.everyIn, Bool.and_true,
        Bool.true_and] at h
      simpa [Stmt.symbols, word] using Expr.isLegible_symbols h
  | «break» | «continue» => simp [Stmt.symbols, word]

theorem Stmt.isLegible_symbolsIn {stmts : List Stmt}
    (h : Stmt.everyIn Stmt.isPrintable Expr.isPrintable stmts) :
    ∀ symbol ∈ Stmt.symbolsIn stmts, symbol.isLegible := by
  cases stmts with
  | nil => simp [Stmt.symbolsIn]
  | cons s rest =>
    rw [Stmt.everyIn, Bool.and_eq_true] at h
    have semicolon : (Symbol.fixed .semicolon).isLegible := rfl
    have first := Stmt.isLegible_symbols h.1
    have others := Stmt.isLegible_symbolsIn h.2
    cases hs : s.isSimple <;>
      simpa [Stmt.symbolsIn, hs, or_imp, forall_and, semicolon] using ⟨first, others⟩

end

end Script
