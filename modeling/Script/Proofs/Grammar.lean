import Script.Program.Parser
import Script.Proofs.Everywhere

namespace Script

/-- How tightly the outermost operator of an expression binds, if it has one outside brackets. -/
def Expr.level : Expr → Nat
  | .binary _ op _ _ => op.level
  | .unary .. => unaryLevel
  | _ => unaryLevel + 1

/-- Whether the operands of an expression bind tightly enough to stand where they do without
brackets. Operators of one level associate to the left. -/
def Expr.fits : Expr → Bool
  | .binary _ op left right => op.level ≤ left.level && op.level < right.level
  | .unary _ _ operand => unaryLevel ≤ operand.level
  | .index _ target _ => unaryLevel < target.level
  | _ => true

/-- What a statement has to keep to that its parts do not: something can be assigned to, a module
is named, and no two parameters have the same name. -/
def Stmt.fits : Stmt → Bool
  | .assign _ target _ => Parser.isAssignable target
  | .include _ module => module ≠ ""
  | .function _ _ parameters _ => decide parameters.Nodup
  | _ => true

def Program.fits (program : Program) : Bool := Stmt.everyIn Stmt.fits Expr.fits program

/-- The literals that a token stands for. -/
inductive Token.Denotes (t : Token) : Literal → Prop where
  | null (kind : t.kind = .keyword .null) : Denotes t .null
  | true (kind : t.kind = .keyword .true) : Denotes t (.bool true)
  | false (kind : t.kind = .keyword .false) : Denotes t (.bool false)
  | number {value : Literal} (kind : t.kind = .number)
    (read : numberLiteral? t.lexeme = some value) : Denotes t value
  | string (kind : t.kind = .string) : Denotes t (.string t.lexeme)

mutual

inductive Expr.Spelled : Expr → List Token → Prop where
  | literal {t : Token} {value : Literal} (denotes : t.Denotes value) :
    Spelled (.literal t.span value) [t]
  | name {t : Token} (kind : t.kind = .identifier) : Spelled (.name t.span t.lexeme) [t]
  | binary {left right : Expr} {op : BinaryOp} {t : Token} {as bs : List Token}
    (first : left.Spelled as) (kind : t.kind.binaryOp? = some op) (second : right.Spelled bs) :
    Spelled (.binary (left.span.to right.span) op left right) (as ++ t :: bs)
  | unary {op : UnaryOp} {operand : Expr} {t : Token} {as : List Token}
    (kind : t.kind.unaryOp? = some op) (inner : operand.Spelled as) :
    Spelled (.unary (t.span.to operand.span) op operand) (t :: as)
  | call {arguments : List Expr} {t first last : Token} {as : List Token}
    (kind : t.kind = .identifier) (opens : first.kind = .leftParen)
    (inner : Expr.SpelledIn arguments as) (closes : last.kind = .rightParen) :
    Spelled (.call (t.span.to last.span) t.lexeme arguments) (t :: first :: (as ++ [last]))
  | array {elements : List Expr} {first last : Token} {as : List Token}
    (opens : first.kind = .leftBracket) (inner : Expr.SpelledIn elements as)
    (closes : last.kind = .rightBracket) :
    Spelled (.array (first.span.to last.span) elements) (first :: (as ++ [last]))
  | group {inner : Expr} {first last : Token} {as : List Token} (opens : first.kind = .leftParen)
    (spelled : inner.Spelled as) (closes : last.kind = .rightParen) :
    Spelled (.group (first.span.to last.span) inner) (first :: (as ++ [last]))
  | index {target index : Expr} {first last : Token} {as bs : List Token}
    (owner : target.Spelled as) (opens : first.kind = .leftBracket) (position : index.Spelled bs)
    (closes : last.kind = .rightBracket) :
    Spelled (.index (target.span.to last.span) target index) (as ++ first :: (bs ++ [last]))

/-- Expressions with commas in between. -/
inductive Expr.SpelledIn : List Expr → List Token → Prop where
  | nil : SpelledIn [] []
  | last {e : Expr} {as : List Token} (only : e.Spelled as) : SpelledIn [e] as
  | more {e other : Expr} {rest : List Expr} {comma : Token} {as bs : List Token}
    (first : e.Spelled as) (kind : comma.kind = .comma)
    (others : Expr.SpelledIn (other :: rest) bs) :
    SpelledIn (e :: other :: rest) (as ++ comma :: bs)

end

/-- Names with commas in between. -/
inductive NamesSpelled : List String → List Token → Prop where
  | nil : NamesSpelled [] []
  | last {t : Token} (kind : t.kind = .identifier) : NamesSpelled [t.lexeme] [t]
  | more {t comma : Token} {name : String} {names : List String} {as : List Token}
    (kind : t.kind = .identifier) (separates : comma.kind = .comma)
    (others : NamesSpelled (name :: names) as) :
    NamesSpelled (t.lexeme :: name :: names) (t :: comma :: as)

/-- The kind of the token that comes next, if only a token of the given kind is to follow. -/
def nextKind (last : TokenKind) : List Token → TokenKind
  | [] => last
  | t :: _ => t.kind

theorem nextKind_cons {last : TokenKind} {t : Token} {as : List Token} :
    nextKind last (t :: as) = t.kind := rfl

theorem nextKind_append {last : TokenKind} {as bs : List Token} :
    nextKind last (as ++ bs) = nextKind (nextKind last bs) as := by
  cases as <;> rfl

/-- Whether an expression of a level ends before a token of this kind, which neither calls it or
indexes it nor is an operator that binds as tightly. -/
def TokenKind.stops (level : Nat) (k : TokenKind) : Bool :=
  k ≠ .leftParen && k ≠ .leftBracket && k.binaryOp?.all (·.level < level)

theorem nextKind_stops {level : Nat} {last k : TokenKind} {t : Token} {as : List Token}
    (kind : t.kind = k) (stops : k.stops level) : (nextKind last (t :: as)).stops level := by
  rwa [nextKind_cons, kind]

namespace TokenKind

variable {level other : Nat} {k : TokenKind} {op : BinaryOp}

theorem level_of_stops (h : k.stops level) (hk : k.binaryOp? = some op) : op.level < level := by
  simp only [stops, hk, Bool.and_eq_true, Option.all_some, decide_eq_true_eq] at h
  exact h.2

theorem stops_mono (h : k.stops level) (hl : level ≤ other) : k.stops other := by
  cases hk : k.binaryOp? with
  | none => simpa [stops, hk] using h
  | some op =>
    have below := level_of_stops h hk
    simp only [stops, hk, Bool.and_eq_true, Option.all_some, decide_eq_true_eq] at h ⊢
    exact ⟨h.1, by omega⟩

theorem stops_of_binaryOp? (hk : k.binaryOp? = some op) (hl : op.level < level) :
    k.stops level := by
  simp only [stops, hk, Bool.and_eq_true, Option.all_some, decide_eq_true_eq]
  refine ⟨⟨?_, ?_⟩, hl⟩ <;>
    · rintro rfl
      cases hk

theorem stops_of_none (h : k.stops (level + 1)) (hk : k.binaryOp? = none) : k.stops level := by
  simpa [stops, hk] using h

theorem stops_of_ne (h : k.stops (level + 1)) (hk : k.binaryOp? = some op) (hl : op.level ≠ level) :
    k.stops level := by
  have below := level_of_stops h hk
  simp only [stops, hk, Bool.and_eq_true, Option.all_some, decide_eq_true_eq] at h ⊢
  exact ⟨h.1, by omega⟩

theorem stops_unaryLevel (h : k ≠ .leftParen) (h' : k ≠ .leftBracket) : k.stops unaryLevel := by
  cases hk : k.binaryOp? with
  | none => simp [stops, h, h', hk]
  | some op => cases op <;> simp [stops, h, h', hk, BinaryOp.level, unaryLevel]

end TokenKind

namespace Stmt

/-- Whether a semicolon may belong to a statement. -/
def isSimple : Stmt → Bool
  | var .. | define .. | assign .. | .include .. | expr .. | .return .. | .break _ | .continue _ =>
    true
  | _ => false

def isIf : Stmt → Bool
  | ifThen .. | ifElse .. => true
  | _ => false

theorem not_simple_of_isIf {s : Stmt} (h : s.isIf) : s.isSimple = false := by
  cases s <;> simp_all [isIf, isSimple]

/-- Whether a statement without a semicolon ends before a token of this kind. -/
def endsBefore (k : TokenKind) : Stmt → Bool
  | var _ _ none => k ≠ .semicolon && k ≠ .assign
  | expr .. => k ≠ .semicolon && k ≠ .assign && k.stops 0
  | var _ _ (some _) | define .. | assign .. | .return _ (some _) => k ≠ .semicolon && k.stops 0
  | .include .. | .break _ | .continue _ => k ≠ .semicolon
  | .return _ none => k = .rightBrace || k = .endOfInput
  | _ => true

/-- Whether a statement ends where these tokens begin, and the next one where those do, as a
semicolon of the statement stands in between or none is needed. -/
inductive EndsAt (last : TokenKind) (s : Stmt) : List Token → List Token → Prop where
  | semicolon {t : Token} {rest : List Token} (simple : s.isSimple) (kind : t.kind = .semicolon) :
    EndsAt last s (t :: rest) rest
  | without {rest : List Token} (ends : s.endsBefore (nextKind last rest)) : EndsAt last s rest rest

theorem EndsAt.eq_of_not_simple {s : Stmt} {last : TokenKind} {bs cs : List Token}
    (h : s.EndsAt last bs cs)
    (hs : s.isSimple = false) : bs = cs := by
  cases h with
  | semicolon simple => simp [hs] at simple
  | without => rfl

end Stmt

mutual

/-- A statement is spelled without the semicolon that may follow it. -/
inductive Stmt.Spelled : Stmt → List Token → Prop where
  | declare {word name : Token} (starts : word.kind = .keyword .var)
    (kind : name.kind = .identifier) :
    Spelled (.var (word.span.to name.span) name.lexeme none) [word, name]
  | var {value : Expr} {word name equals : Token} {as : List Token}
    (starts : word.kind = .keyword .var) (kind : name.kind = .identifier)
    (assign : equals.kind = .assign) (initial : value.Spelled as) :
    Spelled (.var (word.span.to value.span) name.lexeme (some value)) (word :: name :: equals :: as)
  | define {value : Expr} {word name equals : Token} {as : List Token}
    (starts : word.kind = .keyword .define) (kind : name.kind = .identifier)
    (assign : equals.kind = .assign) (initial : value.Spelled as) :
    Spelled (.define (word.span.to value.span) name.lexeme value) (word :: name :: equals :: as)
  | assign {target value : Expr} {equals : Token} {as bs : List Token} (place : target.Spelled as)
    (kind : equals.kind = .assign) (new : value.Spelled bs) :
    Spelled (.assign (target.span.to value.span) target value) (as ++ equals :: bs)
  | function {parameters : List String} {body : List Stmt} {span : Span}
    {word name first last : Token} {as bs : List Token} (starts : word.kind = .keyword .func)
    (kind : name.kind = .identifier) (opens : first.kind = .leftParen)
    (names : NamesSpelled parameters as) (closes : last.kind = .rightParen)
    (block : Stmt.SpelledIn body span bs) :
    Spelled (.function (word.span.to span) name.lexeme parameters body)
      (word :: name :: first :: (as ++ last :: bs))
  | include {word name : Token} (starts : word.kind = .keyword .include)
    (kind : name.kind = .string ∨ name.kind = .identifier) :
    Spelled (.include (word.span.to name.span) name.lexeme) [word, name]
  | expr {value : Expr} {as : List Token} (spelled : value.Spelled as) :
    Spelled (.expr value.span value) as
  | block {body : List Stmt} {span : Span} {as : List Token} (block : Stmt.SpelledIn body span as) :
    Spelled (.block span body) as
  | ifThen {condition : Expr} {body : List Stmt} {span : Span} {word : Token} {as bs : List Token}
    (starts : word.kind = .keyword .if) (test : condition.Spelled as)
    (block : Stmt.SpelledIn body span bs) :
    Spelled (.ifThen (word.span.to span) condition body) (word :: (as ++ bs))
  | ifElse {condition : Expr} {body otherwise : List Stmt} {span last : Span} {word other : Token}
    {as bs cs : List Token} (starts : word.kind = .keyword .if) (test : condition.Spelled as)
    (block : Stmt.SpelledIn body span bs) (kind : other.kind = .keyword .else)
    (final : Stmt.SpelledIn otherwise last cs) :
    Spelled (.ifElse (word.span.to last) condition body otherwise)
      (word :: (as ++ (bs ++ other :: cs)))
  | elseIf {condition : Expr} {body : List Stmt} {span : Span} {next : Stmt} {word other : Token}
    {as bs cs : List Token} (starts : word.kind = .keyword .if) (test : condition.Spelled as)
    (block : Stmt.SpelledIn body span bs) (kind : other.kind = .keyword .else) (isIf : next.isIf)
    (final : next.Spelled cs) :
    Spelled (.ifElse (word.span.to next.span) condition body [next])
      (word :: (as ++ (bs ++ other :: cs)))
  | while {condition : Expr} {body : List Stmt} {span : Span} {word : Token} {as bs : List Token}
    (starts : word.kind = .keyword .while) (test : condition.Spelled as)
    (block : Stmt.SpelledIn body span bs) :
    Spelled (.while (word.span.to span) condition body) (word :: (as ++ bs))
  | loop {body : List Stmt} {span : Span} {word : Token} {as : List Token}
    (starts : word.kind = .keyword .loop) (block : Stmt.SpelledIn body span as) :
    Spelled (.loop (word.span.to span) body) (word :: as)
  | for {iterable : Expr} {body : List Stmt} {span : Span} {word name other : Token}
    {as bs : List Token} (starts : word.kind = .keyword .for) (kind : name.kind = .identifier)
    (separates : other.kind = .keyword .in) (elements : iterable.Spelled as)
    (block : Stmt.SpelledIn body span bs) :
    Spelled (.for (word.span.to span) name.lexeme iterable body)
      (word :: name :: other :: (as ++ bs))
  | leave {word : Token} (starts : word.kind = .keyword .return) :
    Spelled (.return (word.span.to word.span) none) [word]
  | return {value : Expr} {word : Token} {as : List Token} (starts : word.kind = .keyword .return)
    (result : value.Spelled as) :
    Spelled (.return (word.span.to value.span) (some value)) (word :: as)
  | break {word : Token} (starts : word.kind = .keyword .break) : Spelled (.break word.span) [word]
  | continue {word : Token} (starts : word.kind = .keyword .continue) :
    Spelled (.continue word.span) [word]

/-- The statements of a block, with the span from brace to brace. -/
inductive Stmt.SpelledIn : List Stmt → Span → List Token → Prop where
  | braces {body : List Stmt} {first last : Token} {as : List Token}
    (opens : first.kind = .leftBrace) (inner : Stmt.SpelledUpTo .rightBrace body as)
    (closes : last.kind = .rightBrace) :
    SpelledIn body (first.span.to last.span) (first :: (as ++ [last]))

/-- Statements one after the other, in front of a token of the given kind. -/
inductive Stmt.SpelledUpTo : TokenKind → List Stmt → List Token → Prop where
  | nil {last : TokenKind} : SpelledUpTo last [] []
  | cons {last : TokenKind} {s : Stmt} {rest : List Stmt} {as bs cs : List Token}
    (first : s.Spelled as) (ends : s.EndsAt last bs cs) (others : Stmt.SpelledUpTo last rest cs) :
    SpelledUpTo last (s :: rest) (as ++ bs)

end

/-- Whether these tokens spell a program, in front of the end of the input. -/
def Program.Spelled (program : Program) (tokens : List Token) : Prop :=
  Stmt.SpelledUpTo .endOfInput program tokens

/-- Whether a token of this kind may stand inside of a statement that has no block, in front of its
end. -/
def TokenKind.isInner : TokenKind → Bool
  | .semicolon | .leftBrace | .rightBrace | .endOfInput => false
  | _ => true

theorem TokenKind.isInner_of_binaryOp? {k : TokenKind} {op : BinaryOp}
    (h : k.binaryOp? = some op) : k.isInner := by
  cases k with
  | semicolon | leftBrace | rightBrace | endOfInput => cases h
  | _ => rfl

theorem TokenKind.isInner_of_unaryOp? {k : TokenKind} {op : UnaryOp}
    (h : k.unaryOp? = some op) : k.isInner := by
  cases k with
  | semicolon | leftBrace | rightBrace | endOfInput => cases h
  | _ => rfl

theorem Token.Denotes.inner {t : Token} {value : Literal} (h : t.Denotes value) :
    t.kind.isInner := by
  cases h with
  | null kind | «true» kind | «false» kind | string kind => rw [kind]; rfl
  | number kind => rw [kind]; rfl

mutual

theorem Expr.Spelled.inner {e : Expr} {as : List Token} (h : e.Spelled as) :
    ∀ t ∈ as, t.kind.isInner := by
  cases h with
  | literal denotes => simpa using denotes.inner
  | name kind => simp [kind, TokenKind.isInner]
  | binary first kind second =>
    simpa [or_imp, forall_and] using
      ⟨first.inner, TokenKind.isInner_of_binaryOp? kind, second.inner⟩
  | unary kind operand =>
    simpa [or_imp, forall_and] using ⟨TokenKind.isInner_of_unaryOp? kind, operand.inner⟩
  | call kind opens arguments closes =>
    simpa [or_imp, forall_and, kind, opens, closes, TokenKind.isInner] using arguments.inner
  | array opens elements closes =>
    simpa [or_imp, forall_and, opens, closes, TokenKind.isInner] using elements.inner
  | group opens spelled closes =>
    simpa [or_imp, forall_and, opens, closes, TokenKind.isInner] using spelled.inner
  | index owner opens position closes =>
    simpa [or_imp, forall_and, opens, closes, TokenKind.isInner] using
      ⟨owner.inner, position.inner⟩

theorem Expr.SpelledIn.inner {es : List Expr} {as : List Token} (h : Expr.SpelledIn es as) :
    ∀ t ∈ as, t.kind.isInner := by
  cases h with
  | nil => simp
  | last only => exact only.inner
  | more first kind others =>
    simpa [or_imp, forall_and, kind, TokenKind.isInner] using ⟨first.inner, others.inner⟩

end

theorem NamesSpelled.inner {names : List String} {as : List Token} (h : NamesSpelled names as) :
    ∀ t ∈ as, t.kind.isInner := by
  induction h with
  | nil => simp
  | last kind => simp [kind, TokenKind.isInner]
  | more kind separates _ ih => simpa [kind, separates, TokenKind.isInner] using ih

theorem Stmt.Spelled.inner {s : Stmt} {as : List Token} (h : s.Spelled as) (simple : s.isSimple) :
    ∀ t ∈ as, t.kind.isInner := by
  cases h with
  | declare starts kind => simp [starts, kind, TokenKind.isInner]
  | var starts kind assign value | define starts kind assign value =>
    simpa [starts, kind, assign, TokenKind.isInner] using value.inner
  | assign place kind value =>
    simpa [or_imp, forall_and, kind, TokenKind.isInner] using ⟨place.inner, value.inner⟩
  | «include» starts kind => rcases kind with kind | kind <;> simp [starts, kind, TokenKind.isInner]
  | expr spelled => exact spelled.inner
  | leave starts | «break» starts | «continue» starts => simp [starts, TokenKind.isInner]
  | «return» starts result => simpa [starts, TokenKind.isInner] using result.inner
  | function | block | ifThen | ifElse | elseIf | «while» | loop | «for» => cases simple

theorem TokenKind.ne_of_isInner {k : TokenKind} (h : k.isInner) : k ≠ .endOfInput := by
  rintro rfl
  cases h

theorem Expr.Spelled.kind_ne {e : Expr} {as : List Token} (h : e.Spelled as) :
    ∀ t ∈ as, t.kind ≠ .endOfInput :=
  fun t ht => TokenKind.ne_of_isInner (h.inner t ht)

theorem NamesSpelled.kind_ne {names : List String} {as : List Token} (h : NamesSpelled names as) :
    ∀ t ∈ as, t.kind ≠ .endOfInput :=
  fun t ht => TokenKind.ne_of_isInner (h.inner t ht)

theorem Stmt.EndsAt.kind_ne {s : Stmt} {last : TokenKind} {bs cs : List Token}
    (h : s.EndsAt last bs cs) (hc : ∀ t ∈ cs, t.kind ≠ .endOfInput) :
    ∀ t ∈ bs, t.kind ≠ .endOfInput := by
  cases h with
  | semicolon _ kind => simpa [kind] using hc
  | without => exact hc

theorem Stmt.SpelledIn.kind_ne {body : List Stmt} {span : Span} {as : List Token}
    (h : Stmt.SpelledIn body span as)
    (inside : ∀ {bs}, Stmt.SpelledUpTo .rightBrace body bs → ∀ t ∈ bs, t.kind ≠ .endOfInput) :
    ∀ t ∈ as, t.kind ≠ .endOfInput := by
  cases h with
  | braces opens inner closes => simpa [or_imp, forall_and, opens, closes] using inside inner

mutual

theorem Stmt.Spelled.kind_ne {s : Stmt} {as : List Token} (h : s.Spelled as) :
    ∀ t ∈ as, t.kind ≠ .endOfInput := by
  by_cases simple : s.isSimple
  · exact fun t ht => TokenKind.ne_of_isInner (h.inner simple t ht)
  cases h with
  | declare | var | define | assign | «include» | expr | leave | «return» | «break» | «continue» =>
    exact absurd rfl simple
  | function starts kind opens names closes block =>
    simpa [or_imp, forall_and, starts, kind, opens, closes] using
      ⟨names.kind_ne, block.kind_ne (·.kind_ne)⟩
  | block block => exact block.kind_ne (·.kind_ne)
  | ifThen starts test block | «while» starts test block =>
    simpa [or_imp, forall_and, starts] using ⟨test.kind_ne, block.kind_ne (·.kind_ne)⟩
  | ifElse starts test block kind final =>
    simpa [or_imp, forall_and, starts, kind] using
      ⟨test.kind_ne, block.kind_ne (·.kind_ne), final.kind_ne (·.kind_ne)⟩
  | elseIf starts test block kind _ final =>
    simpa [or_imp, forall_and, starts, kind] using
      ⟨test.kind_ne, block.kind_ne (·.kind_ne), final.kind_ne⟩
  | loop starts block => simpa [starts] using block.kind_ne (·.kind_ne)
  | «for» starts kind separates elements block =>
    simpa [or_imp, forall_and, starts, kind, separates] using
      ⟨elements.kind_ne, block.kind_ne (·.kind_ne)⟩

theorem Stmt.SpelledUpTo.kind_ne {last : TokenKind} {stmts : List Stmt} {as : List Token}
    (h : Stmt.SpelledUpTo last stmts as) : ∀ t ∈ as, t.kind ≠ .endOfInput := by
  cases h with
  | nil => simp
  | cons first ends others =>
    simpa [or_imp, forall_and] using ⟨first.kind_ne, ends.kind_ne others.kind_ne⟩

end

end Script
