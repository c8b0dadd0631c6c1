import Script.Proofs.Grammar.Cursor

namespace Script

/-- What no pass is to do. -/
inductive Stray where
  /-- To look where there is no token. -/
  | noToken
  /-- To go round in a loop once more, after as many times as tokens were left at its beginning. -/
  | endless
  /-- To nest calls more deeply than it may. -/
  | tooDeep
  deriving DecidableEq, Repr

/-- A parser once more, as a pass of a cursor over the tokens, with a loop wherever things of one
kind follow one another. It leaves the cursor where it comes to, with a result or with a complaint,
and is cut short as soon as it strays. -/
abbrev Pass := ExceptT Diagnostic (StateT Cursor (Except Stray))

/-- What going round a loop once leads to. -/
inductive Turn (σ α : Type) where
  | again (state : σ)
  | done (result : α)

/-- Whether the last token is the end of the input, and no other token is. -/
def EndsOnce (tokens : List Token) : Prop :=
  ∃ read last, tokens = read ++ [last] ∧ last.kind = .endOfInput ∧
    ∀ t ∈ read, t.kind ≠ .endOfInput

namespace Cursor

/-- The token where the cursor is. -/
def token? (c : Cursor) : Option Token := c.tokens[c.current]?

/-- Whether a cursor is on one of its tokens, of which the last one alone is the end of the
input. -/
structure On (c : Cursor) : Prop where
  ends : EndsOnce c.tokens
  inside : c.current < c.tokens.length

variable {c : Cursor} {t : Token}

theorem length_rest (c : Cursor) : c.rest.length = c.tokens.length - c.current := List.length_drop

theorem on_of_tokenize {source : String} {tokens : List Token} {position : Nat}
    (lexed : tokenize source = .ok tokens) (inside : position < tokens.length) :
    (Cursor.mk tokens position).On :=
  ⟨tokensFrom_ends lexed, inside⟩

theorem On.exists_token (on : c.On) : ∃ t, c.token? = some t := by
  have inside := on.inside
  exact ⟨c.tokens[c.current], List.getElem?_eq_getElem inside⟩

theorem rest_of_token? (here : c.token? = some t) :
    c.rest = t :: { c with current := c.current + 1 }.rest := by
  obtain ⟨inside, rfl⟩ := List.getElem?_eq_some_iff.mp here
  exact List.drop_eq_getElem_cons inside

theorem nextKind_rest (here : c.token? = some t) : nextKind .endOfInput c.rest = t.kind := by
  rw [rest_of_token? here, nextKind_cons]

theorem On.inside_succ (on : c.On) (here : c.token? = some t) (more : t.kind ≠ .endOfInput) :
    c.current + 1 < c.tokens.length := by
  obtain ⟨⟨read, last, split, kind, -⟩, inside⟩ := on
  rw [token?, split] at here
  rw [split, List.length_append, List.length_singleton] at inside ⊢
  have before : c.current ≠ read.length := by
    intro all
    rw [all, List.getElem?_append_right (Nat.le_refl _), Nat.sub_self] at here
    obtain rfl := Option.some.inj here
    exact more kind
  omega

end Cursor

namespace Pass

variable {α β σ : Type} {c d : Cursor} {t : Token}

theorem bind_of_ok {x : Pass α} {next : α → Pass β} {a : α} (h : x c = .ok (.ok a, d)) :
    (x >>= next) c = next a d := by
  change (x c >>= fun p => ExceptT.bindCont next p.1 p.2) = _
  rw [h]
  rfl

theorem bind_of_error {x : Pass α} {next : α → Pass β} {e : Diagnostic}
    (h : x c = .ok (.error e, d)) : (x >>= next) c = .ok (.error e, d) := by
  change (x c >>= fun p => ExceptT.bindCont next p.1 p.2) = _
  rw [h]
  rfl

def stray (s : Stray) : Pass α := fun _ => .error s

/-- Complains about a token, wherever the cursor is. -/
def complain (error : ParseError) (token : Token) : Pass α := fun c =>
  .ok (.error (ParseFailure.mk error [token]).diagnostic, c)

def peek : Pass Token := fun c =>
  match c.token? with
  | some token => .ok (.ok token, c)
  | none => .error .noToken

theorem peek_of_token? (here : c.token? = some t) : peek c = .ok (.ok t, c) := by
  rw [peek, here]

/-- Hands over the token read last. -/
def move : Pass Token := fun c =>
  match c.advance? with
  | some (token, moved) => .ok (.ok token, moved)
  | none => .error .noToken

/-- Looks whether the cursor is at the end before it is moved. -/
def advance : Pass Token := do
  let _ ← peek
  move

theorem advance_of_token? (here : c.token? = some t) (more : t.kind ≠ .endOfInput) :
    advance c = .ok (.ok t, { c with current := c.current + 1 }) := by
  have forward : ¬c.atEnd := by simp [Cursor.atEnd, Cursor.nextKind_rest here, more]
  obtain ⟨inside, found⟩ := List.getElem?_eq_some_iff.mp here
  rw [advance, bind_of_ok (peek_of_token? here), move, Cursor.advance?_of_lt inside forward, found]

def accept (kind : TokenKind) : Pass Bool := do
  let token ← peek
  if token.kind = kind then
    let _ ← advance
    pure true
  else pure false

def expect (kind : TokenKind) (error : ParseError) : Pass Token := do
  let token ← peek
  if token.kind = kind then advance else complain error token

def optionalSemicolon : Pass Unit := do
  let _ ← accept .semicolon

/-- Goes on behind a turn. -/
def proceed (again : σ → Pass α) : Turn σ α → Pass α
  | .again state => again state
  | .done result => pure result

/-- Goes round up to so many times. Each time a turn leads to a result or to another one. -/
def rounds (turn : σ → Pass (Turn σ α)) : Nat → σ → Pass α
  | 0, _ => stray .endless
  | left + 1, state => turn state >>= proceed (rounds turn left)

/-- Goes round until a turn leads to a result, but no more often than tokens are left. -/
def loop (turn : σ → Pass (Turn σ α)) (state : σ) : Pass α := fun c =>
  rounds turn c.rest.length state c

/-- One more thing of several between commas, which may depend on those in front of it. -/
def commaTurn (one : List α → Pass α) (before : List α) : Pass (Turn (List α) (List α)) := do
  let thing ← one before
  let comma ← accept .comma
  pure (if comma then .again (before ++ [thing]) else .done (before ++ [thing]))

/-- Things between commas, none if the closing token comes at once. -/
def separated (closing : TokenKind) (one : List α → Pass α) : Pass (List α) := do
  if (← peek).kind = closing then pure [] else loop (commaTurn one) []

def operatorTurn (level : Nat) (operand : Pass Expr) (left : Expr) : Pass (Turn Expr Expr) := do
  match (← peek).kind.binaryOp? with
  | some op =>
    if op.level = level then
      let _ ← advance
      let right ← operand
      pure (.again (.binary (left.span.to right.span) op left right))
    else pure (.done left)
  | none => pure (.done left)

/-- A call or an indexing behind an expression, where one follows. -/
def suffixTurn (inner : Pass Expr) (base : Expr) : Pass (Turn Expr Expr) := do
  match (← peek).kind with
  | .leftParen =>
    let first ← advance
    match base with
    | .name span function =>
      let arguments ← separated .rightParen fun _ => inner
      let last ← expect .rightParen .argumentsEnd
      pure (.again (.call (span.to last.span) function arguments))
    | _ => complain .calledName first
  | .leftBracket =>
    let _ ← advance
    let index ← inner
    let last ← expect .rightBracket .indexEnd
    pure (.again (.index (base.span.to last.span) base index))
  | _ => pure (.done base)

def suffixed (primary inner : Pass Expr) : Pass Expr := do
  let base ← primary
  loop (suffixTurn inner) base

def constant (value : Literal) : Pass Expr := do
  let token ← advance
  pure (.literal token.span value)

/-- An expression that no operator stands in outside brackets, with those inside brackets. -/
def primary (inner : Pass Expr) : Pass Expr := do
  let token ← peek
  match token.kind with
  | .keyword .true => constant (.bool true)
  | .keyword .false => constant (.bool false)
  | .keyword .null => constant .null
  | .number =>
    let token ← advance
    match numberLiteral? token.lexeme with
    | some value => pure (.literal token.span value)
    | none => complain .number token
  | .string =>
    let token ← advance
    pure (.literal token.span (.string token.lexeme))
  | .identifier =>
    let token ← advance
    pure (.name token.span token.lexeme)
  | .leftParen =>
    let first ← advance
    let expression ← inner
    let last ← expect .rightParen .groupEnd
    pure (.group (first.span.to last.span) expression)
  | .leftBracket =>
    let first ← advance
    let elements ← separated .rightBracket fun _ => inner
    let last ← expect .rightBracket .arrayEnd
    pure (.array (first.span.to last.span) elements)
  | _ => complain .expression token

mutual

/-- Calls nest up to a given depth, to which loops do not add. -/
def expression : Nat → Nat → Pass Expr
  | 0, _ => stray .tooDeep
  | depth + 1, level => do
    if level < unaryLevel then
      let left ← expression depth (level + 1)
      loop (operatorTurn level (expression depth (level + 1))) left
    else unaryExpression depth

def unaryExpression : Nat → Pass Expr
  | 0 => stray .tooDeep
  | depth + 1 => do
    match (← peek).kind.unaryOp? with
    | some op =>
      let sign ← advance
      let operand ← unaryExpression depth
      pure (.unary (sign.span.to operand.span) op operand)
    | none => suffixed (primary (expression depth 0)) (expression depth 0)

end

def varStatement (expression : Pass Expr) : Pass Stmt := do
  let first ← advance
  let name ← expect .identifier .variableName
  if ← accept .assign then
    let value ← expression
    optionalSemicolon
    pure (.var (first.span.to value.span) name.lexeme (some value))
  else
    optionalSemicolon
    pure (.var (first.span.to name.span) name.lexeme none)

def defineStatement (expression : Pass Expr) : Pass Stmt := do
  let first ← advance
  let name ← expect .identifier .globalName
  let _ ← expect .assign .globalValue
  let value ← expression
  optionalSemicolon
  pure (.define (first.span.to value.span) name.lexeme value)

def includeStatement : Pass Stmt := do
  let first ← advance
  let token ← peek
  if token.kind = .string ∨ token.kind = .identifier then
    let name ← advance
    if name.lexeme = "" then complain .emptyModuleName name
    else
      optionalSemicolon
      pure (.include (first.span.to name.span) name.lexeme)
  else complain .moduleName token

def returnStatement (expression : Pass Expr) : Pass Stmt := do
  let first ← advance
  let token ← peek
  if token.kind = .semicolon ∨ token.kind = .rightBrace ∨ token.kind = .endOfInput then
    optionalSemicolon
    pure (.return (first.span.to first.span) none)
  else
    let value ← expression
    optionalSemicolon
    pure (.return (first.span.to value.span) (some value))

def expressionStatement (expression : Pass Expr) : Pass Stmt := do
  let target ← expression
  if (← peek).kind = .assign then
    let equals ← advance
    if Parser.isAssignable target then
      let value ← expression
      optionalSemicolon
      pure (.assign (target.span.to value.span) target value)
    else complain .assignmentTarget equals
  else
    optionalSemicolon
    pure (.expr target.span target)

def wordStatement (make : Span → Stmt) : Pass Stmt := do
  let word ← advance
  optionalSemicolon
  pure (make word.span)

/-- A parameter that is none of those in front of it. -/
def parameter (before : List String) : Pass String := do
  let name ← expect .identifier .parameterName
  if name.lexeme ∈ before then complain .repeatedParameter name else pure name.lexeme

/-- One more statement, unless a closing token or the end of the input comes next. -/
def statementTurn (closing : TokenKind) (statement : Pass Stmt) (before : List Stmt) :
    Pass (Turn (List Stmt) (List Stmt)) := do
  let token ← peek
  if token.kind = closing ∨ token.kind = .endOfInput then pure (.done before)
  else
    let one ← statement
    pure (.again (before ++ [one]))

def block (statement : Pass Stmt) : Pass (List Stmt × Span) := do
  let first ← expect .leftBrace .blockStart
  let body ← loop (statementTurn .rightBrace statement) []
  let last ← expect .rightBrace .blockEnd
  pure (body, first.span.to last.span)

def functionStatement (statement : Pass Stmt) : Pass Stmt := do
  let first ← advance
  let name ← expect .identifier .functionName
  let _ ← expect .leftParen .parametersStart
  let names ← separated .rightParen parameter
  let _ ← expect .rightParen .parametersEnd
  let (body, last) ← block statement
  pure (.function (first.span.to last) name.lexeme names body)

def whileStatement (expression : Pass Expr) (statement : Pass Stmt) : Pass Stmt := do
  let first ← advance
  let condition ← expression
  let (body, last) ← block statement
  pure (.while (first.span.to last) condition body)

def loopStatement (statement : Pass Stmt) : Pass Stmt := do
  let first ← advance
  let (body, last) ← block statement
  pure (.loop (first.span.to last) body)

def forStatement (expression : Pass Expr) (statement : Pass Stmt) : Pass Stmt := do
  let first ← advance
  let binding ← expect .identifier .loopBinding
  let _ ← expect (.keyword .in) .loopIn
  let iterable ← expression
  let (body, last) ← block statement
  pure (.for (first.span.to last) binding.lexeme iterable body)

mutual

def statement : Nat → Pass Stmt
  | 0 => stray .tooDeep
  | depth + 1 => do
    match (← peek).kind with
    | .keyword .var => varStatement (expression depth 0)
    | .keyword .define => defineStatement (expression depth 0)
    | .keyword .func => functionStatement (statement depth)
    | .keyword .include => includeStatement
    | .keyword .if => ifStatement depth
    | .keyword .while => whileStatement (expression depth 0) (statement depth)
    | .keyword .loop => loopStatement (statement depth)
    | .keyword .for => forStatement (expression depth 0) (statement depth)
    | .keyword .return => returnStatement (expression depth 0)
    | .keyword .break => wordStatement .break
    | .keyword .continue => wordStatement .continue
    | .leftBrace =>
      let (body, span) ← block (statement depth)
      pure (.block span body)
    | _ => expressionStatement (expression depth 0)

def ifStatement : Nat → Pass Stmt
  | 0 => stray .tooDeep
  | depth + 1 => do
    let first ← advance
    let condition ← expression depth 0
    let (body, last) ← block (statement depth)
    if ← accept (.keyword .else) then
      if (← peek).kind = .keyword .if then
        let other ← ifStatement depth
        pure (.ifElse (first.span.to other.span) condition body [other])
      else
        let (otherwise, finish) ← block (statement depth)
        pure (.ifElse (first.span.to finish) condition body otherwise)
    else pure (.ifThen (first.span.to last) condition body)

end

def program (depth : Nat) : Pass Program := loop (statementTurn .endOfInput (statement depth)) []

end Pass

end Script
