import Script.Program
import Script.Program.ParseError
import Script.Token.Lexer
import Script.Number.Reading

namespace Script

/-- A parser reads from the front of the tokens and leaves the rest. -/
abbrev Parser := StateT (List Token) (Except ParseFailure)

/-- The literal that a number token denotes: an integer, or a double if it has a point or an
exponent. -/
def numberLiteral? (lexeme : String) : Option Literal :=
  let digits := lexeme.toList.filter (· != '_')
  if digits.any fun c => c == '.' || c == 'e' || c == 'E' then
    (readFloat? digits).map .float
  else (readInt64? digits).map .int

def TokenKind.binaryOp? : TokenKind → Option BinaryOp
  | .doublePipe => some .or
  | .doubleAmpersand => some .and
  | .equalEqual => some .equal
  | .bangEqual => some .notEqual
  | .less => some .less
  | .lessEqual => some .lessEqual
  | .greater => some .greater
  | .greaterEqual => some .greaterEqual
  | .plus => some .add
  | .minus => some .sub
  | .star => some .mul
  | .slash => some .div
  | .percent => some .mod
  | _ => none

def TokenKind.unaryOp? : TokenKind → Option UnaryOp
  | .minus => some .negate
  | .bang => some .not
  | _ => none

namespace Parser

/-- Fails at the first token that is left. -/
def fail {α : Type} (error : ParseError) : Parser α := fun tokens => .error ⟨error, tokens⟩

/-- Fails at a token that has just been read. -/
def failAt {α : Type} (token : Token) (error : ParseError) : Parser α :=
  fun tokens => .error ⟨error, token :: tokens⟩

/-- The kind of the next token, which stays. -/
def peek : Parser TokenKind := fun tokens =>
  match tokens with
  | [] => .ok (.endOfInput, [])
  | token :: rest => .ok (token.kind, token :: rest)

def expect (kind : TokenKind) (error : ParseError) : Parser Token := fun tokens =>
  match tokens with
  | [] => .error ⟨error, []⟩
  | token :: rest =>
    if token.kind = kind then .ok (token, rest) else .error ⟨error, token :: rest⟩

/-- Reads a token of the given kind if it comes next. -/
def accept (kind : TokenKind) : Parser Bool := fun tokens =>
  match tokens with
  | [] => .ok (false, [])
  | token :: rest => if token.kind = kind then .ok (true, rest) else .ok (false, token :: rest)

def next : Parser Token := fun tokens =>
  match tokens with
  | [] => .error ⟨.expression, []⟩
  | token :: rest => .ok (token, rest)

def constant (value : Literal) : Parser Expr := do
  let token ← next
  pure (.literal token.span value)

def optionalSemicolon : Parser Unit := do
  let _ ← accept .semicolon

mutual

/-- An expression whose operators outside brackets are of the given level or above. -/
def expression : Nat → Nat → Parser Expr
  | 0, _ => fail .outOfFuel
  | fuel + 1, level => do
    if level < unaryLevel then
      let left ← expression fuel (level + 1)
      operatorChain fuel level left
    else unaryExpression fuel

/-- Operators of one level associate to the left. -/
def operatorChain : Nat → Nat → Expr → Parser Expr
  | 0, _, _ => fail .outOfFuel
  | fuel + 1, level, left => do
    let kind ← peek
    match kind.binaryOp? with
    | some op =>
      if op.level = level then
        let _ ← next
        let right ← expression fuel (level + 1)
        operatorChain fuel level (.binary (left.span.to right.span) op left right)
      else pure left
    | none => pure left

def unaryExpression : Nat → Parser Expr
  | 0 => fail .outOfFuel
  | fuel + 1 => do
    let kind ← peek
    match kind.unaryOp? with
    | some op =>
      let sign ← next
      let operand ← unaryExpression fuel
      pure (.unary (sign.span.to operand.span) op operand)
    | none =>
      let base ← primary fuel
      suffixes fuel base

/-- The calls and indexings behind an expression. Only a name can be called. -/
def suffixes : Nat → Expr → Parser Expr
  | 0, _ => fail .outOfFuel
  | fuel + 1, base => do
    match ← peek with
    | .leftParen =>
      match base with
      | .name span function =>
        let _ ← next
        let arguments ← expressionsUntil fuel .rightParen
        let last ← expect .rightParen .argumentsEnd
        suffixes fuel (.call (span.to last.span) function arguments)
      | _ => fail .calledName
    | .leftBracket =>
      let _ ← next
      let index ← expression fuel 0
      let last ← expect .rightBracket .indexEnd
      suffixes fuel (.index (base.span.to last.span) base index)
    | _ => pure base

def primary : Nat → Parser Expr
  | 0 => fail .outOfFuel
  | fuel + 1 => do
    match ← peek with
    | .keyword .true => constant (.bool true)
    | .keyword .false => constant (.bool false)
    | .keyword .null => constant .null
    | .number =>
      let token ← next
      match numberLiteral? token.lexeme with
      | some value => pure (.literal token.span value)
      | none => failAt token .number
    | .string =>
      let token ← next
      pure (.literal token.span (.string token.lexeme))
    | .identifier =>
      let token ← next
      pure (.name token.span token.lexeme)
    | .leftParen =>
      let first ← next
      let inner ← expression fuel 0
      let last ← expect .rightParen .groupEnd
      pure (.group (first.span.to last.span) inner)
    | .leftBracket =>
      let first ← next
      let elements ← expressionsUntil fuel .rightBracket
      let last ← expect .rightBracket .arrayEnd
      pure (.array (first.span.to last.span) elements)
    | _ => fail .expression

/-- Expressions between commas, none if the closing token comes at once. -/
def expressionsUntil : Nat → TokenKind → Parser (List Expr)
  | 0, _ => fail .outOfFuel
  | fuel + 1, closing => do
    if (← peek) = closing then pure []
    else moreExpressions fuel

def moreExpressions : Nat → Parser (List Expr)
  | 0 => fail .outOfFuel
  | fuel + 1 => do
    let first ← expression fuel 0
    if ← accept .comma then
      let others ← moreExpressions fuel
      pure (first :: others)
    else pure [first]

end

def varStatement (fuel : Nat) : Parser Stmt := do
  let first ← next
  let name ← expect .identifier .variableName
  if ← accept .assign then
    let value ← expression fuel 0
    optionalSemicolon
    pure (.var (first.span.to value.span) name.lexeme (some value))
  else
    optionalSemicolon
    pure (.var (first.span.to name.span) name.lexeme none)

def defineStatement (fuel : Nat) : Parser Stmt := do
  let first ← next
  let name ← expect .identifier .globalName
  let _ ← expect .assign .globalValue
  let value ← expression fuel 0
  optionalSemicolon
  pure (.define (first.span.to value.span) name.lexeme value)

/-- `include name`, the name being a word or a string that is not empty. -/
def includeStatement : Parser Stmt := do
  let first ← next
  let kind ← peek
  if kind = .string ∨ kind = .identifier then
    let name ← next
    if name.lexeme = "" then failAt name .emptyModuleName
    else
      optionalSemicolon
      pure (.include (first.span.to name.span) name.lexeme)
  else fail .moduleName

/-- `return` or `return value`; the value is missing where the statement visibly ends. -/
def returnStatement (fuel : Nat) : Parser Stmt := do
  let first ← next
  let kind ← peek
  if kind = .semicolon ∨ kind = .rightBrace ∨ kind = .endOfInput then
    optionalSemicolon
    pure (.return (first.span.to first.span) none)
  else
    let value ← expression fuel 0
    optionalSemicolon
    pure (.return (first.span.to value.span) (some value))

def isAssignable : Expr → Bool
  | .name .. | .index .. => true
  | _ => false

/-- An expression, or an assignment if `=` follows it. -/
def expressionStatement (fuel : Nat) : Parser Stmt := do
  let target ← expression fuel 0
  if (← peek) = .assign then
    let equals ← next
    if isAssignable target then
      let value ← expression fuel 0
      optionalSemicolon
      pure (.assign (target.span.to value.span) target value)
    else failAt equals .assignmentTarget
  else
    optionalSemicolon
    pure (.expr target.span target)

def wordStatement (make : Span → Stmt) : Parser Stmt := do
  let word ← next
  optionalSemicolon
  pure (make word.span)

/-- One parameter name or several between commas, none of them in `seen` or twice. -/
def moreParameters : Nat → List String → Parser (List String)
  | 0, _ => fail .outOfFuel
  | fuel + 1, seen => do
    let name ← expect .identifier .parameterName
    if name.lexeme ∈ seen then failAt name .repeatedParameter
    else if ← accept .comma then
      let others ← moreParameters fuel (name.lexeme :: seen)
      pure (name.lexeme :: others)
    else pure [name.lexeme]

/-- The parameters between the parentheses of a definition. -/
def parameters (fuel : Nat) : Parser (List String) := do
  if (← peek) = .rightParen then pure [] else moreParameters fuel []

mutual

def statement : Nat → Parser Stmt
  | 0 => fail .outOfFuel
  | fuel + 1 => do
    match ← peek with
    | .keyword .var => varStatement fuel
    | .keyword .define => defineStatement fuel
    | .keyword .func =>
      let first ← next
      let name ← expect .identifier .functionName
      let _ ← expect .leftParen .parametersStart
      let names ← parameters fuel
      let _ ← expect .rightParen .parametersEnd
      let (body, last) ← block fuel
      pure (.function (first.span.to last) name.lexeme names body)
    | .keyword .include => includeStatement
    | .keyword .if => ifStatement fuel
    | .keyword .while =>
      let first ← next
      let condition ← expression fuel 0
      let (body, last) ← block fuel
      pure (.while (first.span.to last) condition body)
    | .keyword .loop =>
      let first ← next
      let (body, last) ← block fuel
      pure (.loop (first.span.to last) body)
    | .keyword .for =>
      let first ← next
      let binding ← expect .identifier .loopBinding
      let _ ← expect (.keyword .in) .loopIn
      let iterable ← expression fuel 0
      let (body, last) ← block fuel
      pure (.for (first.span.to last) binding.lexeme iterable body)
    | .keyword .return => returnStatement fuel
    | .keyword .break => wordStatement .break
    | .keyword .continue => wordStatement .continue
    | .leftBrace =>
      let (body, span) ← block fuel
      pure (.block span body)
    | _ => expressionStatement fuel

/-- `else if` stands for an else branch that holds one `if` statement. -/
def ifStatement : Nat → Parser Stmt
  | 0 => fail .outOfFuel
  | fuel + 1 => do
    let first ← next
    let condition ← expression fuel 0
    let (body, last) ← block fuel
    if ← accept (.keyword .else) then
      if (← peek) = .keyword .if then
        let other ← ifStatement fuel
        pure (.ifElse (first.span.to other.span) condition body [other])
      else
        let (otherwise, finish) ← block fuel
        pure (.ifElse (first.span.to finish) condition body otherwise)
    else pure (.ifThen (first.span.to last) condition body)

/-- The statements between braces, with the span from brace to brace. -/
def block : Nat → Parser (List Stmt × Span)
  | 0 => fail .outOfFuel
  | fuel + 1 => do
    let first ← expect .leftBrace .blockStart
    let body ← statementsUntil fuel .rightBrace
    let last ← expect .rightBrace .blockEnd
    pure (body, first.span.to last.span)

/-- Statements up to a closing token or the end of the input, which stay. -/
def statementsUntil : Nat → TokenKind → Parser (List Stmt)
  | 0, _ => fail .outOfFuel
  | fuel + 1, closing => do
    let kind ← peek
    if kind = closing ∨ kind = .endOfInput then pure []
    else
      let first ← statement fuel
      let others ← statementsUntil fuel closing
      pure (first :: others)

end

end Parser

/-- More than the depth to which the parsers can call one another on so many tokens: at most eleven
calls lie between the reading of two tokens. -/
def parseFuel (tokens : List Token) : Nat := 16 * tokens.length + 16

def parseTokens (tokens : List Token) : Except ParseFailure Program :=
  match Parser.statementsUntil (parseFuel tokens) .endOfInput tokens with
  | .ok (program, _) => .ok program
  | .error failure => .error failure

def parseProgram (source : String) : Except Diagnostic Program :=
  match tokenize source with
  | .error span => .error (.unterminatedString span)
  | .ok tokens =>
    match parseTokens tokens with
    | .error failure => .error failure.diagnostic
    | .ok program => .ok program

end Script
