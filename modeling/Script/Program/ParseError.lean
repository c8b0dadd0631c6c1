import Script.Diagnostic
import Script.Token

namespace Script

/-- What a token list fails to be at the token where parsing stops. -/
inductive ParseError where
  | blockStart
  | blockEnd
  | variableName
  | globalName
  | globalValue
  | functionName
  | parametersStart
  | parameterName
  | repeatedParameter
  | parametersEnd
  | moduleName
  | emptyModuleName
  | loopBinding
  | loopIn
  | assignmentTarget
  | calledName
  | argumentsEnd
  | indexEnd
  | expression
  | number
  | groupEnd
  | arrayEnd
  /-- Never arises with the fuel that `parseTokens` supplies. -/
  | outOfFuel
  deriving DecidableEq, Repr

def ParseError.message : ParseError → String
  | blockStart => "expected `\x7b` to start block"
  | blockEnd => "expected `\x7d` to close block"
  | variableName => "expected variable name"
  | globalName => "expected name after `define`"
  | globalValue => "expected `=` in define statement"
  | functionName => "expected function name"
  | parametersStart => "expected `(` after function name"
  | parameterName => "expected parameter name"
  | repeatedParameter => "duplicate parameter name"
  | parametersEnd => "expected `)` after parameters"
  | moduleName => "expected module name after `include`"
  | emptyModuleName => "module name must not be empty"
  | loopBinding => "expected loop binding"
  | loopIn => "expected keyword `In`"
  | assignmentTarget => "invalid assignment target"
  | calledName => "only named functions can be called"
  | argumentsEnd => "expected `)` after arguments"
  | indexEnd => "expected `]` after index"
  | expression => "unexpected token in expression"
  | number => "invalid or out of range number"
  | groupEnd => "expected `)` after expression"
  | arrayEnd => "expected `]` after array literal"
  | outOfFuel => "program is nested too deeply"

/-- An error with the tokens from the offending one on. -/
structure ParseFailure where
  error : ParseError
  remaining : List Token
  deriving DecidableEq, Repr

/-- The complaint points at the offending token and quotes it. -/
def ParseFailure.diagnostic (f : ParseFailure) : Diagnostic :=
  match f.remaining with
  | [] => ⟨.parser, f.error.message, none, []⟩
  | token :: _ =>
    let note := if token.kind = .endOfInput then "reached end of input"
      else "found `" ++ token.lexeme ++ "`"
    ⟨.parser, f.error.message, some token.span, [note]⟩

/-- The complaint about a string literal that is never closed. -/
def Diagnostic.unterminatedString (span : Span) : Diagnostic :=
  ⟨.lexer, "unterminated string literal", some span, []⟩

end Script
