import Script.Span

namespace Script

inductive Keyword where
  | var | define | func | include | «if» | «else» | loop | while | «for» | «in» | break | continue
  | return | true | false | null
  deriving DecidableEq, Repr

inductive TokenKind where
  | identifier
  | number
  | string
  | keyword (word : Keyword)
  | leftParen | rightParen
  | leftBrace | rightBrace
  | leftBracket | rightBracket
  | comma | semicolon
  | assign
  | plus | minus | star | slash | percent
  | doubleAmpersand | doublePipe
  | bang | bangEqual
  | equalEqual
  | less | lessEqual
  | greater | greaterEqual
  | unknown
  | endOfInput
  deriving DecidableEq, Repr

/-- The lexeme is the token's own text, except that a string's lexeme is what its escapes denote. -/
structure Token where
  kind : TokenKind
  lexeme : String
  span : Span
  deriving DecidableEq, Repr

def Keyword.ofWord? : String → Option Keyword
  | "var" => some .var
  | "define" => some .define
  | "func" => some .func
  | "include" => some .include
  | "if" => some .if
  | "else" => some .else
  | "loop" => some .loop
  | "while" => some .while
  | "for" => some .for
  | "in" => some .in
  | "break" => some .break
  | "continue" => some .continue
  | "return" => some .return
  | "true" => some .true
  | "false" => some .false
  | "null" => some .null
  | _ => none

end Script
