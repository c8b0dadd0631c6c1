import Script.Span

namespace Script

inductive Stage where
  | lexer
  | parser
  deriving DecidableEq, Repr

def Stage.label : Stage → String
  | lexer => "Lexer"
  | parser => "Parser"

/-- A complaint about source text, with further remarks. -/
structure Diagnostic where
  stage : Stage
  message : String
  span : Option Span
  notes : List String
  deriving DecidableEq, Repr

/-- The complaint on one line, each remark on one of its own. -/
def Diagnostic.text (d : Diagnostic) : String :=
  d.stage.label ++ ": " ++ d.message ++
    (match d.span with
      | some span => " (line " ++ toString span.line ++ ")"
      | none => "") ++
    String.join (d.notes.map fun note => "\n  note: " ++ note)

end Script
