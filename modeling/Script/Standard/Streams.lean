import Script.Host.Action

namespace Script.Standard

open HostAction

/-- The texts of the values with blanks between them. -/
def joined (values : List Value) : String := " ".intercalate (values.map Value.display)

def print (values : List Value) : HostAction := .print (joined values) (ok .null)

def println (values : List Value) : HostAction := .print (joined values ++ "\n") (ok .null)

/-- A line of input without its ending, or `null` at the end of the input. -/
def answerLine : InputLine → HostAction
  | .line text => ok (.string text)
  | .endOfInput => ok .null
  | .invalid => refuse .invalidInput
  | .unread => fault

/-- `input()` or `input(prompt)`. -/
def input (arguments : List Value) : HostAction :=
  counted "input" 0 1 arguments <|
    match arguments.head? with
    | some prompt => .print prompt.display (.readLine answerLine)
    | none => .readLine answerLine

end Script.Standard
