import Script.Value
import Script.Number.FloatText
import Script.Text.Quoted

namespace Script

namespace Value

mutual

/-- The text that echoes a value: strings are quoted. -/
def echo : Value → String
  | null => "null"
  | bool b => if b then "true" else "false"
  | int n => toString n.toInt
  | float x => floatText .echoed x
  | string s => quoted s
  | array [] => "[]"
  | array (v :: vs) => echoRest ("[" ++ v.echo) vs ++ "]"

/-- The text so far, then the further elements, each behind a comma. -/
def echoRest (text : String) : List Value → String
  | [] => text
  | v :: vs => echoRest (text ++ ", " ++ v.echo) vs

end

/-- The text that prints a value: a string stands for itself, but not inside an array. -/
def display : Value → String
  | float x => floatText .plain x
  | string s => s
  | v => v.echo

end Value

end Script
