import Script.Host.Action
import Script.Number.Reading
import Script.Text.Blank

namespace Script.Standard

open HostAction

def str : List Value → HostAction := unary fun x => ok (.string x.display)

def typeOf : List Value → HostAction := unary fun x => ok (.string x.kind.label)

/-- An integer from a truth value, from a double without its fraction, or from text. -/
def int : List Value → HostAction := unary fun x =>
  match x with
  | .int n => ok (.int n)
  | .bool b => ok (.int (if b then 1 else 0))
  | .float y => orRefuse (.notAnInteger y) ((floatTruncate? y).map .int)
  | .string s => orRefuse (.unreadable "int" s) ((readInt64? (trimBlank s).toList).map .int)
  | .null | .array _ => refuse (.inconvertible "int" x.kind)

/-- A double from an integer or from text. -/
def float : List Value → HostAction := unary fun x =>
  match x with
  | .int n => ok (.float (floatOfInt64 n))
  | .float y => ok (.float y)
  | .string s => orRefuse (.unreadable "float" s) ((readFloat? (trimBlank s).toList).map .float)
  | .null | .bool _ | .array _ => refuse (.inconvertible "float" x.kind)

end Script.Standard
