namespace Script

/-- The standard streams: what is still to be read, whether more may come after that, and what has
been written. -/
structure Console where
  input : List UInt8
  closed : Bool
  output : String
  errors : String

/-- What reading a line gives. A line is `unread` if its end has not arrived yet. -/
inductive InputLine where
  | line (text : String)
  | endOfInput
  | invalid
  | unread

namespace Console

def ofInput (bytes : List UInt8) : Console := ⟨bytes, true, "", ""⟩

def dropEnding (line : String) : String :=
  match line.toList.reverse with
  | '\n' :: '\r' :: rest => String.ofList rest.reverse
  | '\n' :: rest => String.ofList rest.reverse
  | _ => line

def readLine (c : Console) : InputLine × Console :=
  let (line, rest) := c.input.span (· != 10)
  let (line, rest) := match rest with
    | [] => (line, [])
    | ending :: rest => (line ++ [ending], rest)
  if line.getLast? != some 10 && !c.closed then (.unread, c)
  else if line.isEmpty then (.endOfInput, c)
  else
    match String.fromUTF8? ⟨line.toArray⟩ with
    | some text => (.line (dropEnding text), { c with input := rest })
    | none => (.invalid, { c with input := rest })

/-- Only on an open input is a line missing. -/
theorem closed_of_unread {c after : Console} (h : c.readLine = (.unread, after)) :
    c.closed = false := by
  unfold readLine at h
  grind

theorem closed_readLine {c after : Console} {line : InputLine} (h : c.readLine = (line, after)) :
    after.closed = c.closed := by
  unfold readLine at h
  grind

def write (c : Console) (text : String) : Console := { c with output := c.output ++ text }

def writeError (c : Console) (text : String) : Console := { c with errors := c.errors ++ text }

end Console

end Script
