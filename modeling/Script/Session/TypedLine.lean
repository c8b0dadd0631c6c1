import Script.Text.Grapheme

namespace Script

/-- Leaves out the characters at the front that take up so many bytes; `none` if there are none that
do so exactly. -/
def dropBytes (size : Nat) : List Char → Option (List Char)
  | [] => if size = 0 then some [] else none
  | c :: rest =>
    if size = 0 then some (c :: rest)
    else if size < c.utf8Size then none
    else dropBytes (size - c.utf8Size) rest

namespace Session

/-- A line that is being typed: its characters, and how many bytes each cluster of it took, both the
last one first. -/
structure TypedLine where
  text : List Char
  sizes : List Nat

namespace TypedLine

def empty : TypedLine := ⟨[], []⟩

/-- Types a cluster. A backspace takes the one before it back, if there is one. The size of a
cluster is kept in one byte, so that of a longer one only a part is taken back; `none` if that
part ends within a character. -/
def type (line : TypedLine) (cluster : List Char) : Option TypedLine :=
  if cluster = ['\x08'] then
    match line.sizes with
    | [] => some line
    | size :: sizes => (dropBytes size line.text).map (⟨·, sizes⟩)
  else
    some ⟨cluster.reverse ++ line.text, (String.ofList cluster).utf8ByteSize % 0x100 :: line.sizes⟩

end TypedLine

/-- What is left of a line when its backspaces have been obeyed. -/
def applyBackspaces (line : String) : Option String :=
  ((graphemes line.toList).foldlM TypedLine.type .empty).map fun typed =>
    String.ofList typed.text.reverse

end Session

end Script
