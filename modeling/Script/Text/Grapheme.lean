import Script.Text.GraphemeClass

namespace Script

/-- What the characters read so far say about the end of their last cluster. -/
structure GraphemeContext where
  last : GraphemeClass
  /-- They end in an odd number of regional indicators, so that one more makes a flag. -/
  halfFlag : Bool
  /-- They end in a pictograph, marks on it and at most a joiner. -/
  pictograph : Bool
  /-- They end in a consonant and marks on it; whether a linker is among the marks. -/
  conjunct : Option Bool
  deriving DecidableEq, Repr

namespace GraphemeContext

/-- Before the first character, as after a control. -/
def start : GraphemeContext := ⟨.control, false, false, none⟩

/-- Whether a character of the given class still belongs to the last cluster. -/
def joins (before : GraphemeContext) (next : GraphemeClass) : Bool :=
  match before.last, next with
  | .carriageReturn, .lineFeed => true
  | .carriageReturn, _ | .lineFeed, _ | .control, _ => false
  | _, .carriageReturn | _, .lineFeed | _, .control => false
  | _, .mark | _, .linker | _, .nonJoiner | _, .joiner | _, .spacing => true
  | .prepended, _ => true
  | .leadingJamo, .leadingJamo | .leadingJamo, .vowelJamo => true
  | .leadingJamo, .openSyllable | .leadingJamo, .closedSyllable => true
  | .vowelJamo, .vowelJamo | .vowelJamo, .trailingJamo => true
  | .openSyllable, .vowelJamo | .openSyllable, .trailingJamo => true
  | .trailingJamo, .trailingJamo | .closedSyllable, .trailingJamo => true
  | .joiner, .pictograph => before.pictograph
  | .regional, .regional => before.halfFlag
  | _, .consonant => before.conjunct == some true
  | _, _ => false

/-- The context once a character of the given class has been read. -/
def after (before : GraphemeContext) (next : GraphemeClass) : GraphemeContext where
  last := next
  halfFlag := next == .regional && !before.halfFlag
  pictograph :=
    match next with
    | .pictograph => true
    | .mark | .linker | .nonJoiner | .joiner => before.pictograph && before.last != .joiner
    | _ => false
  conjunct :=
    match next with
    | .consonant => some false
    | .linker => before.conjunct.map fun _ => true
    | .mark | .joiner => before.conjunct
    | _ => none

end GraphemeContext

/-- The clusters of the characters that follow a cluster begun, behind those that are done. Both are
kept in reverse. -/
def graphemesFrom (done : List (List Char)) (begun : List Char) (context : GraphemeContext) :
    List Char → List (List Char)
  | [] => (begun.reverse :: done).reverse
  | c :: rest =>
    let next := GraphemeClass.ofChar c
    if context.joins next then graphemesFrom done (c :: begun) (context.after next) rest
    else graphemesFrom (begun.reverse :: done) [c] (context.after next) rest

/-- Splits text into the clusters that a reader sees as one character each. -/
def graphemes : List Char → List (List Char)
  | [] => []
  | c :: rest => graphemesFrom [] [c] (GraphemeContext.start.after (GraphemeClass.ofChar c)) rest

theorem flatten_graphemesFrom (done : List (List Char)) (begun : List Char)
    (context : GraphemeContext) (text : List Char) :
    (graphemesFrom done begun context text).flatten
      = done.reverse.flatten ++ begun.reverse ++ text := by
  induction text generalizing done begun context with
  | nil => simp [graphemesFrom]
  | cons c rest ih =>
    dsimp only [graphemesFrom]
    split
    · simp [ih]
    · simp [ih]

/-- The clusters of a text make up the text. -/
theorem flatten_graphemes (text : List Char) : (graphemes text).flatten = text := by
  cases text with
  | nil => rfl
  | cons c rest => simp [graphemes, flatten_graphemesFrom]

end Script
