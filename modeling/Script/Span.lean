namespace Script

/-- A stretch of source text in byte offsets, with the line it begins on. -/
structure Span where
  start : Nat
  stop : Nat
  line : Nat
  deriving DecidableEq, Repr

/-- From the beginning of one span through the end of another. -/
def Span.to (first last : Span) : Span := ⟨first.start, last.stop, first.line⟩

/-- A position in source text: the bytes before it, and its line counted from one. -/
structure Place where
  offset : Nat
  line : Nat
  deriving DecidableEq, Repr

namespace Place

def first : Place := ⟨0, 1⟩

def step (p : Place) (c : Char) : Place :=
  ⟨p.offset + c.utf8Size, if c = '\n' then p.line + 1 else p.line⟩

def after (p : Place) (cs : List Char) : Place := cs.foldl step p

def spanTo (p q : Place) : Span := ⟨p.offset, q.offset, p.line⟩

theorem after_append (p : Place) (cs ds : List Char) : p.after (cs ++ ds) = (p.after cs).after ds :=
  List.foldl_append

/-- The offset counts the bytes of the text in between. -/
theorem offset_after (p : Place) (cs : List Char) :
    (p.after cs).offset = p.offset + (String.ofList cs).utf8ByteSize := by
  induction cs generalizing p with
  | nil => rfl
  | cons c cs ih =>
    have later : (p.after (c :: cs)).offset =
        (p.step c).offset + (String.ofList cs).utf8ByteSize := ih (p.step c)
    have split : String.ofList (c :: cs) = String.singleton c ++ String.ofList cs := by
      rw [String.singleton_eq_ofList, ← String.ofList_append, List.singleton_append]
    rw [later, split, String.utf8ByteSize_append, String.utf8ByteSize_singleton, step,
      Nat.add_assoc]

/-- The line counts the line ends in between. -/
theorem line_after (p : Place) (cs : List Char) :
    (p.after cs).line = p.line + cs.count '\n' := by
  induction cs generalizing p with
  | nil => rfl
  | cons c cs ih =>
    have later : (p.after (c :: cs)).line = (p.step c).line + cs.count '\n' := ih (p.step c)
    rw [later, step, List.count_cons]
    by_cases h : c = '\n' <;> simp [h, Nat.add_comm, Nat.add_left_comm]

theorem after_eq (p : Place) (cs : List Char) :
    p.after cs = ⟨p.offset + (String.ofList cs).utf8ByteSize, p.line + cs.count '\n'⟩ := by
  rw [← offset_after, ← line_after]

end Place

end Script
