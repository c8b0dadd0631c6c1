import Script.Interpreter.Evaluation

namespace Script

namespace Value

/-- The element at an index. Characters of a string are looked for rather than taken out. -/
def index? (target index : Value) : Option (Except OperationError Value) :=
  match target, index with
  | array vs, int i =>
    match position? i vs.length with
    | some slot => vs[slot]?.map .ok
    | none => some (.error (.indexOutOfBounds i vs.length))
  | _, _ => some (target.index index)

def withElement? (target index element : Value) : Option (Except OperationError Value) :=
  match target, index with
  | array vs, int i =>
    match position? i vs.length with
    | some slot => if slot < vs.length then some (.ok (array (vs.set slot element))) else none
    | none => some (.error (.indexOutOfBounds i vs.length))
  | _, _ => some (target.withElement index element)

theorem lt_of_position? {i : Int64} {length slot : Nat} (h : position? i length = some slot) :
    slot < length := by
  unfold position? at h
  split at h
  next bounds =>
    obtain rfl := Option.some.inj h
    omega
  next => cases h

theorem index?_eq (target index : Value) : target.index? index = some (target.index index) := by
  unfold index?
  split
  next vs i =>
    cases named : position? i vs.length with
    | none => simp [Value.index, named]
    | some slot =>
      have inside : slot < vs.length := lt_of_position? named
      simp [Value.index, named, inside]
  next => rfl

theorem withElement?_eq (target index element : Value) :
    target.withElement? index element = some (target.withElement index element) := by
  unfold withElement?
  split
  next vs i =>
    cases named : position? i vs.length with
    | none => simp [withElement, named]
    | some slot =>
      have inside : slot < vs.length := lt_of_position? named
      simp [withElement, named, inside]
  next => rfl

/-- A result or an error with the span of its index, or nothing where a position is missing. -/
abbrev Placed : Type → Type := ExceptT (OperationError × Span) Option

namespace Placed

variable {α β : Type}

/-- The result of an operation that finds all positions. -/
def found (result : Except (OperationError × Span) α) : Placed α := ExceptT.mk (some result)

theorem found_bind (x : Except (OperationError × Span) α)
    (next : α → Except (OperationError × Span) β) :
    found (x >>= next) = found x >>= fun a => found (next a) := by
  cases x <;> rfl

/-- Places the error of an operation. -/
def of (span : Span) (result : Option (Except OperationError α)) : Placed α :=
  ExceptT.mk (result.map (·.mapError (·, span)))

end Placed

/-- All but the last of several items. -/
def allButLast? {α : Type} (items : List α) : Option (List α) :=
  if 0 < items.length then some (items.take (items.length - 1)) else none

/-- The values that a path of indices leads through, and the one that it leads to. -/
def along (value : Value) : List (Value × Span) → Placed (List Value)
  | [] => pure [value]
  | (index, span) :: path => do
    let inner ← Placed.of span (value.index? index)
    let others ← inner.along path
    pure (value :: others)

/-- Puts a new value into the innermost of containers, that one into the next, and so on. -/
def rebuild (new : Value) (places : List (Value × Value × Span)) : Placed Value :=
  places.foldlM (fun new (container, index, span) =>
    Placed.of span (container.withElement? index new)) new

/-- Replaces the element that a path of indices leads to. -/
def replaceAt? (value new : Value) (path : List (Value × Span)) : Placed Value :=
  if path.isEmpty then pure new
  else do
    let front ← (allButLast? path : Option (List (Value × Span)))
    let containers ← value.along front
    rebuild new (containers.zip path).reverse

theorem along_bind_rebuild (value new : Value) (p : Value × Span) (path : List (Value × Span)) :
    (value.along (p :: path).dropLast >>= fun containers =>
      rebuild new (containers.zip (p :: path)).reverse) =
      Placed.found (value.replaceAt new (p :: path)) := by
  induction path generalizing value p with
  | nil =>
    obtain ⟨index, span⟩ := p
    simp only [List.dropLast_singleton, along, pure_bind, List.zip_cons_cons, List.zip_nil_left,
      List.reverse_singleton, rebuild, List.foldlM_cons, List.foldlM_nil, bind_pure, replaceAt,
      withElement?_eq]
    rfl
  | cons q path ih =>
    obtain ⟨index, span⟩ := p
    have split (containers : List Value) :
        rebuild new ((value :: containers).zip ((index, span) :: q :: path)).reverse =
          rebuild new (containers.zip (q :: path)).reverse >>= fun updated =>
            Placed.found ((value.withElement index updated).mapError (·, span)) := by
      simp only [rebuild, List.zip_cons_cons, List.reverse_cons, List.foldlM_append,
        List.foldlM_cons, List.foldlM_nil, bind_pure, withElement?_eq]
      rfl
    have down : Placed.of span (value.index? index) =
        Placed.found ((value.index index).mapError (·, span)) := by
      rw [index?_eq]
      rfl
    simp only [List.dropLast_cons_cons, along, bind_assoc, pure_bind, split, down, replaceAt,
      Placed.found_bind]
    simp only [← bind_assoc, ih]

theorem replaceAt?_eq (value new : Value) (path : List (Value × Span)) :
    value.replaceAt? new path = Placed.found (value.replaceAt new path) := by
  cases path with
  | nil => rfl
  | cons p path =>
    have front : allButLast? (p :: path) = some (p :: path).dropLast := by
      rw [allButLast?, if_pos (by simp), List.dropLast_eq_take]
    rw [replaceAt?, front]
    exact along_bind_rebuild value new p path

end Value

end Script
