import Script.Interpreter.Evaluation
import Script.Proofs.Checked.Values

namespace Script

namespace Value

/-- The element that a path of indices leads to, or how reading it fails. -/
def read (value : Value) (path : List Value) : Except OperationError Value :=
  path.foldlM index value

/-- A path of indices leads through arrays alone, and each of its indices is an integer that counts
an element of its array. -/
inductive Reaches : Value → List Value → Prop
  | here (value : Value) : Reaches value []
  | element {vs : List Value} {i : Int64} {slot : Nat} {element : Value} {path : List Value} :
    i.toInt = slot → vs[slot]? = some element → Reaches element path →
      Reaches (array vs) (int i :: path)

/-- The value at the end of a path is replaced by a new one, and with it the arrays on the way. -/
inductive Replaced (new : Value) : Value → List Value → Value → Prop
  | here (old : Value) : Replaced new old [] new
  | element {vs : List Value} {i : Int64} {slot : Nat} {element inner : Value}
      {path : List Value} :
    i.toInt = slot → vs[slot]? = some element → Replaced new element path inner →
      Replaced new (array vs) (int i :: path) (array (vs.set slot inner))

/-- Two paths go on from a common beginning with different indices. -/
def Leaves (path other : List Value) : Prop :=
  ∃ front index rest index' rest', path = front ++ index :: rest ∧
    other = front ++ index' :: rest' ∧ index ≠ index'

/-- An updated value differs from an old one in the element at the end of a path alone: that is new,
what other paths lead to is the same, and so are the lengths of the arrays on the way. -/
structure Updates (old : Value) (path : List Value) (new updated : Value) : Prop where
  read_back : ∀ rest, updated.read (path ++ rest) = new.read rest
  read_elsewhere : ∀ other, Leaves path other → updated.read other = old.read other
  same_lengths : ∀ front index rest, path = front ++ index :: rest → ∃ vs vs',
    old.read front = .ok (array vs) ∧ updated.read front = .ok (array vs') ∧
      vs'.length = vs.length

variable {vs : List Value} {i : Int64} {slot : Nat} {element new : Value}

theorem position?_of_eq {length : Nat} (named : i.toInt = slot) (inside : slot < length) :
    position? i length = some slot := by
  rw [position?, if_pos (by omega), named, Int.toNat_natCast]

theorem toInt_of_position? {length : Nat} (h : position? i length = some slot) :
    i.toInt = slot := by
  unfold position? at h
  split at h
  next bounds =>
    obtain rfl := Option.some.inj h
    omega
  next => cases h

theorem index_array (named : i.toInt = slot) (there : vs[slot]? = some element) :
    (array vs).index (int i) = .ok element := by
  have inside := (List.getElem?_eq_some_iff.mp there).1
  simp only [index, position?_of_eq named inside, Option.bind_some, there]

theorem withElement_array (named : i.toInt = slot) (there : vs[slot]? = some element) :
    (array vs).withElement (int i) new = .ok (array (vs.set slot new)) := by
  have inside := (List.getElem?_eq_some_iff.mp there).1
  simp only [withElement, position?_of_eq named inside]

theorem withElement_eq_ok {container index updated : Value}
    (h : container.withElement index new = .ok updated) :
    ∃ vs i slot element, container = array vs ∧ index = int i ∧ i.toInt = ((slot : Nat) : Int) ∧
      vs[slot]? = some element ∧ updated = array (vs.set slot new) := by
  unfold withElement at h
  split at h
  next vs i =>
    split at h
    next slot position =>
      have inside := lt_of_position? position
      exact ⟨vs, i, slot, vs[slot], rfl, rfl, toInt_of_position? position,
        List.getElem?_eq_getElem inside, (Except.ok.inj h).symm⟩
    next => cases h
  next => cases h

theorem index_set_of_ne {j : Value} (named : i.toInt = slot) (h : j ≠ int i) :
    (array (vs.set slot new)).index j = (array vs).index j := by
  cases j with
  | int k =>
    have other : k.toInt ≠ slot := fun same =>
      h (congrArg int (Int64.toInt_inj.mp (same.trans named.symm)))
    simp only [index, List.length_set]
    cases position : position? k vs.length with
    | none => rfl
    | some slot' =>
      have apart : slot ≠ slot' := fun same => other (by rw [toInt_of_position? position, same])
      simp only [Option.bind_some, List.getElem?_set_ne apart]
  | _ => rfl

theorem mapError_eq_ok {α ε ε' : Type} {x : Except ε α} {f : ε → ε'} {a : α} :
    x.mapError f = .ok a ↔ x = .ok a := by
  cases x with
  | error e =>
    change Except.error _ = _ ↔ _
    simp only [reduceCtorEq]
  | ok a =>
    change Except.ok _ = _ ↔ _
    simp only [Except.ok.injEq]

theorem bind_eq_ok {ε α β : Type} {x : Except ε α} {next : α → Except ε β} {b : β} :
    x >>= next = .ok b ↔ ∃ a, x = .ok a ∧ next a = .ok b := by
  cases x with
  | error e => simp [bind, Except.bind]
  | ok a => simp [bind, Except.bind]

theorem replaceAt_cons_cons {value index updated : Value} {span : Span} {p : Value × Span}
    {path : List (Value × Span)} :
    value.replaceAt new ((index, span) :: p :: path) = .ok updated ↔
      ∃ found, value.index index = .ok found ∧
        ∃ inner, found.replaceAt new (p :: path) = .ok inner ∧
          value.withElement index inner = .ok updated := by
  rw [replaceAt]
  · simp only [bind_eq_ok, mapError_eq_ok]
  · intro none
    cases none

theorem replaceAt_singleton {value index updated : Value} {span : Span} :
    value.replaceAt new [(index, span)] = .ok updated ↔
      value.withElement index new = .ok updated := by
  rw [replaceAt, mapError_eq_ok]

theorem replaceAt_array {span : Span} {path : List (Value × Span)} {inner : Value}
    (named : i.toInt = slot) (there : vs[slot]? = some element)
    (h : element.replaceAt new path = .ok inner) :
    (array vs).replaceAt new ((int i, span) :: path) = .ok (array (vs.set slot inner)) := by
  cases path with
  | nil =>
    obtain rfl := Except.ok.inj h
    exact replaceAt_singleton.mpr (withElement_array named there)
  | cons p path =>
    exact replaceAt_cons_cons.mpr
      ⟨element, index_array named there, inner, h, withElement_array named there⟩

theorem replaceAt_cons_eq_ok {value updated index : Value} {span : Span}
    {path : List (Value × Span)} (h : value.replaceAt new ((index, span) :: path) = .ok updated) :
    ∃ vs i slot element inner, value = array vs ∧ index = int i ∧ i.toInt = ((slot : Nat) : Int) ∧
      vs[slot]? = some element ∧ element.replaceAt new path = .ok inner ∧
      updated = array (vs.set slot inner) := by
  cases path with
  | nil =>
    obtain ⟨vs, i, slot, element, container, counted, named, there, set⟩ :=
      withElement_eq_ok (replaceAt_singleton.mp h)
    exact ⟨vs, i, slot, element, new, container, counted, named, there, rfl, set⟩
  | cons p path =>
    obtain ⟨found, read, inner, written, put⟩ := replaceAt_cons_cons.mp h
    obtain ⟨vs, i, slot, element, rfl, rfl, named, there, set⟩ := withElement_eq_ok put
    rw [index_array named there] at read
    obtain rfl := Except.ok.inj read
    exact ⟨vs, i, slot, element, inner, rfl, rfl, named, there, written, set⟩

theorem replaceAt_eq_ok_iff {value updated : Value} {path : List (Value × Span)} :
    value.replaceAt new path = .ok updated ↔ Replaced new value (path.map Prod.fst) updated := by
  induction path generalizing value updated with
  | nil =>
    constructor
    · rintro h
      obtain rfl := Except.ok.inj h
      exact .here value
    · rintro ⟨⟩
      rfl
  | cons p path ih =>
    obtain ⟨index, span⟩ := p
    constructor
    · intro h
      obtain ⟨vs, i, slot, element, inner, rfl, rfl, named, there, written, rfl⟩ :=
        replaceAt_cons_eq_ok h
      exact .element named there (ih.mp written)
    · rintro (_ | ⟨named, there, inner⟩)
      exact replaceAt_array named there (ih.mpr inner)

theorem Reaches.exists_replaced {value : Value} {path : List Value} (h : value.Reaches path)
    (new : Value) : ∃ updated, Replaced new value path updated := by
  induction h with
  | here value => exact ⟨new, .here value⟩
  | element named there _ ih =>
    obtain ⟨inner, replaced⟩ := ih
    exact ⟨_, .element named there replaced⟩

theorem Replaced.reaches {value updated : Value} {path : List Value}
    (h : Replaced new value path updated) : value.Reaches path := by
  induction h with
  | here old => exact .here old
  | element named there _ ih => exact .element named there ih

theorem read_cons {value index inner : Value} (h : value.index index = .ok inner)
    (path : List Value) : value.read (index :: path) = inner.read path := by
  rw [read, List.foldlM_cons, h]
  rfl

section Replaced

variable {old updated : Value} {path : List Value}

theorem getElem?_set_of_there (there : vs[slot]? = some element) :
    (vs.set slot new)[slot]? = some new :=
  List.getElem?_set_self (List.getElem?_eq_some_iff.mp there).1

theorem Replaced.read_append (h : Replaced new old path updated) (rest : List Value) :
    updated.read (path ++ rest) = new.read rest := by
  induction h with
  | here old => rfl
  | element named there _ ih =>
    rw [List.cons_append, read_cons (index_array named (getElem?_set_of_there there)), ih]

theorem Replaced.read_of_leaves (h : Replaced new old path updated) {other : List Value}
    (leaves : Leaves path other) : updated.read other = old.read other := by
  induction h generalizing other with
  | here old =>
    obtain ⟨front, index, rest, -, -, none, -, -⟩ := leaves
    simp at none
  | @element vs i slot element inner path named there _ ih =>
    obtain ⟨front, index, rest, index', rest', same, rfl, apart⟩ := leaves
    cases front with
    | nil =>
      obtain ⟨rfl, rfl⟩ := List.cons.inj same
      simp only [List.nil_append, read, List.foldlM_cons, index_set_of_ne named apart.symm]
    | cons first front =>
      obtain ⟨rfl, rfl⟩ := List.cons.inj same
      rw [List.cons_append, read_cons (index_array named (getElem?_set_of_there there)),
        read_cons (index_array named there)]
      exact ih ⟨front, index, rest, index', rest', rfl, rfl, apart⟩

theorem Replaced.same_lengths (h : Replaced new old path updated) {front rest : List Value}
    {index : Value} (way : path = front ++ index :: rest) :
    ∃ vs vs', old.read front = .ok (array vs) ∧ updated.read front = .ok (array vs') ∧
      vs'.length = vs.length := by
  induction h generalizing front with
  | here old => simp at way
  | @element vs i slot element inner path named there _ ih =>
    cases front with
    | nil => exact ⟨vs, _, rfl, rfl, List.length_set⟩
    | cons first front =>
      obtain ⟨rfl, rfl⟩ := List.cons.inj way
      rw [read_cons (index_array named there),
        read_cons (index_array named (getElem?_set_of_there there))]
      exact ih rfl

theorem Replaced.updates (h : Replaced new old path updated) : Updates old path new updated :=
  ⟨h.read_append, fun _ => h.read_of_leaves, fun _ _ _ => h.same_lengths⟩

end Replaced

end Value

end Script
