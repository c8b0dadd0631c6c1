import Script.Proofs.ElementUpdate
import Script.Standard.Collections

namespace Script

namespace Value

/-- Iterating a value, counting its elements and reading one of them by an index agree that these
are its elements, in this order. The count is a signed 64-bit integer, which is enough for all that
a memory can hold. -/
structure HasElements (v : Value) (vs : List Value) : Prop where
  iterate : v.iterate = .ok vs
  len : ∃ n : Int64, Standard.len [v] = HostAction.ok (.int n) ∧
    (vs.length < 0x8000000000000000 → n.toInt = vs.length)
  index_inside : ∀ (i : Int64) (slot : Nat) (h : slot < vs.length), i.toInt = slot →
    v.index (int i) = .ok vs[slot]
  index_outside : ∀ i : Int64, i.toInt < 0 ∨ vs.length ≤ i.toInt →
    v.index (int i) = .error (.indexOutOfBounds i vs.length)

/-- An index of an array is written to exactly where it is read, and nothing else is touched: what
has been written is read back, to write what is there changes nothing, the second of two writes
wins, and writes to different indices do not depend on their order. -/
structure WritesAsRead (vs : List Value) (i : Int64) : Prop where
  fails : ∀ new error, (array vs).withElement (int i) new = .error error ↔
    (array vs).index (int i) = .error error
  succeeds : ∀ old new, (array vs).index (int i) = .ok old → ∃ ws,
    (array vs).withElement (int i) new = .ok (array ws) ∧ ws.length = vs.length ∧
      (array ws).index (int i) = .ok new ∧
      ∀ j : Int64, j ≠ i → (array ws).index (int j) = (array vs).index (int j)
  unchanged : ∀ old, (array vs).index (int i) = .ok old →
    (array vs).withElement (int i) old = .ok (array vs)
  last_wins : ∀ first second,
    ((array vs).withElement (int i) first >>= (·.withElement (int i) second)) =
      (array vs).withElement (int i) second
  commutes : ∀ old new (j : Int64) new', (array vs).index (int i) = .ok old → j ≠ i →
    ((array vs).withElement (int i) new >>= (·.withElement (int j) new')) =
      ((array vs).withElement (int j) new' >>= (·.withElement (int i) new))

variable {v : Value} {vs : List Value} {i j : Int64} {slot : Nat} {old new new' : Value}

theorem position?_of_outside {length : Nat} (outside : i.toInt < 0 ∨ length ≤ i.toInt) :
    position? i length = none := by
  rw [position?, if_neg (by omega)]

theorem index_array_of_outside (outside : i.toInt < 0 ∨ vs.length ≤ i.toInt) :
    (array vs).index (int i) = .error (.indexOutOfBounds i vs.length) := by
  simp only [index, position?_of_outside outside, Option.bind_none]

theorem hasElements_array (vs : List Value) : (array vs).HasElements vs where
  iterate := rfl
  len := ⟨Int64.ofNat vs.length, rfl, Int64.toInt_ofNat_of_lt⟩
  index_inside _ _ inside named := index_array named (List.getElem?_eq_getElem inside)
  index_outside _ := index_array_of_outside

theorem index_string {s : String} {c : Char} (named : i.toInt = slot)
    (there : s.toList[slot]? = some c) : (string s).index (int i) = .ok (ofChar c) := by
  have inside : slot < s.length := by
    rw [← String.length_toList]
    exact (List.getElem?_eq_some_iff.mp there).1
  simp only [index, position?_of_eq named inside, there, Option.elim_some]

/-- A string is counted, iterated and indexed each in its own way, but by the same characters. -/
theorem hasElements_string (s : String) : (string s).HasElements (s.toList.map ofChar) where
  iterate := rfl
  len := by
    refine ⟨Int64.ofNat s.length, rfl, ?_⟩
    rw [List.length_map, String.length_toList]
    exact Int64.toInt_ofNat_of_lt
  index_inside i slot inside named := by
    rw [List.length_map] at inside
    rw [List.getElem_map, index_string named (List.getElem?_eq_getElem inside)]
  index_outside i outside := by
    rw [List.length_map, String.length_toList] at outside ⊢
    simp only [index, position?_of_outside outside]

theorem inside_or_outside (vs : List Value) (i : Int64) :
    (∃ slot element, i.toInt = ((slot : Nat) : Int) ∧ vs[slot]? = some element) ∨
      (i.toInt < 0 ∨ vs.length ≤ i.toInt) := by
  by_cases outside : i.toInt < 0 ∨ vs.length ≤ i.toInt
  · exact .inr outside
  · have inside : i.toInt.toNat < vs.length := by omega
    exact .inl ⟨i.toInt.toNat, _, by omega, List.getElem?_eq_getElem inside⟩

theorem withElement_of_outside (outside : i.toInt < 0 ∨ vs.length ≤ i.toInt) :
    (array vs).withElement (int i) new = .error (.indexOutOfBounds i vs.length) := by
  simp only [withElement, position?_of_outside outside]

theorem exists_slot_of_index (h : (array vs).index (int i) = .ok old) :
    ∃ slot : Nat, i.toInt = slot ∧ vs[slot]? = some old := by
  rcases inside_or_outside vs i with ⟨slot, element, named, there⟩ | outside
  · rw [index_array named there] at h
    obtain rfl := Except.ok.inj h
    exact ⟨slot, named, there⟩
  · rw [index_array_of_outside outside] at h
    cases h

theorem withElement_commutes (named : i.toInt = slot) (there : vs[slot]? = some old)
    (other : j ≠ i) :
    ((array vs).withElement (int i) new >>= (·.withElement (int j) new')) =
      ((array vs).withElement (int j) new' >>= (·.withElement (int i) new)) := by
  rw [withElement_array named there]
  change (array (vs.set slot new)).withElement (int j) new' = _
  rcases inside_or_outside vs j with ⟨slot', element, named', there'⟩ | outside
  · have apart : slot ≠ slot' := fun same =>
      other (Int64.toInt_inj.mp (by rw [named', named, same]))
    have kept : (vs.set slot new)[slot']? = some element := by rwa [List.getElem?_set_ne apart]
    have kept' : (vs.set slot' new')[slot]? = some old := by rwa [List.getElem?_set_ne apart.symm]
    rw [withElement_array named' there', withElement_array named' kept]
    change _ = (array (vs.set slot' new')).withElement (int i) new
    rw [withElement_array named kept', List.set_comm _ _ apart]
  · have outside' : j.toInt < 0 ∨ (vs.set slot new).length ≤ j.toInt := by
      rwa [List.length_set]
    rw [withElement_of_outside outside, withElement_of_outside outside', List.length_set]
    rfl

theorem writesAsRead (vs : List Value) (i : Int64) : WritesAsRead vs i where
  fails new error := by
    rcases inside_or_outside vs i with ⟨slot, element, named, there⟩ | outside
    · simp only [withElement_array named there, index_array named there, reduceCtorEq]
    · rw [withElement_of_outside outside, index_array_of_outside outside]
  succeeds old new h := by
    obtain ⟨slot, named, there⟩ := exists_slot_of_index h
    refine ⟨_, withElement_array named there, List.length_set, ?_, fun j other => ?_⟩
    · exact index_array named (getElem?_set_of_there there)
    · exact index_set_of_ne named fun same => other (int.inj same)
  unchanged old h := by
    obtain ⟨slot, named, there⟩ := exists_slot_of_index h
    obtain ⟨inside, rfl⟩ := List.getElem?_eq_some_iff.mp there
    rw [withElement_array named there, List.set_getElem_self]
  last_wins first second := by
    rcases inside_or_outside vs i with ⟨slot, element, named, there⟩ | outside
    · rw [withElement_array named there, withElement_array named there]
      change (array (vs.set slot first)).withElement (int i) second = _
      rw [withElement_array named (getElem?_set_of_there there), List.set_set]
    · rw [withElement_of_outside outside, withElement_of_outside outside]
      rfl
  commutes old new j new' h other := by
    obtain ⟨slot, named, there⟩ := exists_slot_of_index h
    exact withElement_commutes named there other

/-- The elements of a string are its characters, each a string of its own. To read and to iterate a
string or an array and to count its elements is about the same positions, and so is a write to an
array. -/
theorem elements_agree :
    (∀ s : String, (string s).HasElements (s.toList.map fun c => string (String.singleton c))) ∧
    ∀ vs : List Value, (array vs).HasElements vs ∧ ∀ i : Int64, WritesAsRead vs i :=
  ⟨hasElements_string, fun vs => ⟨hasElements_array vs, writesAsRead vs⟩⟩

theorem elements_agree_withAccent :
    (string "né").index (int 1) = .ok (string "é") ∧
    (string "né").index (int 2) = .error (.indexOutOfBounds 2 2) ∧
    (array [null, int 5]).index (int 1) = .ok (int 5) ∧ (0 : Int64) ≠ 1 ∧
    ((array [null, int 5]).withElement (int 1) null >>= (·.withElement (int 0) (int 7))) =
      ((array [null, int 5]).withElement (int 0) (int 7) >>= (·.withElement (int 1) null)) := by
  have text := elements_agree.1 "né"
  have list := elements_agree.2 [null, int 5]
  have five : (array [null, int 5]).index (int 1) = .ok (int 5) :=
    list.1.index_inside 1 1 (by decide) (by decide)
  exact ⟨text.index_inside 1 1 (by decide) (by decide), text.index_outside 2 (.inr (by decide)),
    five, by decide, (list.2 1).commutes (int 5) null 0 (int 7) five (by decide)⟩

end Value

end Script
