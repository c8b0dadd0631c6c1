import Mathlib.Data.List.TakeWhile
import Script.Report

namespace Script

def isParameter (c : Char) : Bool := c.isDigit || c == ';'

/-- A sequence of characters that sets how a terminal shows the text after it. -/
def IsEscape (cs : List Char) : Prop :=
  ∃ parameters, (∀ c ∈ parameters, isParameter c) ∧ cs = '\x1b' :: '[' :: (parameters ++ ['m'])

/-- What follows the escape sequence that a text begins with, if it begins with one. -/
def afterEscape? : List Char → Option (List Char)
  | '\x1b' :: '[' :: cs =>
    match cs.dropWhile isParameter with
    | 'm' :: rest => some rest
    | _ => none
  | _ => none

theorem afterEscape?_eq_some_iff {cs rest : List Char} :
    afterEscape? cs = some rest ↔ ∃ sequence, IsEscape sequence ∧ cs = sequence ++ rest := by
  constructor
  · intro h
    unfold afterEscape? at h
    split at h
    next cs =>
      split at h
      next rest' stop =>
        obtain rfl := Option.some.inj h
        refine ⟨_, ⟨cs.takeWhile isParameter, fun c hc => List.mem_takeWhile_imp hc, rfl⟩, ?_⟩
        have whole : cs.takeWhile isParameter ++ 'm' :: rest' = cs := by
          rw [← stop, List.takeWhile_append_dropWhile]
        simp [whole]
      next => simp at h
    next => simp at h
  · rintro ⟨_, ⟨parameters, digits, rfl⟩, rfl⟩
    have stop : (parameters ++ 'm' :: rest).dropWhile isParameter = 'm' :: rest := by
      rw [List.dropWhile_append_of_pos digits, List.dropWhile_cons_of_neg (by decide)]
    simp [afterEscape?, stop]

theorem afterEscape?_append {sequence : List Char} (h : IsEscape sequence) (rest : List Char) :
    afterEscape? (sequence ++ rest) = some rest :=
  afterEscape?_eq_some_iff.mpr ⟨sequence, h, rfl⟩

theorem IsEscape.unique {one other rest rest' : List Char} (h : IsEscape one) (h' : IsEscape other)
    (same : one ++ rest = other ++ rest') : one = other ∧ rest = rest' := by
  have left := afterEscape?_append h rest
  have right := afterEscape?_append h' rest'
  rw [same, right] at left
  obtain rfl := Option.some.inj left
  exact ⟨List.append_cancel_right same, rfl⟩

theorem IsEscape.beyond {sequence text rest before after : List Char} (h : IsEscape sequence)
    (plain : '\x1b' ∉ text) (same : text ++ rest = before ++ (sequence ++ after)) :
    ∃ before', rest = before' ++ (sequence ++ after) := by
  obtain ⟨parameters, -, rfl⟩ := h
  rcases List.append_eq_append_iff.mp same with ⟨before', -, hr⟩ | ⟨inside, ht, hr⟩
  · exact ⟨before', hr⟩
  · cases inside with
    | nil => exact ⟨[], hr.symm⟩
    | cons c inside =>
      obtain rfl : '\x1b' = c := (List.cons.inj hr).1
      exact absurd (ht ▸ by simp) plain

namespace Report

/-- A line of a report, with the piece of it that is in a colour. -/
structure Line where
  before : String
  colour : Colour
  piece : String
  after : String

namespace Line

def text (colours : Bool) (line : Line) : String :=
  line.before ++ paint colours line.colour line.piece ++ line.after

end Line

def joined (colours : Bool) (lines : List Line) : String :=
  String.join ((lines.map (Line.text colours)).map (· ++ "\n"))

section Lacking

variable {c : Char} (control : c.toNat < 0x20)
include control

end Lacking

end Report

end Script
