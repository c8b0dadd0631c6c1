namespace Script

/-- The 64-bit integer with a given value, if there is one. -/
def int64? (n : Int) : Option Int64 :=
  if -0x8000000000000000 ≤ n ∧ n < 0x8000000000000000 then some (Int64.ofInt n) else none

/-- The double next to an integer; of two equally near it is the one with the even mantissa. -/
def floatOfInt64 (n : Int64) : Float := .ofModel (.ofInt64 n)

theorem toInt_of_int64? {n : Int} {i : Int64} (h : int64? n = some i) : i.toInt = n := by
  unfold int64? at h
  split at h
  next hn =>
    cases h
    exact Int64.toInt_ofInt_of_le (by simpa using hn.1) (by simpa using hn.2)
  next => cases h

theorem int64?_toInt (i : Int64) : int64? i.toInt = some i := by
  rw [int64?, if_pos ⟨i.le_toInt, i.toInt_lt⟩, Int64.ofInt_toInt]

theorem int64?_eq_some_iff {n : Int} {i : Int64} : int64? n = some i ↔ i.toInt = n :=
  ⟨toInt_of_int64?, fun h => h ▸ int64?_toInt i⟩

theorem int64?_eq_none_iff {n : Int} :
    int64? n = none ↔ n < -0x8000000000000000 ∨ 0x8000000000000000 ≤ n := by
  unfold int64?
  split
  next hn => simp only [reduceCtorEq, false_iff]; omega
  next hn => simp only [true_iff]; omega

end Script
