import Script.Program.Parser

namespace Script

theorem le_ofDigitChars {n : Nat} {cs : List Char} : n ≤ Nat.ofDigitChars 10 cs n := by
  rw [Nat.ofDigitChars_eq_ofDigitChars_zero]
  have grows : n ≤ 10 ^ cs.length * n := Nat.le_mul_of_pos_left n (Nat.pow_pos (by decide))
  omega

theorem readBelow?_of_digits {limit : Nat} {cs : List Char} (nonempty : cs ≠ [])
    (digits : ∀ c ∈ cs, c.isDigit) (h : Nat.ofDigitChars 10 cs 0 < limit) :
    readBelow? limit cs = some (Nat.ofDigitChars 10 cs 0) := by
  rw [readBelow?, if_neg (by simpa using nonempty)]
  clear nonempty
  generalize 0 = n at h ⊢
  induction cs generalizing n with
  | nil => rfl
  | cons c cs ih =>
    rw [Nat.ofDigitChars_cons] at h ⊢
    have next : 10 * n + digitValue c < limit := Nat.lt_of_le_of_lt le_ofDigitChars h
    rw [← ih (fun d hd => digits d (List.mem_cons_of_mem _ hd)) _ h, List.foldl_cons]
    congr 1
    simp only [Option.bind_some, digits c (by simp), next, decide_true, Bool.and_self, if_true]
    rfl

theorem readInt64?_toDigits {n : Nat} {i : Int64} (h : i.toInt = n) :
    readInt64? (Nat.toDigits 10 n) = some i := by
  have digits : ∀ c ∈ Nat.toDigits 10 n, c.isDigit := fun c hc =>
    Nat.isDigit_of_mem_toDigits (by decide) (by decide) hc
  have noSign : splitSign (Nat.toDigits 10 n) = (false, Nat.toDigits 10 n) := by
    unfold splitSign
    split
    next hd => simp [hd, Char.isDigit] at digits
    next hd => simp [hd, Char.isDigit] at digits
    next => rfl
  have small : Nat.ofDigitChars 10 (Nat.toDigits 10 n) 0 < 0x8000000000000001 := by
    have below := i.toInt_lt
    rw [Nat.ofDigitChars_ten_toDigits]
    omega
  have read := readBelow?_of_digits Nat.toDigits_ne_nil digits small
  rw [Nat.ofDigitChars_ten_toDigits] at read
  rw [readInt64?, noSign]
  change (readBelow? _ (Nat.toDigits 10 n)).bind _ = _
  rw [read, Option.bind_some, if_neg (by simp), ← h]
  exact int64?_toInt i

theorem toList_toString {i : Int64} (h : 0 ≤ i) :
    ∃ n : Nat, i.toInt = n ∧ (toString i.toInt).toList = Nat.toDigits 10 n := by
  have positive : 0 ≤ i.toInt := by simpa using Int64.le_iff_toInt_le.mp h
  obtain ⟨n, hn⟩ := Int.eq_ofNat_of_zero_le positive
  refine ⟨n, hn, ?_⟩
  rw [hn]
  change (Nat.repr n).toList = _
  rw [Nat.repr_eq_ofList_toDigits, String.toList_ofList]

theorem numberLiteral?_toString {i : Int64} (h : 0 ≤ i) :
    numberLiteral? (toString i.toInt) = some (.int i) := by
  obtain ⟨n, hn, text⟩ := toList_toString h
  have digits : ∀ c ∈ Nat.toDigits 10 n, c.isDigit := fun c hc =>
    Nat.isDigit_of_mem_toDigits (by decide) (by decide) hc
  have kept : (Nat.toDigits 10 n).filter (· != '_') = Nat.toDigits 10 n := by
    refine List.filter_eq_self.mpr fun c hc => ?_
    rw [bne_iff_ne]
    rintro rfl
    exact absurd (digits _ hc) (by decide)
  have whole : (Nat.toDigits 10 n).any (fun c => c == '.' || c == 'e' || c == 'E') = false := by
    refine List.any_eq_false.mpr fun c hc mark => ?_
    have digit := digits c hc
    simp only [Bool.or_eq_true, beq_iff_eq] at mark
    rcases mark with (rfl | rfl) | rfl <;> exact absurd digit (by decide)
  simp only [numberLiteral?, text, kept, whole, Bool.false_eq_true, if_false,
    readInt64?_toDigits hn, Option.map_some]

end Script
