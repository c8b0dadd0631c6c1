import Mathlib.Data.List.Lex

namespace Script

/-- The bytes that a text is kept as. -/
def utf8 (s : String) : List UInt8 := s.toByteArray.data.toList

theorem utf8_eq (s : String) : utf8 s = s.toList.flatMap String.utf8EncodeChar := by
  rw [utf8, ← String.utf8Encode_toList, List.utf8Encode]
  simp

/-- Where two byte sequences differ first, the first one has the smaller byte. -/
def DiffersBelow (as bs : List UInt8) : Prop :=
  ∃ front a b rest rest', as = front ++ a :: rest ∧ bs = front ++ b :: rest' ∧ a < b

namespace DiffersBelow

variable {as bs : List UInt8} {m n : Nat}

theorem head (less : m < n) (bound : n < 256) :
    DiffersBelow (UInt8.ofNat m :: as) (UInt8.ofNat n :: bs) :=
  ⟨[], _, _, as, bs, rfl, rfl, (UInt8.ofNat_lt_iff_lt (Nat.lt_trans less bound) bound).mpr less⟩

theorem cons (same : m = n) (h : DiffersBelow as bs) :
    DiffersBelow (UInt8.ofNat m :: as) (UInt8.ofNat n :: bs) := by
  obtain ⟨front, a, b, rest, rest', rfl, rfl, less⟩ := h
  exact ⟨UInt8.ofNat m :: front, a, b, rest, rest', rfl, by rw [same]; rfl, less⟩

theorem append_lt (h : DiffersBelow as bs) (cs ds : List UInt8) : as ++ cs < bs ++ ds := by
  obtain ⟨front, a, b, rest, rest', rfl, rfl, less⟩ := h
  rw [List.append_assoc, List.append_assoc]
  exact List.Lex.append_left _ (.rel less) front

end DiffersBelow

section Continuations

variable {m n : Nat}

theorem differsBelow_one (less : m < n) (same : m / 64 = n / 64) :
    DiffersBelow [UInt8.ofNat (m % 64 + 128)] [UInt8.ofNat (n % 64 + 128)] :=
  .head (by omega) (by omega)

theorem differsBelow_two (less : m < n) (same : m / 4096 = n / 4096) :
    DiffersBelow [UInt8.ofNat (m / 64 % 64 + 128), UInt8.ofNat (m % 64 + 128)]
      [UInt8.ofNat (n / 64 % 64 + 128), UInt8.ofNat (n % 64 + 128)] := by
  rcases Nat.lt_or_ge (m / 64) (n / 64) with first | rest
  · exact .head (by omega) (by omega)
  · exact .cons (by omega) (differsBelow_one less (by omega))

theorem differsBelow_three (less : m < n) (same : m / 262144 = n / 262144) :
    DiffersBelow
      [UInt8.ofNat (m / 4096 % 64 + 128), UInt8.ofNat (m / 64 % 64 + 128),
        UInt8.ofNat (m % 64 + 128)]
      [UInt8.ofNat (n / 4096 % 64 + 128), UInt8.ofNat (n / 64 % 64 + 128),
        UInt8.ofNat (n % 64 + 128)] := by
  rcases Nat.lt_or_ge (m / 4096) (n / 4096) with first | rest
  · exact .head (by omega) (by omega)
  · exact .cons (by omega) (differsBelow_two less (by omega))

end Continuations

theorem utf8EncodeChar_differsBelow {c d : Char} (h : c < d) :
    DiffersBelow (String.utf8EncodeChar c) (String.utf8EncodeChar d) := by
  have less : c.val.toNat < d.val.toNat := h
  have valid : d.val.toNat < 0xd800 ∨ 0xdfff < d.val.toNat ∧ d.val.toNat < 0x110000 := d.valid
  simp only [String.utf8EncodeChar]
  generalize c.val.toNat = m at less
  generalize d.val.toNat = n at less valid
  repeat' split
  any_goals (refine .head ?_ ?_ <;> omega)
  · rcases Nat.lt_or_ge (m / 64) (n / 64) with first | rest
    · exact .head (by omega) (by omega)
    · exact .cons (by omega) (differsBelow_one less (by omega))
  · rcases Nat.lt_or_ge (m / 4096) (n / 4096) with first | rest
    · exact .head (by omega) (by omega)
    · exact .cons (by omega) (differsBelow_two less (by omega))
  · rcases Nat.lt_or_ge (m / 262144) (n / 262144) with first | rest
    · exact .head (by omega) (by omega)
    · exact .cons (by omega) (differsBelow_three less (by omega))

theorem flatMap_utf8EncodeChar_lt {cs ds : List Char} (h : cs < ds) :
    cs.flatMap String.utf8EncodeChar < ds.flatMap String.utf8EncodeChar := by
  induction h with
  | @nil d ds =>
    obtain ⟨byte, bytes, encoded⟩ : ∃ byte bytes, String.utf8EncodeChar d = byte :: bytes :=
      List.exists_cons_of_ne_nil String.utf8EncodeChar_ne_nil
    rw [List.flatMap_cons, encoded]
    exact .nil
  | rel less =>
    rw [List.flatMap_cons, List.flatMap_cons]
    exact (utf8EncodeChar_differsBelow less).append_lt _ _
  | cons _ ih =>
    rw [List.flatMap_cons, List.flatMap_cons]
    exact List.Lex.append_left _ ih _

/-- The order of texts by their bytes is the order by their characters. -/
theorem utf8_lt_iff {s t : String} : utf8 s < utf8 t ↔ s.toList < t.toList := by
  rw [utf8_eq, utf8_eq]
  constructor
  · intro less
    rcases Std.lt_trichotomy s.toList t.toList with before | same | after
    · exact before
    · rw [same] at less
      exact absurd less (List.lt_irrefl _)
    · exact absurd (flatMap_utf8EncodeChar_lt after) (List.lt_asymm less)
  · exact flatMap_utf8EncodeChar_lt

end Script
