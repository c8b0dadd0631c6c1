import Script.Proofs.TextOrder
import Script.Value.Operators

namespace Script

namespace Value

mutual

/-- Whether a value is no double and holds none at any depth. -/
def floatFree : Value → Bool
  | float _ => false
  | array vs => floatFreeAll vs
  | _ => true

def floatFreeAll : List Value → Bool
  | [] => true
  | v :: vs => v.floatFree && floatFreeAll vs

end

/-- Whether two values are two integers or two strings. -/
def Comparable (a b : Value) : Prop := a.kind = b.kind ∧ (a.kind = .int ∨ a.kind = .string)

/-- Integers are ordered by size, strings lexicographically by their characters. -/
inductive Precedes : Value → Value → Prop where
  | int {a b : Int64} (less : a.toInt < b.toInt) : Precedes (int a) (int b)
  | string {s t : String} (less : List.Lex (· < ·) s.toList t.toList) :
    Precedes (string s) (string t)

/-- The comparisons other than `==` and `!=`. -/
def orderings : List BinaryOp := [.less, .lessEqual, .greater, .greaterEqual]

variable {a b c : Value} {as bs : List Value}

mutual

theorem equal_iff {a b : Value} (ha : a.floatFree) (hb : b.floatFree) :
    a.equal b = true ↔ a = b := by
  cases a with
  | array as =>
    cases b with
    | array bs => simpa only [equal, array.injEq] using equalAll_iff ha hb
    | _ => simp [equal]
  | float x => cases ha
  | _ =>
    cases b with
    | float y => cases hb
    | _ => simp [equal]

theorem equalAll_iff {as bs : List Value} (ha : floatFreeAll as) (hb : floatFreeAll bs) :
    equalAll as bs = true ↔ as = bs := by
  cases as with
  | nil => cases bs <;> simp [equalAll]
  | cons a as =>
    cases bs with
    | nil => simp [equalAll]
    | cons b bs =>
      simp only [floatFreeAll, Bool.and_eq_true] at ha hb
      simp only [equalAll, Bool.and_eq_true, List.cons.injEq, equal_iff ha.1 hb.1,
        equalAll_iff ha.2 hb.2]

end

theorem binary_eq_compare {op : BinaryOp} (ordering : op ∈ orderings) :
    binary op a b = compare op a b := by
  simp only [orderings, List.mem_cons, List.not_mem_nil, or_false] at ordering
  obtain rfl | rfl | rfl | rfl := ordering <;> rfl

theorem precedes_int {m n : Int64} : Precedes (int m) (int n) ↔ m.toInt < n.toInt := by
  constructor
  · rintro ⟨less⟩
    exact less
  · exact .int

theorem precedes_string {s t : String} : Precedes (string s) (string t) ↔ s < t := by
  constructor
  · rintro (_ | ⟨less⟩)
    exact less
  · exact .string

theorem string_lt_iff (s t : String) : s < t ↔ ¬t < s ∧ s ≠ t := by
  constructor
  · intro less
    exact ⟨String.lt_asymm less, fun same => String.lt_irrefl t (same ▸ less)⟩
  · rintro ⟨notAfter, different⟩
    exact ((Std.lt_trichotomy s t).resolve_right fun h => h.elim different notAfter)

/-- Two comparable values stand in one of three orders to each other, and the comparisons go by
it. -/
theorem Comparable.exists_ordering (h : Comparable a b) : ∃ o : Ordering,
    (∀ op ∈ orderings, binary op a b = .ok (bool (op.accepts o))) ∧
      (o = .lt ↔ Precedes a b) ∧ (o = .eq ↔ a = b) ∧ (o = .gt ↔ Precedes b a) := by
  obtain ⟨same, ordered⟩ := h
  cases a with
  | int m =>
    cases b with
    | int n =>
      refine ⟨Ord.compare m.toInt n.toInt, fun op ho => binary_eq_compare ho, ?_, ?_, ?_⟩
      · rw [Int.compare_eq_lt, precedes_int]
      · rw [Int.compare_eq_eq, Int64.toInt_inj, int.injEq]
      · rw [Int.compare_eq_gt, precedes_int]
    | _ => cases same
  | string s =>
    cases b with
    | string t =>
      refine ⟨Ord.compare s t, fun op ho => binary_eq_compare ho, ?_, ?_, ?_⟩
      · rw [precedes_string]
        exact compareOfLessAndEq_eq_lt
      · rw [Std.compare_eq_eq_iff_eq, string.injEq]
      · rw [precedes_string]
        exact compareOfLessAndEq_eq_gt_of_lt_iff_not_gt_and_ne string_lt_iff
    | _ => cases same
  | _ => simp [kind] at ordered

theorem binary_of_not_comparable (ha : a.floatFree) (hb : b.floatFree) (h : ¬Comparable a b)
    {op : BinaryOp} (ordering : op ∈ orderings) :
    binary op a b = .error (.binaryMismatch op a.kind b.kind) := by
  rw [binary_eq_compare ordering]
  cases a with
  | float x => cases ha
  | int m =>
    cases b with
    | float y => cases hb
    | int n => exact absurd ⟨rfl, .inl rfl⟩ h
    | _ => rfl
  | string s =>
    cases b with
    | string t => exact absurd ⟨rfl, .inr rfl⟩ h
    | _ => rfl
  | _ => cases b <;> rfl

theorem Precedes.comparable (h : Precedes a b) : Comparable a b := by
  cases h with
  | int => exact ⟨rfl, .inl rfl⟩
  | string => exact ⟨rfl, .inr rfl⟩

theorem Precedes.trans (h : Precedes a b) (h' : Precedes b c) : Precedes a c := by
  cases h with
  | int less =>
    cases h' with
    | int less' => exact .int (Int.lt_trans less less')
  | string less =>
    cases h' with
    | string less' => exact precedes_string.mpr (String.lt_trans less less')

theorem binary_less_iff (ha : a.floatFree) (hb : b.floatFree) :
    binary .less a b = .ok (bool true) ↔ Precedes a b := by
  by_cases h : Comparable a b
  · obtain ⟨o, answers, before, -⟩ := h.exists_ordering
    rw [answers .less (by decide), ← before]
    cases o <;> simp [BinaryOp.accepts]
  · rw [binary_of_not_comparable ha hb h (by decide)]
    exact iff_of_false nofun fun before => h before.comparable

/-- Values without doubles are equal exactly if they are the same. Of two integers or two strings
exactly one precedes the other or they are equal, and all comparisons agree on which it is; one that
precedes is transitive, and for strings the lexicographic order of the characters and that of the
bytes. No other two values stand in an order. -/
theorem comparisons_agree {a b : Value} (ha : a.floatFree) (hb : b.floatFree) :
    (∃ same : Bool, (same = true ↔ a = b) ∧ binary .equal a b = .ok (bool same) ∧
      binary .notEqual a b = .ok (bool !same)) ∧
    (Comparable a b → ∃ less same greater : Bool, less.toNat + same.toNat + greater.toNat = 1 ∧
      (less = true ↔ Precedes a b) ∧ (same = true ↔ a = b) ∧ (greater = true ↔ Precedes b a) ∧
      binary .less a b = .ok (bool less) ∧ binary .equal a b = .ok (bool same) ∧
      binary .greater a b = .ok (bool greater) ∧
      binary .lessEqual a b = .ok (bool (less || same)) ∧
      binary .greaterEqual a b = .ok (bool (greater || same))) ∧
    (¬Comparable a b → ∀ op ∈ orderings,
      binary op a b = .error (.binaryMismatch op a.kind b.kind)) ∧
    (∀ c : Value, c.floatFree → binary .less a b = .ok (bool true) →
      binary .less b c = .ok (bool true) → binary .less a c = .ok (bool true)) ∧
    ∀ s t : String, binary .less (string s) (string t) = .ok (bool true) ↔ utf8 s < utf8 t := by
  refine ⟨⟨a.equal b, equal_iff ha hb, rfl, rfl⟩, fun h => ?comparable,
    fun h op => binary_of_not_comparable ha hb h, fun c hc => ?transitive, fun s t => ?bytes⟩
  case comparable =>
    obtain ⟨o, answers, before, same, after⟩ := h.exists_ordering
    have equal : binary .equal a b = .ok (bool (o == .eq)) := by
      have agree : a.equal b = (o == .eq) := by
        rw [Bool.eq_iff_iff, equal_iff ha hb, ← same, beq_iff_eq]
      rw [← agree]
      rfl
    refine ⟨o == .lt, o == .eq, o == .gt, ?_, ?_, ?_, ?_, ?_, equal, ?_, ?_, ?_⟩
    · cases o <;> rfl
    · rw [beq_iff_eq, before]
    · rw [beq_iff_eq, same]
    · rw [beq_iff_eq, after]
    · rw [answers .less (by decide)]
      cases o <;> rfl
    · rw [answers .greater (by decide)]
      cases o <;> rfl
    · rw [answers .lessEqual (by decide)]
      cases o <;> rfl
    · rw [answers .greaterEqual (by decide)]
      cases o <;> rfl
  case transitive =>
    rw [binary_less_iff ha hb, binary_less_iff hb hc, binary_less_iff ha hc]
    exact .trans
  case bytes => rw [binary_less_iff rfl rfl, precedes_string, utf8_lt_iff, String.lt_iff]

theorem comparisons_agree_withAccent :
    Comparable (string "zo") (string "é") ∧ utf8 "zo" < utf8 "é" ∧
    binary .less (string "zo") (string "é") = .ok (bool true) ∧
    binary .notEqual (array [null, string "zo"]) (array [null, string "é"]) =
      .ok (bool true) ∧
    binary .less (array [null]) (string "é") =
      .error (.binaryMismatch .less .array .string) := by
  have bytes : utf8 "zo" < utf8 "é" := by decide +kernel
  have texts := comparisons_agree (a := string "zo") (b := string "é") rfl rfl
  have arrays := comparisons_agree (a := array [null, string "zo"])
    (b := array [null, string "é"]) rfl rfl
  have mixed := comparisons_agree (a := array [null]) (b := string "é") rfl rfl
  refine ⟨⟨rfl, .inr rfl⟩, bytes, ?_, ?_, ?_⟩
  · exact (texts.2.2.2.2 "zo" "é").mpr bytes
  · obtain ⟨same, equal, -, other⟩ := arrays.1
    have different : same = false := by
      rw [Bool.eq_false_iff, Ne, equal]
      simp
    rw [other, different]
    rfl
  · exact mixed.2.2.1 (fun same => nomatch same.1) .less (by decide)

end Value

end Script
