import Script.Proofs.Lexing.Lexeme

namespace Script

/-- Whether `slice` is the first token of the text that goes on with `rest`. -/
structure Leads (kind : TokenKind) (lexeme : String) (slice rest : List Char) : Prop where
  stops : beginsGap (slice ++ rest) = false
  shape : Lexeme kind lexeme slice
  longest : NoneLonger slice (slice ++ rest)

/-- Reading tokens from `p` on, each behind its layout, up to `q` in front of the text that is
left. -/
inductive Scanned : Place → List Char → List Token → Place → List Char → Prop where
  | nil {p : Place} {cs : List Char} : Scanned p cs [] p cs
  | cons {p q : Place} {gap slice rest left : List Char} {kind : TokenKind} {lexeme : String}
    {read : List Token} (layout : Gap (slice ++ rest) gap) (first : Leads kind lexeme slice rest)
    (others : Scanned (p.after (gap ++ slice)) rest read q left) :
    Scanned p (gap ++ (slice ++ rest))
      (⟨kind, lexeme, (p.after gap).spanTo (p.after (gap ++ slice))⟩ :: read) q left

variable {p q : Place} {c : Char} {cs gap slice rest left body text : List Char}
  {kind : TokenKind} {lexeme : String} {read tokens : List Token} {t : Token} {span : Span}

theorem NeverEnds.no_lexeme (h : NeverEnds cs) (lx : Lexeme kind lexeme slice) :
    ¬slice <+: '"' :: cs := by
  intro front
  obtain ⟨c, slice, rfl⟩ := List.exists_cons_of_ne_nil lx.ne_nil
  obtain ⟨rfl, behind⟩ := List.cons_prefix_cons.mp front
  obtain ⟨body, text, rfl, decoded, -, -⟩ := lx.of_quote
  cases (h body behind).symm.trans decoded

theorem Leads.scanToken_eq (h : Leads kind lexeme (c :: slice) rest) (p : Place) :
    scanToken p c (slice ++ rest) = .token
      ⟨kind, lexeme, p.spanTo (p.after (c :: slice))⟩ (p.after (c :: slice)) rest := by
  rcases scanToken_longest p c (slice ++ rest) with
    ⟨kind', lexeme', slice', rest', split, lx, longest, scanned⟩ | ⟨rfl, unclosed, -⟩
  · have before : slice' <+: c :: (slice ++ rest) := ⟨rest', split.symm⟩
    have behind : c :: slice <+: c :: (slice ++ rest) := ⟨rest, rfl⟩
    have same : slice'.length = (c :: slice).length :=
      Nat.le_antisymm (h.longest _ _ _ lx before) (longest _ _ _ h.shape behind)
    obtain rfl := (List.prefix_of_prefix_length_le before behind (Nat.le_of_eq same)).eq_of_length
      same
    obtain ⟨rfl, rfl⟩ := h.shape.unique lx
    obtain rfl := List.append_cancel_left (List.cons.inj split).2
    exact scanned
  · exact absurd ⟨rest, rfl⟩ (unclosed.no_lexeme h.shape)

theorem exists_leads (stops : beginsGap (c :: cs) = false) (closes : c = '"' → ¬NeverEnds cs) :
    ∃ kind lexeme slice rest, c :: cs = slice ++ rest ∧ Leads kind lexeme slice rest := by
  rcases scanToken_longest .first c cs with
    ⟨kind, lexeme, slice, rest, split, lx, longest, -⟩ | ⟨quote, unclosed, -⟩
  · exact ⟨kind, lexeme, slice, rest, split, split ▸ stops, lx, split ▸ longest⟩
  · exact absurd unclosed (closes quote)

/-- The scan comes to the end of the text or to a string literal that is never closed. -/
theorem exists_scanned (p : Place) (cs : List Char) :
    (∃ read q gap, Scanned p cs read q gap ∧ Gap [] gap) ∨
      ∃ read q gap rest, Scanned p cs read q (gap ++ '"' :: rest) ∧ Gap ('"' :: rest) gap ∧
        NeverEnds rest := by
  obtain ⟨gap, text, rfl, layout, stops⟩ := exists_gap cs
  cases text with
  | nil => exact .inl ⟨[], p, gap, by rw [List.append_nil]; exact .nil, layout⟩
  | cons c text =>
    by_cases unclosed : c = '"' ∧ NeverEnds text
    · obtain ⟨rfl, unclosed⟩ := unclosed
      exact .inr ⟨[], p, gap, text, .nil, layout, unclosed⟩
    · obtain ⟨kind, lexeme, slice, rest, split, first⟩ :=
        exists_leads stops fun quote ends => unclosed ⟨quote, ends⟩
      rw [split] at layout ⊢
      have shorter : rest.length < (gap ++ (slice ++ rest)).length := by
        have nonempty := List.length_pos_iff.mpr first.shape.ne_nil
        simp only [List.length_append]
        omega
      rcases exists_scanned (p.after (gap ++ slice)) rest with
        ⟨read, q, last, others, ends⟩ | ⟨read, q, last, rest', others, ends, never⟩
      · exact .inl ⟨_, q, last, .cons layout first others, ends⟩
      · exact .inr ⟨_, q, last, rest', .cons layout first others, ends, never⟩
termination_by cs.length
decreasing_by simpa [*] using shorter

theorem Scanned.tokensFrom_eq (h : Scanned p cs read q left) :
    tokensFrom p cs = (tokensFrom q left).map (read ++ ·) := by
  induction h with
  | @nil p cs => cases tokensFrom p cs <;> rfl
  | @cons p q gap slice rest left kind lexeme read layout first _ ih =>
    have skipped := skipLayout_gap layout first.stops p
    obtain ⟨c, slice, rfl⟩ := List.exists_cons_of_ne_nil first.shape.ne_nil
    have scanned := first.scanToken_eq (p.after gap)
    rw [← Place.after_append] at scanned
    rw [tokensFrom_cons skipped scanned, ih]
    cases tokensFrom q left <;> rfl

theorem tokensFrom_gap (h : Gap [] gap) : tokensFrom p gap =
    .ok [⟨.endOfInput, "", (p.after gap).spanTo (p.after gap)⟩] := by
  have skipped := skipLayout_gap h rfl p
  rw [List.append_nil] at skipped
  exact tokensFrom_end skipped

theorem tokensFrom_neverEnds (h : Gap ('"' :: rest) gap) (unclosed : NeverEnds rest) :
    tokensFrom p (gap ++ '"' :: rest) =
      .error ((p.after gap).spanTo (p.after (gap ++ '"' :: rest))) := by
  have skipped := skipLayout_gap h rfl p
  rw [Place.after_append]
  refine tokensFrom_unclosed skipped ?_
  rw [scanToken, if_pos rfl, scanString_unclosed unclosed]
  rfl

theorem tokensFrom_eq_ok_iff : tokensFrom p cs = .ok tokens ↔ ∃ read q gap,
    Scanned p cs read q gap ∧ Gap [] gap ∧
      tokens = read ++ [⟨.endOfInput, "", (q.after gap).spanTo (q.after gap)⟩] := by
  constructor
  · intro h
    rcases exists_scanned p cs with
      ⟨read, q, gap, scanned, ends⟩ | ⟨read, q, gap, rest, scanned, ends, unclosed⟩
    · rw [scanned.tokensFrom_eq, tokensFrom_gap ends] at h
      cases h
      exact ⟨read, q, gap, scanned, ends, rfl⟩
    · rw [scanned.tokensFrom_eq, tokensFrom_neverEnds ends unclosed] at h
      cases h
  · rintro ⟨read, q, gap, scanned, ends, rfl⟩
    rw [scanned.tokensFrom_eq, tokensFrom_gap ends]
    rfl

theorem tokensFrom_eq_error_iff : tokensFrom p cs = .error span ↔ ∃ read q gap rest,
    Scanned p cs read q (gap ++ '"' :: rest) ∧ Gap ('"' :: rest) gap ∧ NeverEnds rest ∧
      span = (q.after gap).spanTo (q.after (gap ++ '"' :: rest)) := by
  constructor
  · intro h
    rcases exists_scanned p cs with
      ⟨read, q, gap, scanned, ends⟩ | ⟨read, q, gap, rest, scanned, ends, unclosed⟩
    · rw [scanned.tokensFrom_eq, tokensFrom_gap ends] at h
      cases h
    · rw [scanned.tokensFrom_eq, tokensFrom_neverEnds ends unclosed] at h
      cases h
      exact ⟨read, q, gap, rest, scanned, ends, unclosed, rfl⟩
  · rintro ⟨read, q, gap, rest, scanned, ends, unclosed, rfl⟩
    rw [scanned.tokensFrom_eq, tokensFrom_neverEnds ends unclosed]
    rfl

theorem Scanned.split {front back : List Token} (h : Scanned p cs (front ++ back) q left) :
    ∃ r mid, Scanned p cs front r mid ∧ Scanned r mid back q left := by
  induction front generalizing p cs with
  | nil => exact ⟨p, cs, .nil, h⟩
  | cons t front ih =>
    cases h with
    | cons layout first others =>
      obtain ⟨r, mid, before, behind⟩ := ih others
      exact ⟨r, mid, .cons layout first before, behind⟩

theorem Scanned.place (h : Scanned p cs read q left) :
    ∃ done, cs = done ++ left ∧ q = p.after done := by
  induction h with
  | nil => exact ⟨[], rfl, rfl⟩
  | @cons p q gap slice rest left kind lexeme read _ _ _ ih =>
    obtain ⟨done, rfl, rfl⟩ := ih
    exact ⟨gap ++ (slice ++ done), by simp, by simp [Place.after_append]⟩

theorem Scanned.offset (h : Scanned p cs read q left) :
    q.offset = (read.getLast?.map (·.span.stop)).getD p.offset := by
  induction h with
  | nil => rfl
  | @cons p q gap slice rest left kind lexeme read _ _ _ ih =>
    rw [ih, List.getLast?_cons]
    cases read.getLast? <;> rfl

theorem Scanned.stands (h : Scanned p cs read q left) (ht : t ∈ read) :
    ∃ before slice after, cs = before ++ (slice ++ after) ∧
      t.span = (p.after before).spanTo (p.after (before ++ slice)) ∧
      Leads t.kind t.lexeme slice after := by
  obtain ⟨front, back, rfl⟩ := List.append_of_mem ht
  obtain ⟨r, mid, scanned, others⟩ := h.split
  obtain ⟨done, rfl, rfl⟩ := scanned.place
  cases others with
  | @cons _ _ gap slice rest _ _ _ _ _ first =>
    refine ⟨done ++ gap, slice, rest, by simp, ?_, first⟩
    simp only [Place.after_append]

theorem Scanned.le_start (h : Scanned p cs read q left) (ht : t ∈ read) :
    p.offset ≤ t.span.start := by
  obtain ⟨before, slice, after, -, hs, -⟩ := h.stands ht
  rw [hs, Place.spanTo, Place.offset_after]
  exact Nat.le_add_right _ _

theorem Scanned.ordered (h : Scanned p cs read q left) :
    read.Pairwise fun t u => t.span.stop ≤ u.span.start := by
  induction h with
  | nil => exact .nil
  | cons _ _ others ih => exact .cons (fun u hu => others.le_start hu) ih

theorem Scanned.start_lt_stop (h : Scanned p cs read q left) (ht : t ∈ read) :
    t.span.start < t.span.stop := by
  obtain ⟨before, slice, after, -, span, first⟩ := h.stands ht
  have bytes : (String.ofList slice).utf8ByteSize ≠ 0 := by
    simpa [String.utf8ByteSize_eq_zero_iff] using first.shape.ne_nil
  rw [span, Place.spanTo, Place.after_append, Place.offset_after _ slice]
  dsimp only
  omega

theorem Scanned.stops (h : Scanned p cs read q left) :
    read.Pairwise fun t u => t.span.stop < u.span.stop :=
  h.ordered.imp_of_mem fun _ hu apart => Nat.lt_of_le_of_lt apart (h.start_lt_stop hu)

/-- Between tokens that follow each other there is layout. -/
theorem Scanned.between {front back : List Token} (h : Scanned p cs (front ++ back) q left)
    (ends : Gap [] left) : ∃ before gap after, cs = before ++ (gap ++ after) ∧ Gap after gap ∧
      (p.after before).offset = (front.getLast?.map (·.span.stop)).getD p.offset ∧
      (p.after (before ++ gap)).offset =
        (back.head?.map (·.span.start)).getD (p.after cs).offset := by
  obtain ⟨r, mid, scanned, others⟩ := h.split
  obtain ⟨done, rfl, rfl⟩ := scanned.place
  cases others with
  | nil => exact ⟨done, left, [], by simp, ends, scanned.offset, rfl⟩
  | @cons _ _ gap slice rest _ _ _ _ layout =>
    refine ⟨done, gap, slice ++ rest, rfl, layout, scanned.offset, ?_⟩
    rw [Place.after_append]
    rfl

/-- The span of `slice` behind `before`, in bytes. -/
def Span.behind (before slice : String) : Span :=
  ⟨before.utf8ByteSize, (before ++ slice).utf8ByteSize, 1 + before.toList.count '\n'⟩

theorem Place.offset_first (cs : List Char) :
    (first.after cs).offset = (String.ofList cs).utf8ByteSize := by
  rw [offset_after, first, Nat.zero_add]

theorem Place.spanTo_first (before slice : List Char) :
    (first.after before).spanTo (first.after (before ++ slice)) =
      Span.behind (String.ofList before) (String.ofList slice) := by
  rw [spanTo, Span.behind, offset_first, offset_first, line_after, first, String.ofList_append,
    String.toList_ofList]

theorem Scanned.end_span {source : String} (h : Scanned .first source.toList read q gap) :
    (q.after gap).spanTo (q.after gap) =
      ⟨source.utf8ByteSize, source.utf8ByteSize, 1 + source.toList.count '\n'⟩ := by
  obtain ⟨done, split, rfl⟩ := h.place
  rw [← Place.after_append, ← split, Place.spanTo, Place.offset_first, Place.line_after,
    String.ofList_toList]
  rfl

end Script
