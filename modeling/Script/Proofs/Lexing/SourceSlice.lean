import Script.Proofs.Lexing.Partition

namespace Script

/-- The bytes of a source from where a span starts to where it stops, if both are places between
characters and in this order. -/
def Span.slice? (source : String) (span : Span) : Option String :=
  if h : span.start ≤ span.stop ∧ (String.Pos.Raw.mk span.start).IsValid source ∧
      (String.Pos.Raw.mk span.stop).IsValid source then
    some (source.extract (source.pos _ h.2.1) (source.pos _ h.2.2))
  else none

theorem Span.slice?_behind (before slice after : String) :
    (Span.behind before slice).slice? (before ++ slice ++ after) = some slice := by
  have start : (String.Pos.Raw.mk before.utf8ByteSize).IsValid (before ++ slice ++ after) :=
    String.Pos.Raw.isValid_iff_exists_append.mpr
      ⟨before, slice ++ after, String.append_assoc .., rfl⟩
  have stop : (String.Pos.Raw.mk (before ++ slice).utf8ByteSize).IsValid
      (before ++ slice ++ after) :=
    String.Pos.Raw.isValid_iff_exists_append.mpr ⟨before ++ slice, after, rfl, rfl⟩
  have order : before.utf8ByteSize ≤ (before ++ slice).utf8ByteSize := by
    rw [String.utf8ByteSize_append]
    exact Nat.le_add_right _ _
  rw [slice?, dif_pos ⟨order, start, stop⟩, Option.some.injEq, ← String.toByteArray_inj]
  have bytes : (before.toByteArray ++ (slice.toByteArray ++ after.toByteArray)).extract
      (before.utf8ByteSize + 0) (before.utf8ByteSize + slice.utf8ByteSize) =
      slice.toByteArray :=
    (ByteArray.extract_append_size_add' rfl).trans (ByteArray.extract_append_eq_left rfl)
  rw [Nat.add_zero] at bytes
  simpa only [behind, String.toByteArray_extract, String.offset_pos, String.toByteArray_append,
    String.utf8ByteSize_append, ByteArray.append_assoc] using bytes

example : (Span.mk 1 3 1).slice? "aäb" = some "ä" ∧ (Span.mk 1 2 1).slice? "aäb" = none := by
  decide +kernel

/-- Every token is what the source has under its span. -/
theorem Scanned.slice? {source : String} {read : List Token} {q : Place} {left : List Char}
    {t : Token} (h : Scanned .first source.toList read q left) (ht : t ∈ read) :
    ∃ slice, t.span.slice? source = some slice ∧ Lexeme t.kind t.lexeme slice.toList := by
  obtain ⟨before, slice, after, split, span, first⟩ := h.stands ht
  refine ⟨.ofList slice, ?_, by rw [String.toList_ofList]; exact first.shape⟩
  rw [span, Place.spanTo_first, ← source.ofList_toList, split, ← List.append_assoc,
    String.ofList_append, String.ofList_append]
  exact Span.slice?_behind _ _ _

/-- A token with its lexeme cut out of the source. The text of a string literal is put together from
its characters instead. -/
def Token.cut? (source : String) (t : Token) : Option Token :=
  if t.kind = .string then some t
  else (t.span.slice? source).map fun lexeme => { t with lexeme := lexeme }

/-- The tokens of the text from `p` on, each of them cut out of the source; nothing if one of the
cuts is not in range or not between characters. -/
def cutFrom? (source : String) (p : Place) (cs : List Char) : Option (Except Span (List Token)) :=
  match _skipped : skipLayout .code p cs with
  | (q, []) => some (.ok [⟨.endOfInput, "", q.spanTo q⟩])
  | (q, c :: rest) =>
    match _scanned : scanToken q c rest with
    | .unclosed r => some (.error (q.spanTo r))
    | .token token r left =>
      match token.cut? source with
      | none => none
      | some token => (cutFrom? source r left).map (Except.map (token :: ·))
termination_by cs.length
decreasing_by
  have hs := skipLayout_length_le .code p cs
  have ht := scanToken_length_le _scanned
  simp only [_skipped, List.length_cons] at hs
  omega

theorem Lexeme.cut? {kind : TokenKind} {lexeme : String} {slice : List Char}
    (h : Lexeme kind lexeme slice) (before after : List Char) {span : Span}
    (behind : span = (Place.first.after before).spanTo (Place.first.after (before ++ slice))) :
    Token.cut? (.ofList (before ++ (slice ++ after))) ⟨kind, lexeme, span⟩ =
      some ⟨kind, lexeme, span⟩ := by
  have sliced : span.slice? (.ofList (before ++ (slice ++ after))) = some (.ofList slice) := by
    rw [behind, Place.spanTo_first, ← List.append_assoc, String.ofList_append,
      String.ofList_append]
    exact Span.slice?_behind _ _ _
  rcases h.of_kind with ⟨kind_ne, rfl⟩ | ⟨rfl, -⟩
  · rw [Token.cut?, if_neg kind_ne, sliced]
    rfl
  · rw [Token.cut?, if_pos rfl]

theorem cut?_of_scanned {before cs rest left : List Char} {q r : Place} {c : Char} {t : Token}
    (skipped : skipLayout .code (Place.first.after before) cs = (q, c :: rest))
    (scanned : scanToken q c rest = .token t r left) :
    t.cut? (.ofList (before ++ cs)) = some t ∧
      ∃ passed, before ++ cs = passed ++ left ∧ r = Place.first.after passed := by
  obtain ⟨gap, text, rfl, layout, stops⟩ := exists_gap cs
  obtain ⟨rfl, rfl⟩ := Prod.mk.inj ((skipLayout_gap layout stops _).symm.trans skipped)
  rcases scanToken_longest ((Place.first.after before).after gap) c rest with
    ⟨kind, lexeme, slice, behind, split, lexes, -, gives⟩ | ⟨-, -, gives⟩
  · cases gives.symm.trans scanned
    refine ⟨?_, before ++ (gap ++ slice), ?_, ?_⟩
    · rw [split, ← List.append_assoc]
      exact lexes.cut? (before ++ gap) left (by simp only [Place.after_append])
    · rw [split]
      simp only [List.append_assoc]
    · simp only [Place.after_append]
  · cases gives.symm.trans scanned

theorem cutFrom?_eq (before cs : List Char) :
    cutFrom? (.ofList (before ++ cs)) (Place.first.after before) cs =
      some (tokensFrom (Place.first.after before) cs) := by
  generalize source : String.ofList (before ++ cs) = text
  generalize place : Place.first.after before = p
  fun_induction cutFrom? text p cs generalizing before with
  | case1 p cs q skipped => rw [tokensFrom_end skipped]
  | case2 p cs q c rest skipped r scanned => rw [tokensFrom_unclosed skipped scanned]
  | case3 p cs q c rest skipped t r left scanned failed =>
    subst source place
    obtain ⟨cut, -⟩ := cut?_of_scanned skipped scanned
    cases failed.symm.trans cut
  | case4 p cs q c rest skipped t r left scanned t' cut' ih =>
    subst source place
    obtain ⟨cut, passed, split, rfl⟩ := cut?_of_scanned skipped scanned
    cases cut'.symm.trans cut
    rw [tokensFrom_cons skipped scanned, ih passed (by rw [split]) rfl]
    rfl

/-- Every lexeme that the scan of a text cuts out is in range and between characters, and it is the
one of the token. -/
theorem cutFrom?_first (source : String) :
    cutFrom? source .first source.toList = some (tokenize source) := by
  have cuts := cutFrom?_eq [] source.toList
  rwa [List.nil_append, String.ofList_toList] at cuts

end Script
