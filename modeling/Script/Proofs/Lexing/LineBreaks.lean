import Script.Proofs.Grammar.Spans
import Script.Proofs.Lexing.Spacing

namespace Script

/-- A place as it is with so many bytes and lines of other text in front. -/
def Place.moved (bytes lines : Nat) (p : Place) : Place := ⟨p.offset + bytes, p.line + lines⟩

def Span.moved (bytes lines : Nat) (span : Span) : Span :=
  ⟨span.start + bytes, span.stop + bytes, span.line + lines⟩

/-- What a scan gives behind text of so many bytes and lines, of which `read` are the tokens. -/
def scanBehind (read : List Token) (bytes lines : Nat) (scan : Except Span (List Token)) :
    Except Span (List Token) :=
  (scan.map fun tokens => read ++ tokens.map (Token.mapSpan (·.moved bytes lines))).mapError
    (·.moved bytes lines)

variable {p q : Place} {c : Char} {cs gap slice rest left comment : List Char} {kind : TokenKind}
  {lexeme : String} {read tokens : List Token} {bytes lines outer : Nat}

theorem Place.after_moved (p : Place) (cs : List Char) :
    (p.moved bytes lines).after cs = (p.after cs).moved bytes lines := by
  rw [after_eq, after_eq]
  simp only [moved, Place.mk.injEq]
  omega

theorem Place.moved_first (cs : List Char) : first.after cs =
    first.moved (String.ofList cs).utf8ByteSize (cs.count '\n') := by
  rw [after_eq, moved]

theorem Scanned.moved (h : Scanned p cs read q left) (bytes lines : Nat) :
    Scanned (p.moved bytes lines) cs (read.map (Token.mapSpan (·.moved bytes lines)))
      (q.moved bytes lines) left := by
  induction h with
  | nil => exact .nil
  | cons layout first _ ih =>
    rw [← Place.after_moved] at ih
    have moved := Scanned.cons layout first ih
    rwa [Place.after_moved, Place.after_moved] at moved

theorem tokensFrom_moved (p : Place) (cs : List Char) :
    tokensFrom (p.moved bytes lines) cs = scanBehind [] bytes lines (tokensFrom p cs) := by
  cases scan : tokensFrom p cs with
  | ok tokens =>
    obtain ⟨read, q, gap, scanned, ends, rfl⟩ := tokensFrom_eq_ok_iff.mp scan
    refine tokensFrom_eq_ok_iff.mpr ⟨_, _, gap, scanned.moved bytes lines, ends, ?_⟩
    rw [Place.after_moved]
    exact List.map_append
  | error span =>
    obtain ⟨read, q, gap, rest, scanned, ends, unclosed, rfl⟩ := tokensFrom_eq_error_iff.mp scan
    refine tokensFrom_eq_error_iff.mpr
      ⟨_, _, gap, rest, scanned.moved bytes lines, ends, unclosed, ?_⟩
    rw [Place.after_moved, Place.after_moved]
    rfl

theorem map_scanBehind (scan : Except Span (List Token)) :
    (scanBehind [] bytes lines scan).map (read ++ ·) = scanBehind read bytes lines scan := by
  cases scan <;> rfl

/-- Tokens are read the same when the text goes on in a new line. -/
theorem Scanned.goesOn (h : Scanned p cs read q left) (more : List Char) :
    Scanned p (cs ++ '\n' :: more) read q (left ++ '\n' :: more) := by
  induction h with
  | nil => exact .nil
  | @cons p q gap slice rest left kind lexeme read layout first _ ih =>
    have layout : Gap (slice ++ (rest ++ '\n' :: more)) gap := layout.of_ends fun empty =>
      absurd (List.append_eq_nil_iff.mp empty).1 first.shape.ne_nil
    have first : Leads kind lexeme slice (rest ++ []) := by rwa [List.append_nil]
    have newline : ∀ c ∈ ('\n' :: more).head?, isBlank c := by simp [isBlank]
    rw [List.append_assoc, List.append_assoc]
    exact .cons layout (first.respace newline) ih

theorem Spacing.append_gap (h : Spacing cs) (layout : Gap rest gap) : Gap rest (cs ++ gap) := by
  induction h with
  | nil => exact layout
  | blank blank _ ih => exact .blank blank ih
  | line inside _ ih =>
    rw [List.cons_append, List.cons_append, List.append_assoc, List.cons_append]
    exact .line inside ih
  | block closed _ ih =>
    rw [List.cons_append, List.cons_append, List.append_assoc]
    exact .block closed ih

theorem skipLayout_spacing (h : Spacing gap) (p : Place) (cs : List Char) :
    skipLayout .code p (gap ++ cs) = skipLayout .code (p.after gap) cs := by
  obtain ⟨inner, rest, rfl, layout, stops⟩ := exists_gap cs
  rw [← List.append_assoc, skipLayout_gap (h.append_gap layout) stops, skipLayout_gap layout stops,
    Place.after_append]

theorem tokensFrom_spacing (h : Spacing gap) (p : Place) (cs : List Char) :
    tokensFrom p (gap ++ cs) = tokensFrom (p.after gap) cs := by
  rw [tokensFrom, tokensFrom, skipLayout_spacing h]

/-- Whether text ends in a block comment that is not closed, which holds `comment` so far. -/
def EndsInside (source : String) (comment : List Char) : Prop :=
  ∃ read q gap, Scanned .first source.toList read q (gap ++ '/' :: '*' :: comment) ∧
    Spacing gap ∧ NeverCloses 0 comment

theorem Gap.cases_last (h : Gap [] left) : Spacing (left ++ ['\n']) ∨
    ∃ gap comment, left = gap ++ '/' :: '*' :: comment ∧ Spacing gap ∧ NeverCloses 0 comment := by
  induction h with
  | nil => exact .inl (.blank rfl .nil)
  | blank blank _ ih =>
    rcases ih with spacing | ⟨gap, comment, rfl, spacing, unclosed⟩
    · exact .inl (.blank blank spacing)
    · exact .inr ⟨_ :: gap, comment, rfl, .blank blank spacing, unclosed⟩
  | @line line cs inside _ ih =>
    rcases ih with spacing | ⟨gap, comment, rfl, spacing, unclosed⟩
    · exact .inl (by simpa using Spacing.line inside spacing)
    · exact .inr ⟨_, comment, by simp, .line inside spacing, unclosed⟩
  | lastLine _ inside => exact .inl (.line inside .nil)
  | @block closed cs closes _ ih =>
    rcases ih with spacing | ⟨gap, comment, rfl, spacing, unclosed⟩
    · exact .inl (by simpa using Spacing.block closes spacing)
    · exact .inr ⟨_, comment, by simp, .block closes spacing, unclosed⟩
  | openBlock _ unclosed => exact .inr ⟨[], _, rfl, .nil, unclosed⟩

theorem CommentRest.getLast? (h : CommentRest outer comment) : comment.getLast? = some '/' := by
  induction h with
  | close => rfl
  | leave inner ih | nest inner ih =>
    rw [List.getLast?_cons_cons, List.getLast?_cons, ih]
    rfl
  | char _ _ inner ih =>
    rw [List.getLast?_cons, ih]
    rfl

variable {source next inside last : String}

theorem Scanned.tokenize_goesOn (h : Scanned .first source.toList read q left) :
    tokenize (source ++ "\n" ++ next) =
      (tokensFrom q (left ++ '\n' :: next.toList)).map (read ++ ·) := by
  have text : (source ++ "\n" ++ next).toList = source.toList ++ '\n' :: next.toList := by simp
  rw [tokenize, text, (h.goesOn next.toList).tokensFrom_eq]

/-- Where the rest of a source is layout as far as text behind the line end ends it, the tokens of
what follows are behind those of the source. -/
theorem Scanned.tokenize_behind (h : Scanned .first source.toList read q left)
    (spacing : Spacing (left ++ '\n' :: inside.toList)) :
    tokenize (source ++ "\n" ++ (inside ++ last)) =
      scanBehind read (source ++ "\n" ++ inside).utf8ByteSize
        ((source ++ "\n" ++ inside).toList.count '\n') (tokenize last) := by
  obtain ⟨done, split, rfl⟩ := h.place
  have text : left ++ '\n' :: (inside ++ last).toList =
      (left ++ '\n' :: inside.toList) ++ last.toList := by simp
  have front : done ++ (left ++ '\n' :: inside.toList) = (source ++ "\n" ++ inside).toList := by
    simp [split]
  rw [h.tokenize_goesOn, text, tokensFrom_spacing spacing, ← Place.after_append, front,
    Place.moved_first, tokensFrom_moved, map_scanBehind, String.ofList_toList, tokenize]

/-- The end of the input behind a source. -/
def Token.atEnd (source : String) : Token :=
  ⟨.endOfInput, "", ⟨source.utf8ByteSize, source.utf8ByteSize, 1 + source.toList.count '\n'⟩⟩

theorem EndsInside.dropLast (h : EndsInside source comment) (scan : tokenize source = .ok tokens) :
    ∃ q gap, Scanned .first source.toList tokens.dropLast q (gap ++ '/' :: '*' :: comment) ∧
      Spacing gap ∧ NeverCloses 0 comment := by
  obtain ⟨read, q, gap, scanned, spacing, unclosed⟩ := h
  have ends : Gap [] (gap ++ '/' :: '*' :: comment) := spacing.append_gap (.openBlock rfl unclosed)
  obtain rfl := Except.ok.inj
    (scan.symm.trans (tokensFrom_eq_ok_iff.mpr ⟨read, q, _, scanned, ends, rfl⟩))
  exact ⟨q, gap, by rwa [List.dropLast_concat], spacing, unclosed⟩

/-- A block comment that a source ends in goes on in the text behind it, and the tokens there are
what follows the comment. -/
theorem EndsInside.goesOn (h : EndsInside source comment) (scan : tokenize source = .ok tokens)
    (next : String) :
    (NeverCloses 0 (comment ++ '\n' :: next.toList) ∧
      tokenize (source ++ "\n" ++ next) =
        .ok (tokens.dropLast ++ [Token.atEnd (source ++ "\n" ++ next)])) ∨
    ∃ inside last, next = inside ++ last ∧ CommentRest 0 (comment ++ '\n' :: inside.toList) ∧
      tokenize (source ++ "\n" ++ next) =
        scanBehind tokens.dropLast (source ++ "\n" ++ inside).utf8ByteSize
          ((source ++ "\n" ++ inside).toList.count '\n') (tokenize last) := by
  obtain ⟨q, gap, scanned, spacing, unclosed⟩ := h.dropLast scan
  by_cases closes : ∃ front, front <+: comment ++ '\n' :: next.toList ∧ CommentRest 0 front
  · obtain ⟨front, hp, closed⟩ := closes
    obtain ⟨tail, rfl⟩ : comment <+: front :=
      (List.prefix_or_prefix_of_prefix hp (List.prefix_append ..)).resolve_left
        fun short => unclosed _ short closed
    cases tail with
    | nil => exact absurd closed (unclosed _ (by simp))
    | cons d tail =>
      obtain ⟨rfl, last, split⟩ :=
        List.cons_prefix_cons.mp ((List.prefix_append_right_inj comment).mp hp)
      obtain rfl : next = .ofList tail ++ .ofList last := by
        rw [← String.ofList_append, split, String.ofList_toList]
      have layout : Gap ['x'] _ := spacing.append_gap (.block closed .nil)
      have whole :
          Spacing (gap ++ '/' :: '*' :: comment ++ '\n' :: (String.ofList tail).toList) := by
        simpa using spacing_of_gap layout
      exact .inr ⟨_, _, rfl, by rwa [String.toList_ofList], scanned.tokenize_behind whole⟩
  · have never : NeverCloses 0 (comment ++ '\n' :: next.toList) :=
      fun front hp closed => closes ⟨front, hp, closed⟩
    have ends : Gap [] (gap ++ '/' :: '*' :: comment ++ '\n' :: next.toList) := by
      simpa using spacing.append_gap (.openBlock rfl never)
    have text : source.toList ++ '\n' :: next.toList = (source ++ "\n" ++ next).toList := by simp
    have all := scanned.goesOn next.toList
    rw [text] at all
    exact .inl ⟨never, tokensFrom_eq_ok_iff.mpr
      ⟨_, _, _, all, ends, by rw [all.end_span, Token.atEnd]⟩⟩

theorem EndsInside.hides (h : EndsInside source comment) (scan : tokenize source = .ok tokens) :
    tokenize (source ++ "\n" ++ "x") =
      .ok (tokens.dropLast ++ [Token.atEnd (source ++ "\n" ++ "x")]) := by
  rcases h.goesOn scan "x" with ⟨-, gives⟩ | ⟨inside, last, split, closed, -⟩
  · exact gives
  · have ends := closed.getLast?
    rw [List.getLast?_append, List.getLast?_cons] at ends
    have chars : ['x'] = inside.toList ++ last.toList := by
      rw [← String.toList_append, ← split]
      rfl
    rcases List.singleton_eq_append_iff.mp chars with ⟨empty, -⟩ | ⟨word, -⟩
    · simp [empty] at ends
    · simp [word] at ends

/-- Whatever comes behind a source in a new line is scanned by itself, its error included, exactly
if the source does not end inside a block comment. If it does, the comment goes on: all that follows
is part of it, or all up to where it is closed, and the rest is scanned by itself. -/
theorem tokenize_newline (scan : tokenize source = .ok tokens) :
    ((∀ next, tokenize (source ++ "\n" ++ next) = scanBehind tokens.dropLast
        (source.utf8ByteSize + 1) (source.toList.count '\n' + 1) (tokenize next)) ↔
      ∀ comment, ¬EndsInside source comment) ∧
    ∀ comment, EndsInside source comment → ∀ next,
      (NeverCloses 0 (comment ++ '\n' :: next.toList) ∧ tokenize (source ++ "\n" ++ next) =
        .ok (tokens.dropLast ++ [Token.atEnd (source ++ "\n" ++ next)])) ∨
      ∃ inside last, next = inside ++ last ∧ CommentRest 0 (comment ++ '\n' :: inside.toList) ∧
        tokenize (source ++ "\n" ++ next) =
          scanBehind tokens.dropLast (source ++ "\n" ++ inside).utf8ByteSize
            ((source ++ "\n" ++ inside).toList.count '\n') (tokenize last) := by
  refine ⟨⟨fun law comment ends => ?_, fun closed next => ?_⟩,
    fun comment ends next => ends.goesOn scan next⟩
  · have hidden := (law "x").symm.trans (ends.hides scan)
    have word : tokenize "x" =
        .ok [⟨.identifier, "x", ⟨0, 1, 1⟩⟩, ⟨.endOfInput, "", ⟨1, 1, 1⟩⟩] := by
      decide +kernel
    rw [word] at hidden
    have same := congrArg List.length (Except.ok.inj hidden)
    simp at same
  · obtain ⟨read, q, left, scanned, ends, rfl⟩ := tokensFrom_eq_ok_iff.mp scan
    rcases ends.cases_last with spacing | ⟨gap, comment, rfl, spacing, unclosed⟩
    · have gives := @Scanned.tokenize_behind q left read source "" next scanned spacing
      have bytes : (source ++ "\n").utf8ByteSize = source.utf8ByteSize + 1 :=
        String.utf8ByteSize_append
      have lines : (source ++ "\n").toList.count '\n' = source.toList.count '\n' + 1 := by
        simp
      rw [String.empty_append, String.append_empty, bytes, lines] at gives
      rwa [List.dropLast_concat]
    · exact absurd ⟨read, q, gap, scanned, spacing, unclosed⟩ (closed comment)

/-- A source that ends in a comment without a line end, behind a number that awaits an exponent, and
one that ends inside a string literal; and a source that ends inside a comment. -/
theorem tokenize_newline_exponent :
    (∀ comment, ¬EndsInside "a &/**/ 1e// \"" comment) ∧
    tokenize ("a &/**/ 1e// \"" ++ "\n" ++ "+5 \"é") =
      scanBehind [⟨.identifier, "a", ⟨0, 1, 1⟩⟩, ⟨.unknown, "&", ⟨2, 3, 1⟩⟩,
        ⟨.number, "1e", ⟨8, 10, 1⟩⟩] 15 1 (tokenize "+5 \"é") ∧
    tokenize "+5 \"é" = .error ⟨3, 6, 1⟩ ∧
    tokenize ("a &/**/ 1e// \"" ++ "\n" ++ "+5 \"é") = .error ⟨18, 21, 2⟩ ∧
    ∃ comment, EndsInside "a /*" comment := by
  have closed : tokenize "a &/**/ 1e// \"" = .ok [⟨.identifier, "a", ⟨0, 1, 1⟩⟩,
      ⟨.unknown, "&", ⟨2, 3, 1⟩⟩, ⟨.number, "1e", ⟨8, 10, 1⟩⟩,
      ⟨.endOfInput, "", ⟨14, 14, 1⟩⟩] := by
    decide +kernel
  have outside : ∀ comment, ¬EndsInside "a &/**/ 1e// \"" comment := fun comment ends =>
    absurd (ends.hides closed) (by decide +kernel)
  refine ⟨outside, (tokenize_newline closed).1.mpr outside _, by decide +kernel,
    by decide +kernel, ?_⟩
  have opened : tokenize "a /*" = .ok [⟨.identifier, "a", ⟨0, 1, 1⟩⟩,
      ⟨.endOfInput, "", ⟨4, 4, 1⟩⟩] := by
    decide +kernel
  by_contra none
  have law := (tokenize_newline opened).1.mpr (fun comment ends => none ⟨comment, ends⟩) "x"
  exact absurd law (by decide +kernel)

/-- A comment that is never closed is accepted, and the word in the next line is part of it. -/
theorem open_comment_hides_word : tokenize "/*" = .ok [⟨.endOfInput, "", ⟨2, 2, 1⟩⟩] ∧
    tokenize "x" = .ok [⟨.identifier, "x", ⟨0, 1, 1⟩⟩, ⟨.endOfInput, "", ⟨1, 1, 1⟩⟩] ∧
    tokenize ("/*" ++ "\n" ++ "x") = .ok [⟨.endOfInput, "", ⟨4, 4, 2⟩⟩] ∧
    tokenize ("/*" ++ "\n" ++ "x") ≠ scanBehind [] 3 1 (tokenize "x") := by
  decide +kernel

end Script
