import Script.Token.Lexer

namespace Script

/-- What follows the opening mark of a block comment that lies in `outer` others, up to the mark
that closes the outermost of them. -/
inductive CommentRest : Nat → List Char → Prop where
  | close : CommentRest 0 ['*', '/']
  | leave {outer : Nat} {cs : List Char} (rest : CommentRest outer cs) :
    CommentRest (outer + 1) ('*' :: '/' :: cs)
  | nest {outer : Nat} {cs : List Char} (rest : CommentRest (outer + 1) cs) :
    CommentRest outer ('/' :: '*' :: cs)
  | char {outer : Nat} {c : Char} {cs : List Char} (noEnd : c = '*' → cs.head? ≠ some '/')
    (noStart : c = '/' → cs.head? ≠ some '*') (rest : CommentRest outer cs) :
    CommentRest outer (c :: cs)

/-- Whether a text does not close the block comment that it begins in. -/
def NeverCloses (outer : Nat) (cs : List Char) : Prop :=
  ∀ front, front <+: cs → ¬CommentRest outer front

/-- Whether text in front of `rest` is layout. Only at the end of the input may a line comment have
no line end and a block comment stay open. -/
inductive Gap (rest : List Char) : List Char → Prop where
  | nil : Gap rest []
  | blank {c : Char} {cs : List Char} (blank : isBlank c) (others : Gap rest cs) :
    Gap rest (c :: cs)
  | line {comment cs : List Char} (inside : '\n' ∉ comment) (others : Gap rest cs) :
    Gap rest ('/' :: '/' :: (comment ++ '\n' :: cs))
  | lastLine {comment : List Char} (ends : rest = []) (inside : '\n' ∉ comment) :
    Gap rest ('/' :: '/' :: comment)
  | block {comment cs : List Char} (closed : CommentRest 0 comment) (others : Gap rest cs) :
    Gap rest ('/' :: '*' :: (comment ++ cs))
  | openBlock {comment : List Char} (ends : rest = []) (unclosed : NeverCloses 0 comment) :
    Gap rest ('/' :: '*' :: comment)

/-- Whether the first thing in a text is layout. -/
def beginsGap : List Char → Bool
  | [] => false
  | c :: cs => isBlank c || c = '/' && (cs.head? = some '/' || cs.head? = some '*')

variable {p : Place} {outer : Nat} {c : Char} {cs comment rest gap : List Char}

theorem CommentRest.ne_nil (h : CommentRest outer comment) : comment ≠ [] := by
  cases h <;> simp

theorem NeverCloses.of_append {front : List Char} (h : NeverCloses outer (front ++ cs))
    {inner : Nat} (step : ∀ comment, CommentRest inner comment →
      CommentRest outer (front ++ comment)) : NeverCloses inner cs :=
  fun comment hc closed => h _ ((List.prefix_append_right_inj front).mpr hc) (step comment closed)

theorem NeverCloses.tail (noEnd : c = '*' → cs.head? ≠ some '/')
    (noStart : c = '/' → cs.head? ≠ some '*') (h : NeverCloses outer (c :: cs)) :
    NeverCloses outer cs := by
  rintro front hf closed
  have head : front.head? = cs.head? := by
    obtain ⟨d, ds, rfl⟩ := List.exists_cons_of_ne_nil closed.ne_nil
    obtain ⟨rest, rfl⟩ := hf
    rfl
  refine h (c :: front) (List.cons_prefix_cons.mpr ⟨rfl, hf⟩) (.char ?_ ?_ closed)
  · exact head ▸ noEnd
  · exact head ▸ noStart

theorem skipLayout_code (noLine : c = '/' → cs.head? ≠ some '/')
    (noBlock : c = '/' → cs.head? ≠ some '*') : skipLayout .code p (c :: cs) =
      if isBlank c then skipLayout .code (p.step c) cs else (p, c :: cs) := by
  conv => lhs; unfold skipLayout
  split <;> simp_all

theorem skipLayout_lineComment : skipLayout .lineComment p (c :: cs) =
    skipLayout (if c = '\n' then .code else .lineComment) (p.step c) cs := by
  conv => lhs; unfold skipLayout
  split <;> simp_all

theorem skipLayout_blockComment (noEnd : c = '*' → cs.head? ≠ some '/')
    (noStart : c = '/' → cs.head? ≠ some '*') : skipLayout (.blockComment outer) p (c :: cs) =
      skipLayout (.blockComment outer) (p.step c) cs := by
  conv => lhs; unfold skipLayout
  split <;> simp_all

theorem skipLayout_comment (closed : CommentRest outer comment) (p : Place) :
    skipLayout (.blockComment outer) p (comment ++ rest) =
      skipLayout .code (p.after comment) rest := by
  induction closed generalizing p with
  | close => rfl
  | leave _ ih => exact ih _
  | nest _ ih => exact ih _
  | @char outer c cs noEnd noStart inner ih =>
    obtain ⟨d, ds, rfl⟩ := List.exists_cons_of_ne_nil inner.ne_nil
    have step : skipLayout (.blockComment outer) p (c :: (d :: ds ++ rest)) =
        skipLayout (.blockComment outer) (p.step c) (d :: ds ++ rest) :=
      skipLayout_blockComment noEnd noStart
    exact step.trans (ih _)

theorem skipLayout_openComment (unclosed : NeverCloses outer cs) (p : Place) :
    skipLayout (.blockComment outer) p cs = (p.after cs, []) := by
  generalize hl : Layout.blockComment outer = layout
  fun_induction skipLayout layout p cs generalizing outer with
  | case1 => rfl
  | case2 | case3 | case4 | case5 | case6 => cases hl
  | case7 nested p rest ih =>
    obtain rfl := Layout.blockComment.inj hl
    exact ih (@NeverCloses.of_append _ _ ['/', '*'] unclosed _ fun _ => .nest) rfl
  | case8 p rest =>
    obtain rfl := Layout.blockComment.inj hl
    exact absurd .close (unclosed _ ⟨rest, rfl⟩)
  | case9 nested p rest ih =>
    obtain rfl := Layout.blockComment.inj hl
    exact ih (@NeverCloses.of_append _ _ ['*', '/'] unclosed _ fun _ => .leave) rfl
  | case10 nested p c rest noStart noEnd noEnd' ih =>
    obtain rfl := Layout.blockComment.inj hl
    refine ih (unclosed.tail ?_ ?_) rfl
    · rintro rfl h
      obtain ⟨rest, rfl⟩ := List.head?_eq_some_iff.mp h
      cases outer with
      | zero => exact noEnd _ rfl rfl rfl
      | succ outer => exact noEnd' _ _ rfl rfl rfl
    · rintro rfl h
      obtain ⟨rest, rfl⟩ := List.head?_eq_some_iff.mp h
      exact noStart _ rfl rfl

theorem skipLayout_line (inside : '\n' ∉ comment) (p : Place) :
    skipLayout .lineComment p (comment ++ '\n' :: rest) =
      skipLayout .code (p.after (comment ++ ['\n'])) rest := by
  induction comment generalizing p with
  | nil => rfl
  | cons c comment ih =>
    rw [List.cons_append, skipLayout_lineComment, if_neg (List.ne_of_not_mem_cons inside).symm]
    exact ih (List.not_mem_of_not_mem_cons inside) _

theorem skipLayout_lastLine (inside : '\n' ∉ comment) (p : Place) :
    skipLayout .lineComment p comment = (p.after comment, []) := by
  induction comment generalizing p with
  | nil => rfl
  | cons c comment ih =>
    rw [skipLayout_lineComment, if_neg (List.ne_of_not_mem_cons inside).symm]
    exact ih (List.not_mem_of_not_mem_cons inside) _

theorem skipLayout_blank (blank : isBlank c) :
    skipLayout .code p (c :: cs) = skipLayout .code (p.step c) cs := by
  have noSlash : c ≠ '/' := by
    rintro rfl
    cases blank
  rw [skipLayout_code (absurd · noSlash) (absurd · noSlash), if_pos blank]

theorem skipLayout_stops (stops : beginsGap cs = false) : skipLayout .code p cs = (p, cs) := by
  cases cs with
  | nil => rfl
  | cons c cs =>
    simp only [beginsGap, Bool.or_eq_false_iff, Bool.and_eq_false_iff, decide_eq_false_iff_not]
      at stops
    obtain ⟨noBlank, noSlash | ⟨noLine, noBlock⟩⟩ := stops
    · rw [skipLayout_code (absurd · noSlash) (absurd · noSlash), if_neg (by simp [noBlank])]
    · rw [skipLayout_code (fun _ => noLine) fun _ => noBlock, if_neg (by simp [noBlank])]

/-- Layout is passed over up to where it ends. -/
theorem skipLayout_gap (h : Gap rest gap) (stops : beginsGap rest = false) (p : Place) :
    skipLayout .code p (gap ++ rest) = (p.after gap, rest) := by
  induction h generalizing p with
  | nil => exact skipLayout_stops stops
  | blank blank _ ih => exact (skipLayout_blank blank).trans (ih _)
  | @line comment cs inside _ ih =>
    have text : '/' :: '/' :: (comment ++ '\n' :: cs) ++ rest =
        '/' :: '/' :: (comment ++ '\n' :: (cs ++ rest)) := by simp
    rw [text]
    calc
      _ = skipLayout .code ((p.after ['/', '/']).after (comment ++ ['\n'])) (cs ++ rest) :=
        skipLayout_line inside _
      _ = (p.after ('/' :: '/' :: (comment ++ '\n' :: cs)), rest) := by
        rw [ih, ← Place.after_append, ← Place.after_append]
        simp
  | lastLine ends inside =>
    subst ends
    rw [List.append_nil]
    exact skipLayout_lastLine inside _
  | @block comment cs closed _ ih =>
    have text :
        '/' :: '*' :: (comment ++ cs) ++ rest = '/' :: '*' :: (comment ++ (cs ++ rest)) := by
      simp
    rw [text]
    calc
      _ = skipLayout .code ((p.after ['/', '*']).after comment) (cs ++ rest) :=
        skipLayout_comment closed _
      _ = (p.after ('/' :: '*' :: (comment ++ cs)), rest) := by
        rw [ih, ← Place.after_append, ← Place.after_append]
        simp
  | openBlock ends unclosed =>
    subst ends
    rw [List.append_nil]
    exact skipLayout_openComment unclosed _

theorem cases_of_beginsGap (h : beginsGap cs) :
    (∃ c rest, cs = c :: rest ∧ isBlank c) ∨ (∃ rest, cs = '/' :: '/' :: rest) ∨
      ∃ rest, cs = '/' :: '*' :: rest := by
  cases cs with
  | nil => cases h
  | cons c cs =>
    simp only [beginsGap, Bool.or_eq_true, Bool.and_eq_true, decide_eq_true_eq] at h
    rcases h with blank | ⟨rfl, line | block⟩
    · exact .inl ⟨c, cs, rfl, blank⟩
    · obtain ⟨rest, rfl⟩ := List.head?_eq_some_iff.mp line
      exact .inr (.inl ⟨rest, rfl⟩)
    · obtain ⟨rest, rfl⟩ := List.head?_eq_some_iff.mp block
      exact .inr (.inr ⟨rest, rfl⟩)

/-- Every text begins with all the layout that there is in front of its first token. -/
theorem exists_gap (cs : List Char) :
    ∃ gap rest, cs = gap ++ rest ∧ Gap rest gap ∧ beginsGap rest = false := by
  cases begins : beginsGap cs with
  | false => exact ⟨[], cs, rfl, .nil, begins⟩
  | true =>
    rcases cases_of_beginsGap begins with ⟨c, cs, rfl, blank⟩ | ⟨cs, rfl⟩ | ⟨cs, rfl⟩
    · obtain ⟨gap, rest, rfl, layout, stops⟩ := exists_gap cs
      exact ⟨c :: gap, rest, rfl, .blank blank layout, stops⟩
    · by_cases ends : '\n' ∈ cs
      · obtain ⟨comment, cs, rfl, inside⟩ := List.eq_append_cons_of_mem ends
        obtain ⟨gap, rest, rfl, layout, stops⟩ := exists_gap cs
        exact ⟨_, rest, by simp, .line inside layout, stops⟩
      · exact ⟨_, [], (List.append_nil _).symm, .lastLine rfl ends, rfl⟩
    · by_cases closes : ∃ comment, comment <+: cs ∧ CommentRest 0 comment
      · obtain ⟨comment, ⟨cs, rfl⟩, closed⟩ := closes
        obtain ⟨gap, rest, rfl, layout, stops⟩ := exists_gap cs
        exact ⟨_, rest, by simp, .block closed layout, stops⟩
      · have unclosed : NeverCloses 0 cs := fun comment hc closed => closes ⟨comment, hc, closed⟩
        exact ⟨_, [], (List.append_nil _).symm, .openBlock rfl unclosed, rfl⟩
termination_by cs.length

theorem Gap.of_ends {other : List Char} (h : Gap rest gap) (ends : rest = [] → other = []) :
    Gap other gap := by
  induction h with
  | nil => exact .nil
  | blank blank _ ih => exact .blank blank ih
  | line inside _ ih => exact .line inside ih
  | lastLine empty inside => exact .lastLine (ends empty) inside
  | block closed _ ih => exact .block closed ih
  | openBlock empty unclosed => exact .openBlock (ends empty) unclosed

theorem beginsGap_of_front {front : List Char} (h : front <+: cs) (stops : beginsGap cs = false) :
    beginsGap front = false := by
  obtain ⟨rest, rfl⟩ := h
  rcases front with _ | ⟨c, _ | ⟨d, front⟩⟩
  · rfl
  · simp_all [beginsGap]
  · exact stops

end Script
