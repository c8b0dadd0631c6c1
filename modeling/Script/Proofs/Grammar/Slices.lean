import Script.Proofs.Grammar.Nodes
import Script.Proofs.Grammar.Spans
import Script.Proofs.Lexing.Partition

namespace Script

/-- A place in a source as it is in the text that begins where a span does. -/
def Place.relativeTo (p : Place) (base : Span) : Place :=
  ⟨p.offset - base.start, p.line - (base.line - 1)⟩

def Span.relativeTo (span base : Span) : Span :=
  ⟨span.start - base.start, span.stop - base.start, span.line - (base.line - 1)⟩

theorem Span.keepsEnds_relativeTo (base : Span) : KeepsEnds (·.relativeTo base) := ⟨fun _ _ => rfl⟩

variable {p q : Place} {cs gap slice rest left : List Char} {kind : TokenKind} {lexeme : String}
  {read as : List Token} {t : Token} {span base : Span}

theorem Place.relativeTo_after (start : base.start ≤ p.offset) (line : base.line ≤ p.line)
    (cs : List Char) : (p.relativeTo base).after cs = (p.after cs).relativeTo base := by
  rw [after_eq, after_eq]
  simp only [relativeTo, Place.mk.injEq]
  omega

theorem Leads.cut (h : Leads kind lexeme slice (rest ++ left)) : Leads kind lexeme slice rest := by
  have front : slice ++ rest <+: slice ++ (rest ++ left) := by
    rw [← List.append_assoc]
    exact List.prefix_append _ _
  exact ⟨beginsGap_of_front front h.stops, h.shape,
    fun kind lexeme other lx hp => h.longest kind lexeme other lx (hp.trans front)⟩

theorem Scanned.cut (h : Scanned p cs read q left) :
    ∃ done, cs = done ++ left ∧ Scanned p done read q [] := by
  induction h with
  | nil => exact ⟨[], rfl, .nil⟩
  | @cons p q gap slice rest left kind lexeme read layout first _ ih =>
    obtain ⟨done, rfl, scanned⟩ := ih
    have layout : Gap (slice ++ done) gap := layout.of_ends fun empty =>
      absurd (List.append_eq_nil_iff.mp empty).1 first.shape.ne_nil
    exact ⟨gap ++ (slice ++ done), by simp, .cons layout first.cut scanned⟩

theorem Scanned.begin (h : Scanned p cs (t :: read) q left) :
    ∃ gap text, cs = gap ++ text ∧ Scanned (p.after gap) text (t :: read) q left ∧
      t.span.start = (p.after gap).offset ∧ t.span.line = (p.after gap).line := by
  cases h with
  | @cons _ _ gap slice rest _ _ _ _ layout first others =>
    refine ⟨gap, slice ++ rest, rfl, ?_, rfl, rfl⟩
    rw [Place.after_append] at others ⊢
    exact .cons .nil first others

theorem Scanned.relativeTo (h : Scanned p cs read q left) (start : base.start ≤ p.offset)
    (line : base.line ≤ p.line) :
    Scanned (p.relativeTo base) cs (read.map (Token.mapSpan (·.relativeTo base)))
      (q.relativeTo base) left := by
  induction h with
  | nil => exact .nil
  | @cons p q gap slice rest left kind lexeme read layout first others ih =>
    have start' : base.start ≤ (p.after (gap ++ slice)).offset := by
      rw [Place.offset_after]
      omega
    have line' : base.line ≤ (p.after (gap ++ slice)).line := by
      rw [Place.line_after]
      omega
    have later := ih start' line'
    rw [← Place.relativeTo_after start line] at later
    have moved := Scanned.cons layout first later
    rwa [Place.relativeTo_after start line, Place.relativeTo_after start line] at moved

/-- Consecutive tokens of a source are all that there is in a slice of it, and their span is that of
the slice. -/
theorem Scanned.exists_slice {source : List Char} {front back : List Token}
    (h : Scanned .first source (front ++ (as ++ back)) q left) (covers : span.Covers as) :
    ∃ before text after, source = before ++ (text ++ after) ∧
      span = (Place.first.after before).spanTo (Place.first.after (before ++ text)) ∧
      ∃ r, Scanned (Place.first.after before) text as r [] := by
  obtain ⟨first, hf, last, hl, rfl⟩ := covers
  obtain ⟨r, mid, scanned, later⟩ := h.split
  obtain ⟨r', after, inside, -⟩ := later.split
  obtain ⟨rest, rfl⟩ := List.head?_eq_some_iff.mp hf
  obtain ⟨gap, behind, rfl, begins, start, line⟩ := inside.begin
  obtain ⟨done, rfl, rfl⟩ := scanned.place
  rw [← Place.after_append] at begins start line
  obtain ⟨text, rfl, all⟩ := begins.cut
  have stop : (Place.first.after ((done ++ gap) ++ text)).offset = last.span.stop := by
    obtain ⟨whole, split, rfl⟩ := all.place
    rw [Place.after_append, split, List.append_nil, all.offset, hl]
    rfl
  refine ⟨done ++ gap, text, after, by simp, ?_, r', all⟩
  rw [Span.to, Place.spanTo, start, line, stop]

/-- A slice of a source is scanned as its tokens. -/
theorem tokenize_slice {before text : List Char} {r : Place}
    (h : Scanned (Place.first.after before) text as r [])
    (hs : span.start = (Place.first.after before).offset)
    (hl : span.line = (Place.first.after before).line) :
    ∃ last, last.kind = .endOfInput ∧ tokenize (String.ofList text) =
      .ok (as.map (Token.mapSpan (·.relativeTo span)) ++ [last]) := by
  have moved := h.relativeTo (Nat.le_of_eq hs) (Nat.le_of_eq hl)
  have start : (Place.first.after before).relativeTo span = .first := by
    rw [Place.relativeTo, hs, hl, Place.line_after, Place.first]
    simp only [Place.mk.injEq]
    omega
  rw [start] at moved
  rw [tokenize, String.toList_ofList]
  exact ⟨_, rfl, tokensFrom_eq_ok_iff.mpr ⟨_, _, [], moved, .nil, rfl⟩⟩

theorem Stmt.endsBefore_endOfInput (s : Stmt) : s.endsBefore .endOfInput := by
  cases s with
  | var _ _ value | «return» _ value => cases value <;> rfl
  | _ => rfl

namespace Node

theorem Spelled.statement {node : Node} (h : node.Spelled as) : node.statement.Spelled as := by
  cases node with
  | expr => exact .expr h
  | stmt => exact h

/-- What is spelled by the tokens in a program is a program by itself. -/
theorem Spelled.parses {node : Node} (h : node.Spelled as)
    (fits : node.statement.every Stmt.fits Expr.fits) {before text : List Char} {r : Place}
    (scanned : Scanned (Place.first.after before) text as r [])
    (hs : node.span.start = (Place.first.after before).offset)
    (hl : node.span.line = (Place.first.after before).line) :
    parseProgram (String.ofList text) =
      .ok [node.statement.mapSpans (·.relativeTo node.span)] := by
  obtain ⟨last, kind, tokens⟩ := tokenize_slice scanned hs hl
  have ends : node.statement.EndsAt .endOfInput [] [] := .without (Stmt.endsBefore_endOfInput _)
  have alone : Program.Spelled [node.statement] as := by
    have spelled := Stmt.SpelledUpTo.cons h.statement ends .nil
    rwa [List.append_nil] at spelled
  have moved := alone.mapSpans (Span.keepsEnds_relativeTo node.span)
  have fits' : Program.fits (Stmt.mapSpansIn (·.relativeTo node.span) [node.statement]) := by
    rw [Program.fits_mapSpans, Program.fits, Stmt.everyIn, fits]
    rfl
  have parsed := parseTokens_of_spelled moved fits' kind
  simp only [parseProgram, tokens, parsed]
  rfl

variable {program : Program} {node part : Node}

theorem every_of_mem_parts {test : Stmt → Bool} {exprs : Expr → Bool}
    (h : node.statement.every test exprs) (hp : part ∈ node.parts)
    (exprs_pass : ∀ e, test (.expr e.span e)) : part.statement.every test exprs := by
  have pass {e : Expr} (he : e.every exprs) : (expr e).statement.every test exprs :=
    Bool.and_eq_true_iff.mpr ⟨exprs_pass e, he⟩
  cases node with
  | expr e =>
    obtain ⟨c, hc, rfl⟩ := List.mem_map.mp hp
    have whole := (Bool.and_eq_true_iff.mp h).2
    exact pass ((Expr.every_iff.mp whole).2 c hc)
  | stmt s =>
    obtain ⟨-, inExprs, inStmts⟩ := Stmt.every_iff.mp h
    rcases List.mem_append.mp hp with hp | hp
    · obtain ⟨e, he, rfl⟩ := List.mem_map.mp hp
      exact pass (inExprs e he)
    · obtain ⟨c, hc, rfl⟩ := List.mem_map.mp hp
      exact inStmts c hc

theorem Within.fits (h : Within program node) (fits : program.fits) :
    node.statement.every Stmt.fits Expr.fits := by
  induction h with
  | top h => exact Stmt.everyIn_iff.mp fits _ h
  | part _ hp ih => exact every_of_mem_parts ih hp fun _ => rfl

theorem Within.spelled (h : Within program node) (spelled : program.Spelled as) :
    ∃ bs, bs <:+: as ∧ node.Spelled bs := by
  induction h with
  | top h => exact (Stmt.SpelledUpTo.inOrder spelled).exists_of_mem (List.mem_map_of_mem h)
  | part _ hp ih =>
    obtain ⟨bs, inside, whole⟩ := ih
    obtain ⟨cs, inside', part⟩ := whole.parts.exists_of_mem hp
    exact ⟨cs, inside'.trans inside, part⟩

end Node

theorem Scanned.tokensOrdered (h : Scanned p cs read q left) : Token.Ordered read where
  apart := h.ordered
  proper _ ht := Nat.le_of_lt (h.start_lt_stop ht)

theorem parseProgram_eq_ok {source : String} {program : Program}
    (h : parseProgram source = .ok program) : ∃ read q gap,
      Scanned .first source.toList read q gap ∧ program.Spelled read ∧ program.fits := by
  unfold parseProgram at h
  split at h
  next => cases h
  next tokens scanned =>
    split at h
    next => cases h
    next parsed =>
      cases h
      obtain ⟨read, q, gap, all, -, rfl⟩ := tokensFrom_eq_ok_iff.mp scanned
      have inside : ∀ t ∈ read, t.kind ≠ .endOfInput := fun t ht => by
        obtain ⟨_, _, _, -, -, first⟩ := all.stands ht
        exact first.shape.kind_ne
      exact ⟨read, q, gap, all, parseTokens_spelled rfl inside parsed⟩

/-- Whether nodes lie inside a span, each behind the one before it. -/
structure Span.Encloses (span : Span) (nodes : List Node) : Prop where
  inside : ∀ node ∈ nodes, span.start ≤ node.span.start ∧ node.span.stop ≤ span.stop
  ordered : nodes.Pairwise fun n m => n.span.stop ≤ m.span.start

/-- Whether the spans of a program delimit its nodes in a source: the slice of a node is a program
by itself, which is that node and nothing else. -/
structure Program.Delimited (program : Program) (source : String) : Prop where
  ordered : (program.map Node.stmt).Pairwise fun n m => n.span.stop ≤ m.span.start
  nested : ∀ node : Node, node.Within program → node.span.Encloses node.parts
  slices : ∀ node : Node, node.Within program → ∃ before text after,
    source = before ++ text ++ after ∧ node.span = .behind before text ∧
      parseProgram text = .ok [node.statement.mapSpans (·.relativeTo node.span)]

theorem parseProgram_delimited {source : String} {program : Program}
    (h : parseProgram source = .ok program) : program.Delimited source := by
  obtain ⟨read, q, gap, scanned, spelled, fits⟩ := parseProgram_eq_ok h
  have ordered := scanned.tokensOrdered
  refine ⟨ordered.nodes (Stmt.SpelledUpTo.inOrder spelled), fun node within => ?_,
    fun node within => ?_⟩
  · obtain ⟨as, inside, own⟩ := within.spelled spelled
    have ordered := ordered.narrow inside
    refine ⟨fun part hp => ?_, ordered.nodes own.parts⟩
    obtain ⟨bs, inside', spelled'⟩ := own.parts.exists_of_mem hp
    exact ordered.inside own.covers spelled'.covers inside'
  · obtain ⟨as, ⟨front, back, rfl⟩, own⟩ := within.spelled spelled
    rw [List.append_assoc] at scanned
    obtain ⟨before, text, after, split, span, r, all⟩ := scanned.exists_slice own.covers
    refine ⟨.ofList before, .ofList text, .ofList after, ?_, ?_, ?_⟩
    · rw [← String.ofList_append, ← String.ofList_append, List.append_assoc, ← split,
        String.ofList_toList]
    · rw [span, Place.spanTo_first]
    · exact own.parses (within.fits fits) all (congrArg Span.start span) (congrArg Span.line span)

theorem parseProgram_delimited_nested :
    let source := "func f(a) \x7b // é\n if a \x7b return a[0] \x7d else if !a \x7b f(1); \x7d\n\x7d\n" ++
      "/* ü */ var s = \"é\n\"; s + (f(2) - 1)"
    let text := "func f ( a ) \x7b if a \x7b return a [ 0 ] ; \x7d else " ++
      "\x7b if ! a \x7b f ( 1 ) ; \x7d \x7d \x7d var s = \"é\n\" ; s + ( f ( 2 ) - 1 ) ;"
    ∃ program, parseProgram source = .ok program ∧ program.text = text ∧
      program.Delimited source := by
  intro source text
  have parses : (parseProgram source).toOption.map Program.text = some text := by decide +kernel
  cases parsed : parseProgram source with
  | error diagnostic =>
    rw [parsed] at parses
    cases parses
  | ok program =>
    rw [parsed] at parses
    exact ⟨program, rfl, Option.some.inj parses, parseProgram_delimited parsed⟩

end Script
