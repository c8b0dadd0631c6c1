import Mathlib.Data.List.Forall2
import Script.Proofs.Lexing.SourceSlice

namespace Script

/-- Blanks, line comments with their line ends and closed block comments. -/
inductive Spacing : List Char → Prop where
  | nil : Spacing []
  | blank {c : Char} {cs : List Char} (blank : isBlank c) (others : Spacing cs) : Spacing (c :: cs)
  | line {comment cs : List Char} (inside : '\n' ∉ comment) (others : Spacing cs) :
    Spacing ('/' :: '/' :: (comment ++ '\n' :: cs))
  | block {comment cs : List Char} (closed : CommentRest 0 comment) (others : Spacing cs) :
    Spacing ('/' :: '*' :: (comment ++ cs))

variable {p q : Place} {c : Char} {cs slice rest left : List Char} {kind : TokenKind}
  {lexeme : String} {read : List Token} {pointSeen : Bool}

theorem Spacing.gap (h : Spacing cs) : Gap rest cs := by
  induction h with
  | nil => exact .nil
  | blank blank _ ih => exact .blank blank ih
  | line inside _ ih => exact .line inside ih
  | block closed _ ih => exact .block closed ih

theorem spacing_of_gap (h : Gap (c :: rest) cs) : Spacing cs := by
  induction h with
  | nil => exact .nil
  | blank blank _ ih => exact .blank blank ih
  | line inside _ ih => exact .line inside ih
  | block closed _ ih => exact .block closed ih
  | lastLine ends | openBlock ends => cases ends

/-- Spacing is what is passed over in front of a token. -/
theorem spacing_iff : Spacing cs ↔ (skipLayout .code .first (cs ++ ['x'])).2 = ['x'] := by
  constructor
  · intro h
    rw [skipLayout_gap h.gap rfl]
  · intro h
    obtain ⟨gap, rest, split, layout, stops⟩ := exists_gap (cs ++ ['x'])
    rw [split, skipLayout_gap layout stops] at h
    subst h
    rw [List.append_cancel_right split]
    exact spacing_of_gap layout

instance : DecidablePred Spacing := fun _ => decidable_of_iff _ spacing_iff.symm

theorem isBlank_of_graphic (low : 33 ≤ c.toNat) (high : c.toNat ≤ 126) : isBlank c = false := by
  simp only [isBlank, Bool.or_eq_false_iff, Bool.and_eq_false_iff, decide_eq_false_iff_not,
    beq_eq_false_iff_ne]
  omega

/-- All the blanks there are. -/
def blanks : List Char :=
  (List.range' 9 5 ++ [0x20, 0x85, 0xa0, 0x1680] ++ List.range' 0x2000 11 ++
    [0x2028, 0x2029, 0x202f, 0x205f, 0x3000]).map Char.ofNat

theorem mem_blanks (blank : isBlank c) : c ∈ blanks := by
  refine List.mem_map.mpr ⟨c.toNat, ?_, Char.ofNat_toNat c⟩
  simp only [isBlank, Bool.or_eq_true, Bool.and_eq_true, decide_eq_true_eq, beq_iff_eq] at blank
  simp only [List.mem_append, List.mem_range'_1, List.mem_cons, List.not_mem_nil, or_false]
  omega

theorem isWordPart_of_isBlank (blank : isBlank c) : isWordPart c = false := by
  have all : blanks.all (!isWordPart ·) = true := by decide +kernel
  simpa using List.all_eq_true.mp all c (mem_blanks blank)

theorem NumberTail.no_blank (tail : NumberTail pointSeen cs) : ∀ d ∈ cs, isBlank d = false := by
  have sign {d : Char} (h : d = '+' ∨ d = '-') : isBlank d = false := by
    rcases h with rfl | rfl <;> rfl
  have mark {d : Char} (h : d = 'e' ∨ d = 'E') : isBlank d = false := by
    rcases h with rfl | rfl <;> rfl
  induction tail with
  | nil => simp
  | digit digit _ ih =>
    refine List.forall_mem_cons.mpr ⟨?_, ih⟩
    rcases Bool.or_eq_true_iff.mp digit with digit | underscore
    · obtain ⟨low, high⟩ := toNat_of_isDigit digit
      exact isBlank_of_graphic (by omega) (by omega)
    · obtain rfl := eq_of_beq underscore
      rfl
  | point _ _ ih => exact List.forall_mem_cons.mpr ⟨rfl, ih⟩
  | exponent h _ ih => exact List.forall_mem_cons.mpr ⟨mark h, ih⟩
  | signedExponent h h' _ ih =>
    exact List.forall_mem_cons.mpr ⟨mark h, List.forall_mem_cons.mpr ⟨sign h', ih⟩⟩

theorem Lexeme.no_blank (lx : Lexeme kind lexeme (c :: cs)) (noQuote : c ≠ '"') :
    ∀ d ∈ cs, isBlank d = false := by
  cases lx with
  | word _ parts =>
    intro d hd
    rw [Bool.eq_false_iff]
    intro blank
    exact absurd (parts d hd) (by simp [isWordPart_of_isBlank blank])
  | number _ tail => exact tail.no_blank
  | string => exact absurd rfl noQuote
  | pair pair =>
    unfold pairKind? at pair
    split at pair <;> first | exact List.forall_mem_singleton.mpr rfl | cases pair
  | single => simp

theorem beginsGap_respace (stops : beginsGap (c :: cs) = false)
    (blank : ∀ d ∈ rest.head?, isBlank d) : beginsGap (c :: cs ++ rest) = false := by
  cases cs with
  | cons => exact stops
  | nil =>
    have noBlank : isBlank c = false := (Bool.or_eq_false_iff.mp stops).1
    have noSlash : rest.head? ≠ some '/' := fun hr => absurd (blank _ hr) (by decide)
    have noStar : rest.head? ≠ some '*' := fun hr => absurd (blank _ hr) (by decide)
    simp [beginsGap, noBlank, noSlash, noStar]

theorem Leads.respace {front : List Char} (h : Leads kind lexeme slice (front ++ left))
    (blank : ∀ c ∈ rest.head?, isBlank c) : Leads kind lexeme slice (front ++ rest) := by
  have kept : slice ++ front <+: slice ++ (front ++ left) := by
    rw [← List.append_assoc]
    exact List.prefix_append _ _
  have stops := beginsGap_of_front kept h.stops
  obtain ⟨c, slice, rfl⟩ := List.exists_cons_of_ne_nil h.shape.ne_nil
  refine ⟨by rw [← List.append_assoc]; exact beginsGap_respace stops blank, h.shape,
    noneLonger_cons fun kind lexeme other after lx same => ?_⟩
  by_cases quote : c = '"'
  · subst quote
    obtain ⟨body, text, rfl, decoded, -, -⟩ := h.shape.of_quote
    obtain ⟨body', text', rfl, decoded', -, -⟩ := lx.of_quote
    have same : body ++ '"' :: (front ++ rest) = body' ++ '"' :: after := by simpa using same
    obtain rfl := decode_unique decoded decoded' same
    exact Nat.le_refl _
  · have inside : other <+: slice ++ front := by
      have same : slice ++ front ++ rest = other ++ after := (List.append_assoc ..).trans same
      rcases List.append_eq_append_iff.mp same with ⟨more, rfl, rfl⟩ | ⟨more, split, -⟩
      · cases more with
        | nil => simp
        | cons d more =>
          have noBlank := lx.no_blank quote d (by simp)
          exact absurd (blank d rfl) (by simp [noBlank])
      · exact ⟨more, split.symm⟩
    have known := h.longest kind lexeme (c :: other) lx
      ((List.cons_prefix_cons.mpr ⟨rfl, inside⟩).trans kept)
    simpa using known

/-- Whether each slice is the text of a token, up to where some other text may go on. -/
abbrev ReadFrom (read : List Token) (slices : List String) : Prop :=
  List.Forall₂ (fun t slice => ∃ rest, Leads t.kind t.lexeme slice.toList rest) read slices

theorem Scanned.readFrom (before : List Char)
    (h : Scanned (Place.first.after before) cs read q left) : ∃ slices, ReadFrom read slices ∧
      read.map (·.span.slice? (String.ofList (before ++ cs))) = slices.map some := by
  generalize hp : Place.first.after before = p at h
  induction h generalizing before with
  | nil => exact ⟨[], .nil, rfl⟩
  | @cons p q gap slice rest left kind lexeme read _ first _ ih =>
    subst hp
    have behind : Place.first.after (before ++ (gap ++ slice)) =
      (Place.first.after before).after (gap ++ slice) := Place.after_append _ _ _
    obtain ⟨slices, others, cut⟩ := ih _ behind
    refine ⟨.ofList slice :: slices, .cons ⟨rest, by rwa [String.toList_ofList]⟩ others, ?_⟩
    have span := Span.slice?_behind (.ofList (before ++ gap)) (.ofList slice) (.ofList rest)
    rw [← Place.spanTo_first] at span
    simp only [Place.after_append, ← String.ofList_append, List.append_assoc] at span cut ⊢
    rw [List.map_cons, List.map_cons, span, cut]

/-- Whether a text is layout that begins with a blank. -/
structure Separates (gap : String) : Prop where
  spacing : Spacing gap.toList
  blank : gap.toList.head?.any isBlank

instance : DecidablePred Separates := fun gap =>
  decidable_of_iff (Spacing gap.toList ∧ gap.toList.head?.any isBlank)
    ⟨fun h => ⟨h.1, h.2⟩, fun h => ⟨h.spacing, h.blank⟩⟩

/-- Slices of text, each with the layout behind it. -/
def interleave : List String → List String → String
  | slice :: slices, gap :: gaps => slice ++ (gap ++ interleave slices gaps)
  | _, _ => ""

theorem Separates.head_blank {gap : String} (h : Separates gap) (text : String) :
    ∀ c ∈ (gap ++ text).toList.head?, isBlank c := by
  have blank := h.blank
  rw [String.toList_append]
  cases hc : gap.toList with
  | nil => simp [hc] at blank
  | cons c cs => simpa [hc] using blank

/-- The slices of tokens are read as the same tokens with any layout between them. -/
theorem ReadFrom.respace {slices : List String} (h : ReadFrom read slices) {first : String}
    {gaps : List String} (hf : Spacing first.toList) (hl : gaps.length = read.length)
    (hg : ∀ gap ∈ gaps, Separates gap) (p : Place) :
    ∃ again q last, Scanned p (first ++ interleave slices gaps).toList again q last ∧
      again.map Token.symbol = read.map Token.symbol ∧ Spacing last := by
  induction h generalizing first gaps p with
  | nil =>
    refine ⟨[], p, first.toList, ?_, rfl, hf⟩
    rw [interleave, String.append_empty]
    · exact .nil
    · exact fun _ _ _ _ h _ => by cases h
  | @cons t slice read slices leads others ih =>
    obtain ⟨rest, leads⟩ := leads
    cases gaps with
    | nil => cases hl
    | cons gap gaps =>
      obtain ⟨separates, hg⟩ := List.forall_mem_cons.mp hg
      obtain ⟨again, q, last, scanned, same, hlast⟩ :=
        ih separates.spacing (Nat.succ.inj hl) hg (p.after (first.toList ++ slice.toList))
      have leads : Leads t.kind t.lexeme slice.toList ([] ++ rest) := leads
      have leads := leads.respace (separates.head_blank (interleave slices gaps))
      rw [List.nil_append] at leads
      have moved := Scanned.cons hf.gap leads scanned
      rw [← String.toList_append, ← String.toList_append] at moved
      exact ⟨_, q, last, moved, congrArg (t.symbol :: ·) same, hlast⟩

/-- The kinds and lexemes of the tokens of a source. -/
def symbols (source : String) : Except Span (List Symbol) :=
  (tokenize source).map (·.map Token.symbol)

/-- The tokens of a source are those of their slices with any other layout between them. -/
theorem tokenize_respaced {source : String} {read : List Token} {last : Token}
    (h : tokenize source = .ok (read ++ [last])) : ∃ slices,
      read.map (·.span.slice? source) = slices.map some ∧
      ∀ first gaps, Spacing first.toList → gaps.length = read.length →
        (∀ gap ∈ gaps, Separates gap) → symbols (first ++ interleave slices gaps) =
          .ok (read.map Token.symbol ++ [⟨.endOfInput, ""⟩]) := by
  obtain ⟨scanned, q, gap, all, -, split⟩ := tokensFrom_eq_ok_iff.mp h
  obtain rfl := (List.append_inj' split rfl).1
  obtain ⟨slices, readFrom, cut⟩ := all.readFrom []
  rw [List.nil_append, String.ofList_toList] at cut
  refine ⟨slices, cut, fun first gaps hf hl hg => ?_⟩
  obtain ⟨again, r, left, scanned, same, ends⟩ := readFrom.respace hf hl hg .first
  have tokens := tokensFrom_eq_ok_iff.mpr ⟨again, r, left, scanned, ends.gap, rfl⟩
  rw [symbols, tokenize, tokens]
  simp only [Except.map, List.map_append, same]
  rfl

/-- Comments hold quotes, marks and openings; a number stops at an exponent mark, and a slash comes
to stand in front of a comment. -/
theorem tokenize_respaced_comments :
    symbols ("/*\"/**/'*/" ++ interleave ["1e", "/", "\"a /* b\""]
      [" /*+*/\u00a0//\"/*\n", "\t/*//*/**/*/*/", "\n"]) =
        .ok [⟨.number, "1e"⟩, ⟨.slash, "/"⟩, ⟨.string, "a /* b"⟩, ⟨.endOfInput, ""⟩] := by
  obtain ⟨slices, cut, respaced⟩ := @tokenize_respaced "1e /\"a /* b\""
    [⟨.number, "1e", ⟨0, 2, 1⟩⟩, ⟨.slash, "/", ⟨3, 4, 1⟩⟩, ⟨.string, "a /* b", ⟨4, 12, 1⟩⟩]
    ⟨.endOfInput, "", ⟨12, 12, 1⟩⟩ (by decide +kernel)
  obtain rfl : slices = ["1e", "/", "\"a /* b\""] :=
    (List.map_inj_right fun _ _ => Option.some.inj).mp (cut.symm.trans (by decide +kernel))
  exact respaced _ _ (by decide +kernel) rfl (by decide +kernel)

end Script
