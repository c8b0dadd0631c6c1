import Script.Proofs.Grammar.Printing

namespace Script

mutual

def Expr.mapSpans (f : Span → Span) : Expr → Expr
  | .literal s value => .literal (f s) value
  | .name s word => .name (f s) word
  | .binary s op left right => .binary (f s) op (left.mapSpans f) (right.mapSpans f)
  | .unary s op operand => .unary (f s) op (operand.mapSpans f)
  | .call s function arguments => .call (f s) function (Expr.mapSpansIn f arguments)
  | .array s elements => .array (f s) (Expr.mapSpansIn f elements)
  | .group s inner => .group (f s) (inner.mapSpans f)
  | .index s target position => .index (f s) (target.mapSpans f) (position.mapSpans f)

def Expr.mapSpansIn (f : Span → Span) : List Expr → List Expr
  | [] => []
  | e :: rest => e.mapSpans f :: Expr.mapSpansIn f rest

end

mutual

def Stmt.mapSpans (f : Span → Span) : Stmt → Stmt
  | .var s name initial => .var (f s) name (initial.map (Expr.mapSpans f))
  | .define s name value => .define (f s) name (value.mapSpans f)
  | .assign s target value => .assign (f s) (target.mapSpans f) (value.mapSpans f)
  | .function s name parameters body => .function (f s) name parameters (Stmt.mapSpansIn f body)
  | .include s module => .include (f s) module
  | .expr s value => .expr (f s) (value.mapSpans f)
  | .block s body => .block (f s) (Stmt.mapSpansIn f body)
  | .ifThen s condition body => .ifThen (f s) (condition.mapSpans f) (Stmt.mapSpansIn f body)
  | .ifElse s condition body otherwise =>
    .ifElse (f s) (condition.mapSpans f) (Stmt.mapSpansIn f body) (Stmt.mapSpansIn f otherwise)
  | .while s condition body => .while (f s) (condition.mapSpans f) (Stmt.mapSpansIn f body)
  | .loop s body => .loop (f s) (Stmt.mapSpansIn f body)
  | .for s binding iterable body =>
    .for (f s) binding (iterable.mapSpans f) (Stmt.mapSpansIn f body)
  | .return s value => .return (f s) (value.map (Expr.mapSpans f))
  | .break s => .break (f s)
  | .continue s => .continue (f s)

def Stmt.mapSpansIn (f : Span → Span) : List Stmt → List Stmt
  | [] => []
  | s :: rest => s.mapSpans f :: Stmt.mapSpansIn f rest

end

def Token.mapSpan (f : Span → Span) (t : Token) : Token := { t with span := f t.span }

section

variable {f : Span → Span}

@[simp] theorem Token.kind_mapSpan (t : Token) : (t.mapSpan f).kind = t.kind := rfl

@[simp] theorem Token.lexeme_mapSpan (t : Token) : (t.mapSpan f).lexeme = t.lexeme := rfl

@[simp] theorem Token.span_mapSpan (t : Token) : (t.mapSpan f).span = f t.span := rfl

@[simp] theorem Expr.span_mapSpans (e : Expr) : (e.mapSpans f).span = f e.span := by
  cases e <;> rfl

@[simp] theorem Stmt.span_mapSpans (s : Stmt) : (s.mapSpans f).span = f s.span := by
  cases s <;> rfl

mutual

theorem Expr.bare_mapSpans (e : Expr) : (e.mapSpans f).bare = e.bare := by
  cases e with
  | literal | name => rfl
  | binary _ _ left right => simp only [mapSpans, bare, left.bare_mapSpans, right.bare_mapSpans]
  | unary _ _ inner | group _ inner => simp only [mapSpans, bare, inner.bare_mapSpans]
  | call _ _ parts | array _ parts => simp only [mapSpans, bare, Expr.bareIn_mapSpansIn parts]
  | index _ target position =>
    simp only [mapSpans, bare, target.bare_mapSpans, position.bare_mapSpans]

theorem Expr.bareIn_mapSpansIn (es : List Expr) : bareIn (mapSpansIn f es) = bareIn es := by
  cases es with
  | nil => rfl
  | cons e rest => simp only [mapSpansIn, bareIn, e.bare_mapSpans, Expr.bareIn_mapSpansIn rest]

end

mutual

theorem Stmt.bare_mapSpans (s : Stmt) : (s.mapSpans f).bare = s.bare := by
  cases s with
  | var _ _ value | «return» _ value => cases value <;> simp [mapSpans, bare, Expr.bare_mapSpans]
  | define | expr | assign => simp only [mapSpans, bare, Expr.bare_mapSpans]
  | «include» | «break» | «continue» => rfl
  | function _ _ _ body | block _ body | loop _ body =>
    simp only [mapSpans, bare, Stmt.bareIn_mapSpansIn body]
  | ifThen _ _ body | «while» _ _ body | «for» _ _ _ body =>
    simp only [mapSpans, bare, Expr.bare_mapSpans, Stmt.bareIn_mapSpansIn body]
  | ifElse _ _ body otherwise =>
    simp only [mapSpans, bare, Expr.bare_mapSpans, Stmt.bareIn_mapSpansIn body,
      Stmt.bareIn_mapSpansIn otherwise]

theorem Stmt.bareIn_mapSpansIn (stmts : List Stmt) :
    bareIn (mapSpansIn f stmts) = bareIn stmts := by
  cases stmts with
  | nil => rfl
  | cons s rest => simp only [mapSpansIn, bareIn, s.bare_mapSpans, Stmt.bareIn_mapSpansIn rest]

end

theorem Program.fits_mapSpans (program : Program) :
    Program.fits (Stmt.mapSpansIn f program) = program.fits := by
  rw [fits, ← Stmt.fits_bareIn, Stmt.bareIn_mapSpansIn, Stmt.fits_bareIn, fits]

theorem Stmt.isIf_mapSpans (s : Stmt) : (s.mapSpans f).isIf = s.isIf := by
  cases s <;> rfl

theorem Stmt.isSimple_mapSpans (s : Stmt) : (s.mapSpans f).isSimple = s.isSimple := by
  cases s <;> rfl

theorem Stmt.endsBefore_mapSpans (s : Stmt) (k : TokenKind) :
    (s.mapSpans f).endsBefore k = s.endsBefore k := by
  cases s with
  | var _ _ value | «return» _ value => cases value <;> rfl
  | _ => rfl

theorem Token.Denotes.mapSpan {t : Token} {value : Literal} (h : t.Denotes value) :
    (t.mapSpan f).Denotes value := by
  cases h with
  | null kind => exact .null kind
  | «true» kind => exact .true kind
  | «false» kind => exact .false kind
  | number kind read => exact .number kind read
  | string kind => exact .string (t := t.mapSpan f) kind

theorem NamesSpelled.mapSpan {names : List String} {as : List Token} (h : NamesSpelled names as) :
    NamesSpelled names (as.map (Token.mapSpan f)) := by
  induction h with
  | nil => exact .nil
  | @last t kind => exact .last (t := t.mapSpan f) kind
  | @more t comma _ _ _ kind separates _ ih =>
    exact @NamesSpelled.more (t.mapSpan f) (comma.mapSpan f) _ _ _ kind separates ih

theorem nextKind_mapSpan {last : TokenKind} {as : List Token} :
    nextKind last (as.map (Token.mapSpan f)) = nextKind last as := by
  cases as <;> rfl

theorem Stmt.EndsAt.mapSpan {s : Stmt} {last : TokenKind} {bs cs : List Token}
    (h : s.EndsAt last bs cs) : (s.mapSpans f).EndsAt last (bs.map (Token.mapSpan f))
      (cs.map (Token.mapSpan f)) := by
  cases h with
  | @semicolon t _ simple kind =>
    exact .semicolon (t := t.mapSpan f) (s.isSimple_mapSpans ▸ simple) kind
  | without ends =>
    refine .without ?_
    rwa [nextKind_mapSpan, endsBefore_mapSpans]

end

/-- Whether a change of spans changes the beginning and the end of each one by itself. -/
structure KeepsEnds (f : Span → Span) : Prop where
  map_to : ∀ a b, f (a.to b) = (f a).to (f b)

section

variable {f : Span → Span}

mutual

theorem Expr.Spelled.mapSpans {e : Expr} {as : List Token} (h : e.Spelled as)
    (hf : KeepsEnds f) :
    (e.mapSpans f).Spelled (as.map (Token.mapSpan f)) := by
  cases h with
  | literal denotes => exact .literal denotes.mapSpan
  | @name t kind => exact .name (t := t.mapSpan f) kind
  | @binary _ _ _ t _ _ first kind second =>
    have spelled := @Spelled.binary _ _ _ (t.mapSpan f) _ _ (first.mapSpans hf) kind
      (second.mapSpans hf)
    simpa [Expr.mapSpans, hf.map_to] using spelled
  | @unary _ _ t _ kind inner =>
    have spelled := @Spelled.unary _ _ (t.mapSpan f) _ kind (inner.mapSpans hf)
    simpa [Expr.mapSpans, hf.map_to] using spelled
  | @call _ t first last _ kind opens inner closes =>
    have spelled := @Spelled.call _ (t.mapSpan f) (first.mapSpan f) (last.mapSpan f) _ kind opens
      (inner.mapSpans hf) closes
    simpa [Expr.mapSpans, hf.map_to] using spelled
  | @array _ first last _ opens inner closes =>
    have spelled := @Spelled.array _ (first.mapSpan f) (last.mapSpan f) _ opens (inner.mapSpans hf)
      closes
    simpa [Expr.mapSpans, hf.map_to] using spelled
  | @group _ first last _ opens inner closes =>
    have spelled := @Spelled.group _ (first.mapSpan f) (last.mapSpan f) _ opens (inner.mapSpans hf)
      closes
    simpa [Expr.mapSpans, hf.map_to] using spelled
  | @index _ _ first last _ _ owner opens position closes =>
    have spelled := @Spelled.index _ _ (first.mapSpan f) (last.mapSpan f) _ _ (owner.mapSpans hf)
      opens (position.mapSpans hf) closes
    simpa [Expr.mapSpans, hf.map_to] using spelled

theorem Expr.SpelledIn.mapSpans {es : List Expr} {as : List Token} (h : Expr.SpelledIn es as)
    (hf : KeepsEnds f) :
    Expr.SpelledIn (Expr.mapSpansIn f es) (as.map (Token.mapSpan f)) := by
  cases h with
  | nil => exact .nil
  | last only => exact .last (only.mapSpans hf)
  | @more _ _ _ comma _ _ first kind others =>
    rw [List.map_append]
    exact @SpelledIn.more _ _ _ (comma.mapSpan f) _ _ (first.mapSpans hf) kind (others.mapSpans hf)

end

theorem Stmt.SpelledIn.mapSpans {body : List Stmt} {span : Span} {as : List Token}
    (h : Stmt.SpelledIn body span as) (hf : KeepsEnds f)
    (inside : ∀ {bs}, Stmt.SpelledUpTo .rightBrace body bs →
      Stmt.SpelledUpTo .rightBrace (Stmt.mapSpansIn f body) (bs.map (Token.mapSpan f))) :
    Stmt.SpelledIn (Stmt.mapSpansIn f body) (f span) (as.map (Token.mapSpan f)) := by
  cases h with
  | @braces _ first last _ opens inner closes =>
    have spelled := @SpelledIn.braces _ (first.mapSpan f) (last.mapSpan f) _ opens (inside inner)
      closes
    simpa [hf.map_to] using spelled

mutual

theorem Stmt.Spelled.mapSpans {s : Stmt} {as : List Token} (h : s.Spelled as)
    (hf : KeepsEnds f) :
    (s.mapSpans f).Spelled (as.map (Token.mapSpan f)) := by
  cases h with
  | @declare word name starts kind =>
    have spelled := @Spelled.declare (word.mapSpan f) (name.mapSpan f) starts kind
    simpa [Stmt.mapSpans, hf.map_to] using spelled
  | @var _ word name equals _ starts kind assign value =>
    have spelled := @Spelled.var _ (word.mapSpan f) (name.mapSpan f) (equals.mapSpan f) _ starts
      kind assign (value.mapSpans hf)
    simpa [Stmt.mapSpans, hf.map_to] using spelled
  | @define _ word name equals _ starts kind assign value =>
    have spelled := @Spelled.define _ (word.mapSpan f) (name.mapSpan f) (equals.mapSpan f) _ starts
      kind assign (value.mapSpans hf)
    simpa [Stmt.mapSpans, hf.map_to] using spelled
  | @assign _ _ equals _ _ place kind value =>
    have spelled := @Spelled.assign _ _ (equals.mapSpan f) _ _ (place.mapSpans hf) kind
      (value.mapSpans hf)
    simpa [Stmt.mapSpans, hf.map_to] using spelled
  | @function _ _ _ word name first last _ _ starts kind opens names closes block =>
    have spelled := @Spelled.function _ _ _ (word.mapSpan f) (name.mapSpan f) (first.mapSpan f)
      (last.mapSpan f) _ _ starts kind opens (names.mapSpan (f := f)) closes
      (block.mapSpans hf (·.mapSpans hf))
    simpa [Stmt.mapSpans, hf.map_to] using spelled
  | @«include» word name starts kind =>
    have spelled := @Spelled.include (word.mapSpan f) (name.mapSpan f) starts kind
    simpa [Stmt.mapSpans, hf.map_to] using spelled
  | expr value =>
    have spelled := Spelled.expr (value.mapSpans hf)
    simpa [Stmt.mapSpans] using spelled
  | block block => exact .block (block.mapSpans hf (·.mapSpans hf))
  | @ifThen _ _ _ word _ _ starts test block =>
    have spelled := @Spelled.ifThen _ _ _ (word.mapSpan f) _ _ starts (test.mapSpans hf)
      (block.mapSpans hf (·.mapSpans hf))
    simpa [Stmt.mapSpans, hf.map_to] using spelled
  | @ifElse _ _ _ _ _ word other _ _ _ starts test block kind final =>
    have spelled := @Spelled.ifElse _ _ _ _ _ (word.mapSpan f) (other.mapSpan f) _ _ _ starts
      (test.mapSpans hf) (block.mapSpans hf (·.mapSpans hf)) kind
      (final.mapSpans hf (·.mapSpans hf))
    simpa [Stmt.mapSpans, hf.map_to] using spelled
  | @elseIf _ _ _ next word other _ _ _ starts test block kind isIf final =>
    have spelled := @Spelled.elseIf _ _ _ _ (word.mapSpan f) (other.mapSpan f) _ _ _ starts
      (test.mapSpans hf) (block.mapSpans hf (·.mapSpans hf)) kind (next.isIf_mapSpans ▸ isIf)
      (final.mapSpans hf)
    simpa [Stmt.mapSpans, Stmt.mapSpansIn, hf.map_to] using spelled
  | @«while» _ _ _ word _ _ starts test block =>
    have spelled := @Spelled.while _ _ _ (word.mapSpan f) _ _ starts (test.mapSpans hf)
      (block.mapSpans hf (·.mapSpans hf))
    simpa [Stmt.mapSpans, hf.map_to] using spelled
  | @loop _ _ word _ starts block =>
    have spelled := @Spelled.loop _ _ (word.mapSpan f) _ starts (block.mapSpans hf (·.mapSpans hf))
    simpa [Stmt.mapSpans, hf.map_to] using spelled
  | @«for» _ _ _ word name other _ _ starts kind separates elements block =>
    have spelled := @Spelled.for _ _ _ (word.mapSpan f) (name.mapSpan f) (other.mapSpan f) _ _
      starts kind separates (elements.mapSpans hf) (block.mapSpans hf (·.mapSpans hf))
    simpa [Stmt.mapSpans, hf.map_to] using spelled
  | @leave word starts =>
    have spelled := @Spelled.leave (word.mapSpan f) starts
    simpa [Stmt.mapSpans, hf.map_to] using spelled
  | @«return» _ word _ starts value =>
    have spelled := @Spelled.return _ (word.mapSpan f) _ starts (value.mapSpans hf)
    simpa [Stmt.mapSpans, hf.map_to] using spelled
  | @«break» word starts => exact @Spelled.break (word.mapSpan f) starts
  | @«continue» word starts => exact @Spelled.continue (word.mapSpan f) starts

theorem Stmt.SpelledUpTo.mapSpans {last : TokenKind} {stmts : List Stmt} {as : List Token}
    (h : Stmt.SpelledUpTo last stmts as) (hf : KeepsEnds f) :
    Stmt.SpelledUpTo last (Stmt.mapSpansIn f stmts) (as.map (Token.mapSpan f)) := by
  cases h with
  | nil => exact .nil
  | cons first ends others =>
    rw [List.map_append]
    exact .cons (first.mapSpans hf) ends.mapSpan (others.mapSpans hf)

end

end

end Script
