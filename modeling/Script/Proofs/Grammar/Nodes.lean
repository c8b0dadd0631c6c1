import Script.Proofs.Grammar

namespace Script

inductive Node where
  | expr (e : Expr)
  | stmt (s : Stmt)

namespace Node

def span : Node → Span
  | expr e => e.span
  | stmt s => s.span

/-- The nodes directly inside a node, as they follow each other. -/
def parts : Node → List Node
  | expr e => e.children.map expr
  | stmt s => s.exprs.map expr ++ (s.children ++ s.definition).map stmt

/-- A node as a statement of its own. -/
def statement : Node → Stmt
  | expr e => .expr e.span e
  | stmt s => s

def Spelled : Node → List Token → Prop
  | expr e, as => e.Spelled as
  | stmt s, as => s.Spelled as

/-- The nodes of a program at any depth, those of function bodies included. -/
inductive Within (program : Program) : Node → Prop where
  | top {s : Stmt} (h : s ∈ program) : Within program (stmt s)
  | part {node part : Node} (whole : Within program node) (h : part ∈ node.parts) :
    Within program part

/-- Nodes that are spelled by stretches of tokens one behind the other, with any tokens around. -/
inductive InOrder : List Node → List Token → Prop where
  | nil {tokens : List Token} : InOrder [] tokens
  | cons {node : Node} {nodes : List Node} {before as after : List Token}
    (spelled : node.Spelled as) (others : InOrder nodes after) :
    InOrder (node :: nodes) (before ++ (as ++ after))

end Node

namespace Node.InOrder

variable {node : Node} {nodes others : List Node} {as bs : List Token}

theorem one (h : node.Spelled as) : InOrder [node] as := by
  have alone : InOrder [node] ([] ++ (as ++ [])) := .cons h .nil
  rwa [List.append_nil] at alone

theorem append (h : InOrder nodes as) (ho : InOrder others bs) :
    InOrder (nodes ++ others) (as ++ bs) := by
  induction h with
  | @nil tokens =>
    cases ho with
    | nil => exact .nil
    | @cons _ _ before _ _ spelled later =>
      rw [← List.append_assoc]
      exact .cons spelled later
  | @cons _ _ before as after spelled _ ih =>
    rw [List.append_assoc, List.append_assoc]
    exact .cons spelled ih

theorem widen (h : InOrder nodes as) (hi : as <:+: bs) : InOrder nodes bs := by
  obtain ⟨front, back, rfl⟩ := hi
  have around := ((@nil front).append h).append (@nil back)
  rwa [List.nil_append, List.append_nil] at around

theorem exists_of_mem (h : InOrder nodes as) (hn : node ∈ nodes) :
    ∃ bs, bs <:+: as ∧ node.Spelled bs := by
  induction h with
  | nil => cases hn
  | @cons first nodes before as after spelled _ ih =>
    rcases List.mem_cons.mp hn with rfl | later
    · exact ⟨as, ⟨before, after, List.append_assoc ..⟩, spelled⟩
    · obtain ⟨bs, inside, spelled⟩ := ih later
      exact ⟨bs, inside.trans ⟨before ++ as, [], by simp⟩, spelled⟩

end Node.InOrder

section Parts

variable {as bs cs : List Token}

theorem Expr.Spelled.alone {e : Expr} (h : e.Spelled as) : Node.InOrder [.expr e] as :=
  @Node.InOrder.one (.expr e) as h

theorem Stmt.Spelled.alone {s : Stmt} (h : s.Spelled as) : Node.InOrder [.stmt s] as :=
  @Node.InOrder.one (.stmt s) as h

theorem Expr.SpelledIn.inOrder {es : List Expr} {as : List Token} (h : Expr.SpelledIn es as) :
    Node.InOrder (es.map .expr) as := by
  cases h with
  | nil => exact .nil
  | last only => exact only.alone
  | @more _ _ _ comma as bs first _ others =>
    exact first.alone.append (others.inOrder.widen ⟨[comma], [], by simp⟩)

theorem Stmt.EndsAt.suffix {s : Stmt} {last : TokenKind} (h : s.EndsAt last bs cs) : cs <:+ bs := by
  cases h with
  | semicolon => exact List.suffix_cons _ _
  | without => exact List.suffix_rfl

theorem Stmt.SpelledUpTo.inOrder {last : TokenKind} {stmts : List Stmt}
    (h : Stmt.SpelledUpTo last stmts as) : Node.InOrder (stmts.map .stmt) as := by
  induction stmts generalizing as with
  | nil => exact .nil
  | cons s rest ih =>
    cases h with
    | cons first ends others =>
      exact first.alone.append ((ih others).widen ends.suffix.isInfix)

theorem Stmt.SpelledIn.inOrder {body : List Stmt} {span : Span} (h : Stmt.SpelledIn body span as) :
    Node.InOrder (body.map .stmt) as := by
  cases h with
  | @braces _ first last _ _ inner _ => exact inner.inOrder.widen ⟨[first], [last], by simp⟩

theorem Expr.Spelled.inOrder {e : Expr} (h : e.Spelled as) :
    Node.InOrder (e.children.map .expr) as := by
  cases h with
  | literal | name => exact .nil
  | @binary _ _ _ t _ _ first _ second =>
    exact first.alone.append (second.alone.widen ⟨[t], [], by simp⟩)
  | @unary _ _ t _ _ inner => exact inner.alone.widen ⟨[t], [], by simp⟩
  | @call _ t first last as _ _ inner => exact inner.inOrder.widen ⟨[t, first], [last], by simp⟩
  | @array _ first last as _ inner => exact inner.inOrder.widen ⟨[first], [last], by simp⟩
  | @group _ first last as _ inner =>
    exact inner.alone.widen ⟨[first], [last], by simp⟩
  | @index _ _ first last as bs owner _ position =>
    exact owner.alone.append
      (position.alone.widen ⟨[first], [last], by simp⟩)

theorem Stmt.Spelled.inOrder {s : Stmt} (h : s.Spelled as) :
    Node.InOrder (Node.stmt s).parts as := by
  simp only [Node.parts, List.map_append]
  cases h with
  | declare | «include» | leave | «break» | «continue» => exact .nil
  | @var _ word name equals _ _ _ _ value | @define _ word name equals _ _ _ _ value =>
    exact value.alone.widen ⟨[word, name, equals], [], by simp⟩
  | @assign _ _ equals _ _ place _ value =>
    exact place.alone.append (value.alone.widen ⟨[equals], [], by simp⟩)
  | @function _ _ _ word name first last as bs _ _ _ _ _ block =>
    exact block.inOrder.widen ⟨word :: name :: first :: (as ++ [last]), [], by simp⟩
  | expr value => exact value.alone
  | block block => simpa [exprs, children, definition] using block.inOrder
  | @loop _ _ word _ _ block =>
    simpa [exprs, children, definition] using block.inOrder.widen ⟨[word], [], by simp⟩
  | @ifThen _ _ _ word as bs _ test block | @«while» _ _ _ word as bs _ test block =>
    have parts := test.alone.append block.inOrder
    simpa [exprs, children, definition] using parts.widen ⟨[word], [], by simp⟩
  | @«for» _ _ _ word name other as bs _ _ _ test block =>
    have parts := test.alone.append block.inOrder
    simpa [exprs, children, definition] using parts.widen ⟨[word, name, other], [], by simp⟩
  | @ifElse _ _ _ _ _ word other as bs cs _ test block _ final =>
    have last := final.inOrder.widen (List.suffix_cons other cs).isInfix
    have parts := test.alone.append (block.inOrder.append last)
    simpa [exprs, children, definition] using parts.widen ⟨[word], [], by simp⟩
  | @elseIf _ _ _ _ word other as bs cs _ test block _ _ final =>
    have last := final.alone.widen (List.suffix_cons other cs).isInfix
    have parts := test.alone.append (block.inOrder.append last)
    simpa [exprs, children, definition] using parts.widen ⟨[word], [], by simp⟩
  | @«return» _ word _ _ value => exact value.alone.widen ⟨[word], [], by simp⟩

theorem Node.Spelled.parts {node : Node} (h : node.Spelled as) : InOrder node.parts as := by
  cases node with
  | expr => exact Expr.Spelled.inOrder h
  | stmt => exact Stmt.Spelled.inOrder h

end Parts

/-- Whether a span reaches from the first of some tokens through the last. -/
def Span.Covers (span : Span) (as : List Token) : Prop :=
  ∃ first ∈ as.head?, ∃ last ∈ as.getLast?, span = first.span.to last.span

section Covers

variable {as bs : List Token} {a b : Span}

theorem Token.covers (t : Token) : t.span.Covers [t] := ⟨t, rfl, t, rfl, rfl⟩

theorem Span.Covers.to (mid : List Token) (h : a.Covers as) (h' : b.Covers bs) :
    (a.to b).Covers (as ++ (mid ++ bs)) := by
  obtain ⟨first, hf, last, -, rfl⟩ := h
  obtain ⟨first', -, last', hl, rfl⟩ := h'
  refine ⟨first, ?_, last', ?_, rfl⟩
  · rw [List.head?_append, hf]
    rfl
  · rw [List.getLast?_append, List.getLast?_append, hl]
    rfl

theorem Expr.Spelled.covers {e : Expr} {as : List Token} (h : e.Spelled as) : e.span.Covers as := by
  cases h with
  | literal | name => exact Token.covers _
  | @binary _ _ _ t _ _ first _ second => exact first.covers.to [t] second.covers
  | unary _ inner => exact (Token.covers _).to [] inner.covers
  | @call _ _ first _ as => exact (Token.covers _).to (first :: as) (Token.covers _)
  | @array _ _ _ as | @group _ _ _ as => exact (Token.covers _).to as (Token.covers _)
  | @index _ _ first _ _ bs owner => exact owner.covers.to (first :: bs) (Token.covers _)

theorem Stmt.SpelledIn.covers {body : List Stmt} {span : Span} (h : Stmt.SpelledIn body span as) :
    span.Covers as := by
  cases h with
  | @braces _ _ _ as => exact (Token.covers _).to as (Token.covers _)

theorem Stmt.Spelled.covers {s : Stmt} {as : List Token} (h : s.Spelled as) :
    s.span.Covers as := by
  cases h with
  | declare | «include» => exact (Token.covers _).to [] (Token.covers _)
  | @var _ _ name equals _ _ _ _ value | @define _ _ name equals _ _ _ _ value =>
    exact (Token.covers _).to [name, equals] value.covers
  | @assign _ _ equals _ _ place _ value => exact place.covers.to [equals] value.covers
  | @function _ _ _ word name first last as bs _ _ _ _ _ block =>
    have covers := word.covers.to (name :: first :: (as ++ [last])) block.covers
    simpa [Stmt.span, List.append_assoc] using covers
  | expr value => exact value.covers
  | block block => exact block.covers
  | @ifThen _ _ _ _ as _ _ _ block | @«while» _ _ _ _ as _ _ _ block =>
    exact (Token.covers _).to as block.covers
  | @ifElse _ _ _ _ _ word other as bs _ _ _ _ _ final =>
    have covers := word.covers.to (as ++ (bs ++ [other])) final.covers
    simpa [Stmt.span, List.append_assoc] using covers
  | @elseIf _ _ _ _ word other as bs _ _ _ _ _ _ final =>
    have covers := word.covers.to (as ++ (bs ++ [other])) final.covers
    simpa [Stmt.span, List.append_assoc] using covers
  | loop _ block => exact (Token.covers _).to [] block.covers
  | @«for» _ _ _ _ name other as _ _ _ _ _ block =>
    exact (Token.covers _).to (name :: other :: as) block.covers
  | leave | «break» | «continue» => exact Token.covers _
  | «return» _ value => exact (Token.covers _).to [] value.covers

theorem Node.Spelled.covers {node : Node} (h : node.Spelled as) : node.span.Covers as := by
  cases node with
  | expr => exact Expr.Spelled.covers h
  | stmt => exact Stmt.Spelled.covers h

end Covers

/-- Tokens of which each begins where the one before has ended, or behind. -/
structure Token.Ordered (as : List Token) : Prop where
  apart : as.Pairwise fun t u => t.span.stop ≤ u.span.start
  proper : ∀ t ∈ as, t.span.start ≤ t.span.stop

namespace Token.Ordered

variable {as bs : List Token} {t : Token} {a b : Span}

theorem narrow (h : Ordered bs) (hi : as <:+: bs) : Ordered as where
  apart := h.apart.sublist hi.sublist
  proper t ht := h.proper t (hi.subset ht)

theorem start_le (h : Ordered as) (covers : a.Covers as) (ht : t ∈ as) :
    a.start ≤ t.span.start := by
  obtain ⟨first, hf, last, -, rfl⟩ := covers
  obtain ⟨rest, rfl⟩ := List.head?_eq_some_iff.mp hf
  rcases List.mem_cons.mp ht with rfl | later
  · exact Nat.le_refl _
  · have apart := (List.pairwise_cons.mp h.apart).1 t later
    have proper := h.proper first (by simp)
    exact Nat.le_trans proper apart

theorem le_stop (h : Ordered as) (covers : a.Covers as) (ht : t ∈ as) :
    t.span.stop ≤ a.stop := by
  obtain ⟨first, -, last, hl, rfl⟩ := covers
  obtain ⟨front, rfl⟩ := List.getLast?_eq_some_iff.mp hl
  rcases List.mem_append.mp ht with earlier | same
  · have apart := (List.pairwise_append.mp h.apart).2.2 t earlier last (by simp)
    have proper := h.proper last (by simp)
    exact Nat.le_trans apart proper
  · obtain rfl := List.mem_singleton.mp same
    exact Nat.le_refl _

theorem inside (h : Ordered as) (covers : a.Covers as) (part : b.Covers bs) (hi : bs <:+: as) :
    a.start ≤ b.start ∧ b.stop ≤ a.stop := by
  obtain ⟨first, hf, last, hl, rfl⟩ := part
  exact ⟨h.start_le covers (hi.subset (List.mem_of_head? hf)),
    h.le_stop covers (hi.subset (List.mem_of_getLast? hl))⟩

theorem nodes {nodes : List Node} (h : Ordered as) (order : Node.InOrder nodes as) :
    nodes.Pairwise fun n m => n.span.stop ≤ m.span.start := by
  induction order with
  | nil => exact .nil
  | @cons node nodes before cs after spelled others ih =>
    have behind := h.narrow (List.suffix_append before (cs ++ after)).isInfix
    refine .cons (fun m hm => ?_) (ih (behind.narrow (List.suffix_append cs after).isInfix))
    obtain ⟨bs, hi, spelled'⟩ := others.exists_of_mem hm
    obtain ⟨first, -, last, hl, span⟩ := spelled.covers
    obtain ⟨first', hf, last', -, span'⟩ := spelled'.covers
    rw [span, span']
    exact (List.pairwise_append.mp behind.apart).2.2 last (List.mem_of_getLast? hl) first'
      (hi.subset (List.mem_of_head? hf))

end Token.Ordered

end Script
