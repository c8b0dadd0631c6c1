import Script.Proofs.Grammar.Blame
import Script.Proofs.Grammar.Slices
import Mathlib.Data.List.Chain

namespace Script

variable {as bs cs tokens front back : List Token} {t mark : Token} {last : TokenKind}
  {s : Stmt} {stmts body : List Stmt} {span : Span} {program : Program}

/-- Whether no semicolon stands at the beginning of some tokens or directly behind a closing
brace. -/
structure Token.Tidy (as : List Token) : Prop where
  head : ∀ t ∈ as.head?, t.kind ≠ .semicolon
  chain : as.IsChain fun t u => t.kind = .rightBrace → u.kind ≠ .semicolon

namespace Token.Tidy

theorem nil : Tidy [] := ⟨by simp, .nil⟩

theorem append (h : Tidy as) (h' : Tidy bs) : Tidy (as ++ bs) where
  head := by
    cases as with
    | nil => exact h'.head
    | cons => exact h.head
  chain := List.isChain_append.mpr ⟨h.chain, h'.chain, fun _ _ u hu _ => h'.head u hu⟩

theorem cons (h : t.kind ≠ .semicolon) (h' : Tidy as) : Tidy (t :: as) :=
  append ⟨by simpa using h, .singleton t⟩ h'

theorem of_inner (h : ∀ t ∈ as, t.kind.isInner) : Tidy as := by
  induction as with
  | nil => exact nil
  | cons t as ih =>
    obtain ⟨inner, others⟩ := List.forall_mem_cons.mp h
    refine cons (fun same => ?_) (ih others)
    rw [same] at inner
    cases inner

end Token.Tidy

theorem Stmt.Spelled.tidy_semicolon (h : s.Spelled as) (simple : s.isSimple)
    (kind : mark.kind = .semicolon) (rest : Token.Tidy bs) : Token.Tidy (as ++ mark :: bs) where
  head := by
    obtain ⟨t, ts, rfl, -⟩ := h.starts
    exact (Token.Tidy.of_inner (h.inner simple)).head
  chain := by
    refine List.isChain_append.mpr ⟨(Token.Tidy.of_inner (h.inner simple)).chain,
      List.isChain_cons.mpr ⟨fun _ _ brace => ?_, rest.chain⟩, fun t ht _ _ brace => ?_⟩
    · rw [kind] at brace
      cases brace
    · have inner := h.inner simple t (List.mem_of_getLast? ht)
      rw [brace] at inner
      cases inner

theorem Stmt.EndsAt.tidy (h : s.EndsAt last bs cs) (first : s.Spelled as) (tidy : Token.Tidy as)
    (rest : Token.Tidy cs) : Token.Tidy (as ++ bs) := by
  cases h with
  | semicolon simple kind => exact first.tidy_semicolon simple kind rest
  | without => exact tidy.append rest

theorem Stmt.SpelledIn.tidy (h : Stmt.SpelledIn body span as)
    (inside : ∀ {bs}, Stmt.SpelledUpTo .rightBrace body bs → Token.Tidy bs) : Token.Tidy as := by
  cases h with
  | braces opens inner closes =>
    exact .cons (by simp [opens]) ((inside inner).append (.cons (by simp [closes]) .nil))

mutual

theorem Stmt.Spelled.tidy {s : Stmt} {as : List Token} (h : s.Spelled as) : Token.Tidy as := by
  by_cases simple : s.isSimple
  · exact .of_inner (h.inner simple)
  cases h with
  | declare | var | define | assign | «include» | expr | leave | «return» | «break» | «continue» =>
    exact absurd rfl simple
  | function starts kind opens names closes block =>
    exact .cons (by simp [starts]) (.cons (by simp [kind]) (.cons (by simp [opens])
      ((Token.Tidy.of_inner names.inner).append (.cons (by simp [closes]) (block.tidy (·.tidy))))))
  | block block => exact block.tidy (·.tidy)
  | ifThen starts test block | «while» starts test block =>
    exact .cons (by simp [starts]) ((Token.Tidy.of_inner test.inner).append (block.tidy (·.tidy)))
  | ifElse starts test block kind final =>
    exact .cons (by simp [starts]) ((Token.Tidy.of_inner test.inner).append
      ((block.tidy (·.tidy)).append (.cons (by simp [kind]) (final.tidy (·.tidy)))))
  | elseIf starts test block kind _ final =>
    exact .cons (by simp [starts]) ((Token.Tidy.of_inner test.inner).append
      ((block.tidy (·.tidy)).append (.cons (by simp [kind]) final.tidy)))
  | loop starts block => exact .cons (by simp [starts]) (block.tidy (·.tidy))
  | «for» starts kind separates elements block =>
    exact .cons (by simp [starts]) (.cons (by simp [kind]) (.cons (by simp [separates])
      ((Token.Tidy.of_inner elements.inner).append (block.tidy (·.tidy)))))

theorem Stmt.SpelledUpTo.tidy {last : TokenKind} {stmts : List Stmt} {as : List Token}
    (h : Stmt.SpelledUpTo last stmts as) : Token.Tidy as := by
  cases h with
  | nil => exact .nil
  | cons first ends others => exact ends.tidy first first.tidy others.tidy

end

theorem Stmt.SpelledIn.closes (h : Stmt.SpelledIn body span as) :
    ∃ front t, as = front ++ [t] ∧ t.kind = .rightBrace := by
  cases h with
  | @braces _ first last inner _ _ closes => exact ⟨first :: inner, last, rfl, closes⟩

theorem Stmt.Spelled.closes {s : Stmt} {as : List Token} (h : s.Spelled as)
    (compound : s.isSimple = false) : ∃ front t, as = front ++ [t] ∧ t.kind = .rightBrace := by
  cases h with
  | declare | var | define | assign | «include» | expr | leave | «return» | «break» | «continue» =>
    cases compound
  | @function _ _ _ word name first other as _ _ _ _ _ _ block =>
    obtain ⟨front, t, rfl, closes⟩ := block.closes
    exact ⟨word :: name :: first :: (as ++ other :: front), t, by simp, closes⟩
  | block block => exact block.closes
  | @ifThen _ _ _ word as _ _ _ block | @«while» _ _ _ word as _ _ _ block =>
    obtain ⟨front, t, rfl, closes⟩ := block.closes
    exact ⟨word :: (as ++ front), t, by simp, closes⟩
  | @ifElse _ _ _ _ _ word other as bs _ _ _ _ _ final =>
    obtain ⟨front, t, rfl, closes⟩ := final.closes
    exact ⟨word :: (as ++ (bs ++ other :: front)), t, by simp, closes⟩
  | @elseIf _ _ _ _ word other as bs _ _ _ _ _ isIf final =>
    obtain ⟨front, t, rfl, closes⟩ := final.closes (Stmt.not_simple_of_isIf isIf)
    exact ⟨word :: (as ++ (bs ++ other :: front)), t, by simp, closes⟩
  | @loop _ _ word _ _ block =>
    obtain ⟨front, t, rfl, closes⟩ := block.closes
    exact ⟨word :: front, t, by simp, closes⟩
  | @«for» _ _ _ word name other as _ _ _ _ _ block =>
    obtain ⟨front, t, rfl, closes⟩ := block.closes
    exact ⟨word :: name :: other :: (as ++ front), t, by simp, closes⟩

theorem nextKind_ne_of_append (h : nextKind .endOfInput (as ++ bs) ≠ .semicolon) :
    nextKind .endOfInput as ≠ .semicolon := by
  cases as with
  | nil => decide
  | cons => exact h

/-- Tokens with a statement somewhere in them, of which something holds whichever way the
statement is spelled, as long as it begins with the same token, and also with a semicolon behind
it, if one can belong to it and none does. -/
inductive Stmt.Slot (s : Stmt) (holds : List Token → Prop) : List Token → Prop where
  | mk {front as back : List Token} (spelled : s.Spelled as)
    (respelled : ∀ {bs}, s.Spelled bs → bs.head? = as.head? → holds (front ++ (bs ++ back)))
    (semicolon : ∀ {mark : Token}, mark.kind = .semicolon → s.isSimple →
      nextKind .endOfInput back ≠ .semicolon → holds (front ++ (as ++ mark :: back))) :
    Slot s holds (front ++ (as ++ back))

theorem Stmt.Slot.wrap {holds holds' : List Token → Prop} (h : s.Slot holds tokens)
    (before after : List Token) (fill : ∀ as, as.head? = tokens.head? → holds as →
      holds' (before ++ (as ++ after))) : s.Slot holds' (before ++ (tokens ++ after)) := by
  cases h with
  | @mk front as back spelled respelled semicolon =>
    have begins {bs : List Token} (same : bs.head? = as.head?) (cs : List Token) :
        (front ++ (bs ++ cs)).head? = (front ++ (as ++ back)).head? := by
      obtain ⟨t, ts, rfl, -⟩ := spelled.starts
      obtain ⟨ts', rfl⟩ := List.head?_eq_some_iff.mp same
      exact head?_append_of_head? rfl
    have slot : s.Slot holds' ((before ++ front) ++ (as ++ (back ++ after))) := by
      refine .mk spelled (fun {bs} again same => ?_) fun {mark} kind simple next => ?_
      · simpa using fill _ (begins same back) (respelled again same)
      · have followed := semicolon kind simple (nextKind_ne_of_append next)
        simpa using fill _ (begins rfl (mark :: back)) followed
    simpa using slot

theorem Stmt.SpelledUpTo.slot (h : Stmt.SpelledUpTo last stmts tokens) (hs : s ∈ stmts) :
    s.Slot (Stmt.SpelledUpTo last stmts) tokens := by
  induction stmts generalizing tokens with
  | nil => cases hs
  | cons first rest ih =>
    cases h with
    | @cons _ _ _ as bs cs spelled ends others =>
      rcases List.mem_cons.mp hs with rfl | later
      · have respelled {ds : List Token} (again : s.Spelled ds) :
            Stmt.SpelledUpTo last (s :: rest) (ds ++ bs) := .cons again ends others
        have followed {mark : Token} (kind : mark.kind = .semicolon) (simple : s.isSimple)
            (next : nextKind .endOfInput bs ≠ .semicolon) :
            Stmt.SpelledUpTo last (s :: rest) (as ++ mark :: bs) := by
          refine .cons spelled (.semicolon simple kind) ?_
          cases ends with
          | semicolon _ kind => exact absurd kind next
          | without => exact others
        exact @Stmt.Slot.mk s _ [] as bs spelled (fun again _ => respelled again) followed
      · cases ends with
        | @semicolon t _ simple kind =>
          have slot := (ih others later).wrap (as ++ [t]) [] fun ds _ h => by
            have more : Stmt.SpelledUpTo last (first :: rest) (as ++ t :: ds) :=
              .cons spelled (.semicolon simple kind) h
            simpa using more
          simpa using slot
        | without ends =>
          have slot := (ih others later).wrap as [] fun ds same h => by
            have ends : first.EndsAt last ds ds := .without (by rwa [nextKind_of_head? same])
            simpa using Stmt.SpelledUpTo.cons spelled ends h
          simpa using slot

theorem Stmt.SpelledIn.slot (h : Stmt.SpelledIn body span tokens) (hs : s ∈ body) :
    s.Slot (Stmt.SpelledIn body span) tokens := by
  cases h with
  | @braces _ first last _ opens inner closes =>
    exact (inner.slot hs).wrap [first] [last] fun _ _ h => .braces opens h closes

theorem Stmt.Slot.alone (h : s.Spelled as) (isIf : s.isIf) : s.Slot s.Spelled as := by
  have slot : s.Slot s.Spelled ([] ++ (as ++ [])) :=
    .mk h (fun again _ => by simpa using again) fun _ simple _ => by
      rw [not_simple_of_isIf isIf] at simple
      cases simple
  simpa using slot

theorem Stmt.Spelled.slot {whole : Stmt} (h : whole.Spelled tokens)
    (hs : s ∈ whole.children ++ whole.definition) : s.Slot whole.Spelled tokens := by
  cases h with
  | declare | var | define | assign | «include» | expr | leave | «return» | «break» | «continue» =>
    cases hs
  | @function _ _ _ word name first last as _ starts kind opens names closes block =>
    have slot := (block.slot hs).wrap (word :: name :: first :: (as ++ [last])) [] fun bs _ h => by
      simpa using Stmt.Spelled.function starts kind opens names closes h
    simpa using slot
  | block block =>
    have slot := (block.slot (by simpa [children, definition] using hs)).wrap [] [] fun bs _ h => by
      simpa using Stmt.Spelled.block h
    simpa using slot
  | @loop _ _ word _ starts block =>
    have slot := (block.slot (by simpa [children, definition] using hs)).wrap [word] []
      fun bs _ h => by simpa using Stmt.Spelled.loop starts h
    simpa using slot
  | @ifThen _ _ _ word as _ starts test block =>
    have slot := (block.slot (by simpa [children, definition] using hs)).wrap (word :: as) []
      fun bs _ h => by simpa using Stmt.Spelled.ifThen starts test h
    simpa using slot
  | @«while» _ _ _ word as _ starts test block =>
    have slot := (block.slot (by simpa [children, definition] using hs)).wrap (word :: as) []
      fun bs _ h => by simpa using Stmt.Spelled.while starts test h
    simpa using slot
  | @«for» _ _ _ word name other as _ starts kind separates elements block =>
    have slot := (block.slot (by simpa [children, definition] using hs)).wrap
      (word :: name :: other :: as) []
      fun bs _ h => by simpa using Stmt.Spelled.for starts kind separates elements h
    simpa using slot
  | @ifElse _ body otherwise _ _ word other as bs cs starts test block kind final =>
    have hs : s ∈ body ∨ s ∈ otherwise := by simpa [children, definition] using hs
    rcases hs with inside | inside
    · have slot := (block.slot inside).wrap (word :: as) (other :: cs)
        fun ds _ h => by simpa using Stmt.Spelled.ifElse starts test h kind final
      simpa using slot
    · have slot := (final.slot inside).wrap (word :: (as ++ (bs ++ [other]))) []
        fun ds _ h => by simpa using Stmt.Spelled.ifElse starts test block kind h
      simpa using slot
  | @elseIf _ body _ next word other as bs cs starts test block kind isIf final =>
    have hs : s ∈ body ∨ s = next := by simpa [children, definition] using hs
    rcases hs with inside | rfl
    · have slot := (block.slot inside).wrap (word :: as) (other :: cs)
        fun ds _ h => by simpa using Stmt.Spelled.elseIf starts test h kind isIf final
      simpa using slot
    · have slot := (Slot.alone final isIf).wrap (word :: (as ++ (bs ++ [other]))) []
        fun ds _ h => by simpa using Stmt.Spelled.elseIf starts test block kind isIf h
      simpa using slot

/-- A statement of a program, at any depth, has its slot there. -/
theorem Node.Within.slot (within : Node.Within program (.stmt s))
    (spelled : program.Spelled tokens) : s.Slot program.Spelled tokens := by
  generalize same : Node.stmt s = node at within
  induction within generalizing s with
  | top hs =>
    obtain rfl := Node.stmt.inj same
    exact Stmt.SpelledUpTo.slot spelled hs
  | @part node part whole hp ih =>
    subst same
    cases node with
    | expr e => simp [parts] at hp
    | stmt outer =>
      have hs : s ∈ outer.children ++ outer.definition := by simpa [parts] using hp
      cases ih rfl with
      | @mk front _ back outside respelled _ =>
        exact (outside.slot hs).wrap front back fun _ same again => respelled again same

/-- Whether tokens are parted directly behind the last token of a statement, which is where its
span stops. The end of the input, where the last span may stop as well, is not the last token of a
statement. -/
structure Stmt.Parts (s : Stmt) (tokens front back : List Token) : Prop where
  split : tokens = front ++ back
  stops : ∃ t ∈ front.getLast?, t.span.stop = s.span.stop
  inside : back ≠ []

theorem Stmt.Parts.unique {front' back' : List Token} {final : Token}
    (ordered : (front ++ t :: back).Pairwise fun t u => t.span.stop < u.span.stop)
    (stops : t.span.stop = s.span.stop)
    (h : s.Parts ((front ++ t :: back) ++ [final]) front' back') :
    front' = front ++ [t] ∧ back' = back ++ [final] := by
  obtain ⟨split, ⟨t', ht, stops'⟩, inside⟩ := h
  obtain ⟨front', rfl⟩ := List.getLast?_eq_some_iff.mp ht
  obtain ⟨back', final', rfl⟩ := (List.eq_nil_or_concat' back').resolve_left inside
  rw [← List.append_assoc] at split
  obtain ⟨split, final⟩ := List.append_inj' split rfl
  obtain ⟨-, later, apart⟩ := List.pairwise_append.mp ordered
  have before : t' ∉ front := fun ht => by
    have less := apart t' ht t (by simp)
    omega
  have behind : t' ∉ back := fun ht => by
    have less := (List.pairwise_cons.mp later).1 t' ht
    omega
  rw [List.append_assoc, List.singleton_append] at split
  obtain ⟨rfl, rfl, rfl⟩ := (List.append_cons_inj_of_notMem before behind).mp split
  exact ⟨rfl, by rw [final]⟩

/-- No semicolon can follow a loop. -/
theorem loop_refuses_semicolon :
    let front : List Token := [⟨.keyword .loop, "loop", ⟨0, 4, 1⟩⟩, ⟨.leftBrace, "\x7b", ⟨5, 6, 1⟩⟩,
      ⟨.rightBrace, "\x7d", ⟨7, 8, 1⟩⟩]
    let back : List Token := [⟨.endOfInput, "", ⟨8, 8, 1⟩⟩]
    let semicolon : Token := ⟨.semicolon, ";", ⟨8, 9, 1⟩⟩
    let s : Stmt := .loop ⟨0, 8, 1⟩ []
    (tokenize "loop \x7b \x7d").toOption = some (front ++ back) ∧
      parseTokens (front ++ back) = .ok [s] ∧ s.Parts (front ++ back) front back ∧
      parseTokens (front ++ semicolon :: back) = .error ⟨.expression, semicolon :: back⟩ :=
  ⟨by decide +kernel, rfl, ⟨rfl, ⟨_, rfl, rfl⟩, List.cons_ne_nil _ _⟩, rfl⟩

end Script
