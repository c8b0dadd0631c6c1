import Script.Proofs.Grammar

namespace Script

namespace Parser

variable {α β : Type} {tokens rest : List Token} {kind : TokenKind} {error : ParseError} {t : Token}

theorem bind_eq_ok {x : Parser α} {next : α → Parser β} {b : β} :
    (x >>= next) tokens = .ok (b, rest) ↔
      ∃ a middle, x tokens = .ok (a, middle) ∧ next a middle = .ok (b, rest) := by
  change (x tokens >>= fun p => next p.1 p.2) = _ ↔ _
  cases h : x tokens with
  | error e => simp [bind, Except.bind]
  | ok p =>
    obtain ⟨a, middle⟩ := p
    simp [bind, Except.bind, and_assoc]

theorem bind_of_ok {x : Parser α} {next : α → Parser β} {a : α}
    (h : x tokens = .ok (a, rest)) : (x >>= next) tokens = next a rest := by
  change (x tokens >>= fun p => next p.1 p.2) = _
  rw [h]
  rfl

theorem bind_eq_error {x : Parser α} {next : α → Parser β} {f : ParseFailure} :
    (x >>= next) tokens = .error f ↔
      x tokens = .error f ∨ ∃ a middle, x tokens = .ok (a, middle) ∧ next a middle = .error f := by
  change (x tokens >>= fun p => next p.1 p.2) = _ ↔ _
  cases h : x tokens with
  | error e => simp [bind, Except.bind]
  | ok p =>
    obtain ⟨a, middle⟩ := p
    simp [bind, Except.bind, and_assoc]

theorem bind_of_error {x : Parser α} {next : α → Parser β} {f : ParseFailure}
    (h : x tokens = .error f) : (x >>= next) tokens = .error f :=
  bind_eq_error.mpr (.inl h)

theorem pure_eq_ok {a b : α} :
    (pure a : Parser α) tokens = .ok (b, rest) ↔ a = b ∧ tokens = rest := by
  change Except.ok (a, tokens) = Except.ok (b, rest) ↔ _
  simp

theorem fail_ne_ok {a : α} : (fail error : Parser α) tokens ≠ .ok (a, rest) := nofun

theorem failAt_ne_ok {a : α} : (failAt t error : Parser α) tokens ≠ .ok (a, rest) := nofun

theorem peek_bind {next : TokenKind → Parser β} :
    (peek >>= next) tokens = next (nextKind .endOfInput tokens) tokens := by
  cases tokens <;> rfl

theorem next_bind {read : Token → Parser β} : (next >>= read) (t :: rest) = read t rest := rfl

theorem expect_bind {read : Token → Parser β} (hk : t.kind = kind) :
    (expect kind error >>= read) (t :: rest) = read t rest :=
  bind_of_ok (by simp [expect, hk])

theorem accept_bind {read : Bool → Parser β} (hk : t.kind = kind) :
    (accept kind >>= read) (t :: rest) = read true rest :=
  bind_of_ok (by simp [accept, hk])

theorem next_eq_ok : next tokens = .ok (t, rest) ↔ tokens = t :: rest := by
  cases tokens <;> simp [next]

theorem expect_eq_ok :
    expect kind error tokens = .ok (t, rest) ↔ tokens = t :: rest ∧ t.kind = kind := by
  cases tokens with
  | nil => simp [expect]
  | cons first others =>
    by_cases h : first.kind = kind
    · have same (hf : first = t) : t.kind = kind := hf ▸ h
      simp only [expect, h, if_true, Except.ok.injEq, Prod.mk.injEq, List.cons.injEq]
      exact ⟨fun he => ⟨he, same he.1⟩, fun he => he.1⟩
    · simp only [expect, h, if_false, List.cons.injEq, reduceCtorEq, false_iff]
      rintro ⟨⟨rfl, -⟩, hk⟩
      exact h hk

theorem accept_eq_ok :
    accept kind tokens = .ok (true, rest) ↔ ∃ t, tokens = t :: rest ∧ t.kind = kind := by
  cases tokens with
  | nil => simp [accept]
  | cons first others =>
    by_cases h : first.kind = kind
    · simp only [accept, h, if_true, Except.ok.injEq, Prod.mk.injEq, true_and, List.cons.injEq]
      exact ⟨fun he => ⟨first, ⟨rfl, he⟩, h⟩, fun ⟨_, he, _⟩ => he.2⟩
    · simp only [accept, h, if_false, Except.ok.injEq, Prod.mk.injEq, List.cons.injEq,
        Bool.false_eq_true, false_and, false_iff]
      rintro ⟨t, ⟨rfl, -⟩, hk⟩
      exact h hk

theorem accept_eq_ok_false (hk : kind ≠ .endOfInput) :
    accept kind tokens = .ok (false, rest) ↔
      tokens = rest ∧ nextKind .endOfInput tokens ≠ kind := by
  cases tokens with
  | nil => simp [accept, nextKind, hk.symm]
  | cons first others => by_cases h : first.kind = kind <;> simp [accept, nextKind, h]

theorem accept_bind_of_ne {read : Bool → Parser β} (hk : kind ≠ .endOfInput)
    (hn : nextKind .endOfInput tokens ≠ kind) : (accept kind >>= read) tokens = read false tokens :=
  bind_of_ok ((accept_eq_ok_false hk).mpr ⟨rfl, hn⟩)

theorem optionalSemicolon_eq_ok : optionalSemicolon tokens = .ok ((), rest) ↔
    (∃ t, tokens = t :: rest ∧ t.kind = .semicolon) ∨
      tokens = rest ∧ nextKind .endOfInput tokens ≠ .semicolon := by
  rw [optionalSemicolon, bind_eq_ok]
  constructor
  · rintro ⟨_ | _, middle, h, hr⟩
    · obtain ⟨-, rfl⟩ := pure_eq_ok.mp hr
      exact .inr ((accept_eq_ok_false (by simp)).mp h)
    · obtain ⟨-, rfl⟩ := pure_eq_ok.mp hr
      exact .inl (accept_eq_ok.mp h)
  · rintro (h | h)
    · exact ⟨true, rest, accept_eq_ok.mpr h, rfl⟩
    · exact ⟨false, rest, (accept_eq_ok_false (by simp)).mpr h, rfl⟩

theorem exists_cons_of_nextKind {k : TokenKind} (h : nextKind .endOfInput tokens = k)
    (more : k ≠ .endOfInput) : ∃ t rest, tokens = t :: rest ∧ t.kind = k := by
  cases tokens with
  | nil => exact absurd h.symm more
  | cons t rest => exact ⟨t, rest, rfl, h⟩

variable {f : ParseFailure}

theorem pure_ne_error {a : α} : (pure a : Parser α) tokens ≠ .error f := nofun

theorem fail_eq_error : (fail error : Parser α) tokens = .error f ↔ f = ⟨error, tokens⟩ := by
  simp [fail, eq_comm]

theorem expect_bind_error {read : Token → Parser β}
    (h : (expect kind error >>= read) tokens = .error f) :
    f = ⟨error, tokens⟩ ∨
      ∃ t rest, tokens = t :: rest ∧ t.kind = kind ∧ read t rest = .error f := by
  cases tokens with
  | nil =>
    cases h
    exact .inl rfl
  | cons t rest =>
    by_cases hk : t.kind = kind
    · rw [expect_bind hk] at h
      exact .inr ⟨t, rest, rfl, hk, h⟩
    · have refused : expect kind error (t :: rest) = .error ⟨error, t :: rest⟩ := by
        simp [expect, hk]
      cases (bind_of_error refused).symm.trans h
      exact .inl rfl

theorem accept_bind_error {read : Bool → Parser β}
    (h : (accept kind >>= read) tokens = .error f) :
    (∃ t rest, tokens = t :: rest ∧ t.kind = kind ∧ read true rest = .error f) ∨
      read false tokens = .error f := by
  cases tokens with
  | nil => exact .inr h
  | cons t rest =>
    by_cases hk : t.kind = kind
    · rw [accept_bind hk] at h
      exact .inl ⟨t, rest, rfl, hk, h⟩
    · have absent : accept kind (t :: rest) = .ok (false, t :: rest) := by simp [accept, hk]
      rw [bind_of_ok absent] at h
      exact .inr h

theorem optionalSemicolon_bind_ne_error {a : α} :
    (optionalSemicolon >>= fun _ => pure a) tokens ≠ .error f := by
  intro h
  rcases bind_eq_error.mp h with ended | ⟨_, _, -, finished⟩
  · rcases accept_bind_error ended with ⟨_, _, -, -, finished⟩ | finished
    · exact pure_ne_error finished
    · exact pure_ne_error finished
  · exact pure_ne_error finished

end Parser

end Script
