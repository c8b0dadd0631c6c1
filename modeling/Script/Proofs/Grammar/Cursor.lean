import Script.Proofs.Grammar.Blame

namespace Script

/-- The tokens of a text, and how many of them have been read. -/
structure Cursor where
  tokens : List Token
  current : Nat

namespace Cursor

def start (tokens : List Token) : Cursor := ⟨tokens, 0⟩

/-- The tokens that have not been read. -/
def rest (c : Cursor) : List Token := c.tokens.drop c.current

/-- Whether the end of the input comes next, or no token at all. -/
def atEnd (c : Cursor) : Bool := nextKind .endOfInput c.rest = .endOfInput

/-- The token read last, which is the first one as long as none has been read; nothing if there is
no token at that position. -/
def previous? (c : Cursor) : Option Token := c.tokens[c.current - 1]?

def moved (c : Cursor) : Cursor := if c.atEnd then c else { c with current := c.current + 1 }

/-- Moves on, except at the end, and hands over the token read last. -/
def advance? (c : Cursor) : Option (Token × Cursor) :=
  c.moved.previous?.map fun token => (token, c.moved)

/-- Where a cursor can come to, however often it is moved on. -/
inductive Reaches (c : Cursor) : Cursor → Prop where
  | here : Reaches c c
  | advance {d e : Cursor} {t : Token} : Reaches c d → d.advance? = some (t, e) → Reaches c e

variable {read tokens : List Token} {last : Token} {c d : Cursor}

theorem advance?_of_lt (inside : c.current < c.tokens.length) (more : ¬c.atEnd) :
    c.advance? = some (c.tokens[c.current], { c with current := c.current + 1 }) := by
  have moves : c.moved = { c with current := c.current + 1 } := if_neg more
  have found : c.moved.previous? = some c.tokens[c.current] := by
    rw [moves, previous?, Nat.add_sub_cancel]
    exact List.getElem?_eq_getElem inside
  rw [advance?, found, moves]
  rfl

theorem advance?_of_atEnd (ends : c.atEnd) : c.advance? = c.previous?.map (·, c) := by
  rw [advance?, show c.moved = c from if_pos ends]

theorem exists_previous (inside : c.current < c.tokens.length) : ∃ t, c.previous? = some t := by
  have earlier : c.current - 1 < c.tokens.length := by omega
  exact ⟨c.tokens[c.current - 1], List.getElem?_eq_getElem earlier⟩

/-- The end of the input is a token that is never passed. -/
theorem Reaches.current_lt (kind : last.kind = .endOfInput)
    (h : (start (read ++ [last])).Reaches c) :
    c.tokens = read ++ [last] ∧ c.current < c.tokens.length := by
  induction h with
  | here => exact ⟨rfl, by simp [start]⟩
  | @advance d e t _ step ih =>
    obtain ⟨same, inside⟩ := ih
    by_cases ends : d.atEnd
    · rw [advance?_of_atEnd ends] at step
      obtain ⟨_, -, moved⟩ := Option.map_eq_some_iff.mp step
      obtain rfl := (Prod.mk.inj moved).2
      exact ⟨same, inside⟩
    · rw [advance?_of_lt inside ends] at step
      obtain rfl := (Prod.mk.inj (Option.some.inj step)).2
      have before : d.current ≠ read.length := by
        intro all
        have left : d.rest = [last] := by rw [rest, same, all, List.drop_left]
        exact ends (by simp [atEnd, left, nextKind, kind])
      rw [same, List.length_append, List.length_singleton] at inside
      refine ⟨same, ?_⟩
      rw [same, List.length_append, List.length_singleton]
      change d.current + 1 < read.length + 1
      omega

theorem reaches_of_ne_endOfInput {behind : List Token} (inside : ∀ t ∈ read, t.kind ≠ .endOfInput) :
    (start (read ++ behind)).Reaches ⟨read ++ behind, read.length⟩ := by
  induction read using List.reverseRecOn generalizing behind with
  | nil => exact .here
  | append_singleton front t ih =>
    have earlier (u) (hu : u ∈ front) : u.kind ≠ .endOfInput :=
      inside u (List.mem_append_left _ hu)
    have passed : (start (front ++ t :: behind)).Reaches ⟨front ++ t :: behind, front.length⟩ :=
      ih earlier
    rw [List.append_assoc, List.singleton_append]
    refine passed.advance (t := t) ?_
    have more : ¬(Cursor.mk (front ++ t :: behind) front.length).atEnd := by
      have kind : t.kind ≠ .endOfInput := inside t (by simp)
      simp [atEnd, rest, nextKind, kind]
    rw [advance?_of_lt (by simp) more]
    simp

end Cursor

namespace Parser

/-- The tokens that are left where a parser stops, with a result or without. -/
def leaves {α : Type} : Except ParseFailure (α × List Token) → List Token
  | .ok (_, rest) => rest
  | .error f => f.remaining

/-- Whether a cursor that parses tokens stays on them. -/
structure StaysOn (tokens : List Token) : Prop where
  /-- Wherever the cursor is, there is a token read last. -/
  previous : ∀ c, (Cursor.start tokens).Reaches c → c.previous?.isSome
  /-- The cursor can be moved on. What it hands over then is what a parser reads next. -/
  advance : ∀ c, (Cursor.start tokens).Reaches c → ∃ t d, c.advance? = some (t, d) ∧
    (¬c.atEnd → next c.rest = .ok (t, d.rest))
  /-- Where the parser stops, the cursor has come to. -/
  stops : ∃ c, (Cursor.start tokens).Reaches c ∧
    leaves (statementsUntil (parseFuel tokens) .endOfInput tokens) = c.rest
  /-- Tokens behind the last one would not be looked at. -/
  unseen : ∀ behind, parseTokens (tokens ++ behind) =
    (parseTokens tokens).mapError fun f => ⟨f.error, f.remaining ++ behind⟩

variable {read : List Token} {last : Token}

theorem exists_leaves (read : List Token) (kind : last.kind = .endOfInput) :
    ∃ front t behind, read ++ [last] = front ++ t :: behind ∧
      (∀ u ∈ front, u.kind ≠ .endOfInput) ∧
      leaves (statementsUntil (parseFuel (read ++ [last])) .endOfInput (read ++ [last])) =
        t :: behind := by
  have some_left {front left : List Token} (split : read ++ [last] = front ++ left)
      (inside : ∀ u ∈ front, u.kind ≠ .endOfInput) : ∃ t behind, left = t :: behind := by
    refine List.exists_cons_of_ne_nil ?_
    rintro rfl
    rw [List.append_nil] at split
    exact inside last (by simp [← split]) kind
  cases parsed : statementsUntil (parseFuel (read ++ [last])) .endOfInput (read ++ [last]) with
  | ok p =>
    obtain ⟨program, left⟩ := p
    obtain ⟨⟨⟨front, split, spelled⟩, -⟩, -⟩ := (readsStmt _).statementsUntil parsed
    obtain ⟨t, behind, rfl⟩ := some_left split spelled.kind_ne
    exact ⟨front, t, behind, split, spelled.kind_ne, rfl⟩
  | error f =>
    obtain ⟨-, front, more, split, _, spelled, -⟩ :=
      parseTokens_breaksOff (parseTokens_eq_error.mpr parsed)
    have inside (u) (hu : u ∈ front) : u.kind ≠ .endOfInput :=
      spelled.kind_ne u (List.mem_append_left more hu)
    obtain ⟨t, behind, remaining⟩ := some_left split inside
    exact ⟨front, t, behind, by rw [split, remaining], inside, remaining⟩

theorem parseTokens_append {tokens behind : List Token} {t : Token}
    (left : leaves (statementsUntil (parseFuel tokens) .endOfInput tokens) = t :: behind)
    (others : List Token) : parseTokens (tokens ++ others) =
      (parseTokens tokens).mapError fun f => ⟨f.error, f.remaining ++ others⟩ := by
  have more : parseFuel tokens ≤ parseFuel (tokens ++ others) := by
    simp only [parseFuel, List.length_append]
    omega
  have same : (t :: behind ++ others).head? = (t :: behind).head? := rfl
  cases parsed : statementsUntil (parseFuel tokens) .endOfInput tokens with
  | ok p =>
    obtain ⟨program, rest⟩ := p
    obtain rfl : rest = t :: behind := by rwa [parsed] at left
    obtain ⟨front, split, again⟩ := (localStmt more).statementsUntil.ok parsed
    have repeated := again _ same
    rw [← List.append_assoc, ← split] at repeated
    rw [parseTokens, parseTokens, repeated, parsed]
    rfl
  | error f =>
    obtain ⟨e, rest⟩ := f
    obtain rfl : rest = t :: behind := by rwa [parsed] at left
    have fueled := (parseTokens_breaksOff (parseTokens_eq_error.mpr parsed)).fueled
    obtain ⟨front, split, again⟩ := (localStmt more).statementsUntil.error parsed fueled
    have repeated := again _ same
    rw [← List.append_assoc, ← split] at repeated
    rw [parseTokens_eq_error.mpr repeated, parseTokens_eq_error.mpr parsed]
    rfl

theorem staysOn (kind : last.kind = .endOfInput) : StaysOn (read ++ [last]) := by
  obtain ⟨front, t, behind, split, inside, left⟩ := exists_leaves read kind
  refine ⟨fun c reached => ?_, fun c reached => ?_, ?_, parseTokens_append left⟩
  · obtain ⟨t, found⟩ := Cursor.exists_previous (reached.current_lt kind).2
    rw [found]
    rfl
  · obtain ⟨-, within⟩ := reached.current_lt kind
    by_cases ends : c.atEnd
    · obtain ⟨t, found⟩ := Cursor.exists_previous within
      refine ⟨t, c, ?_, fun more => absurd ends more⟩
      rw [Cursor.advance?_of_atEnd ends, found]
      rfl
    · refine ⟨_, _, Cursor.advance?_of_lt within ends, fun _ => ?_⟩
      exact next_eq_ok.mpr (List.drop_eq_getElem_cons within)
  · refine ⟨⟨read ++ [last], front.length⟩, ?_, ?_⟩
    · rw [split]
      exact Cursor.reaches_of_ne_endOfInput inside
    · rw [left, Cursor.rest, split, List.drop_left]

/-- The tokens of a text end where the input does, so no cursor leaves them. -/
theorem staysOn_tokenize {source : String} {tokens : List Token}
    (lexed : tokenize source = .ok tokens) : StaysOn tokens := by
  obtain ⟨read, last, rfl, kind, -⟩ := tokensFrom_ends lexed
  exact staysOn kind

end Parser

end Script
