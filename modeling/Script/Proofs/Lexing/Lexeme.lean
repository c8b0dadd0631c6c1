import Script.Proofs.Lexing
import Script.Proofs.Lexing.Layout

namespace Script

/-- What the body of a string literal denotes. A quote without a backslash in front is in none. -/
def decode : List Char → Option (List Char)
  | [] => some []
  | ['\\'] => none
  | '\\' :: c :: cs => (decode cs).map (unescape c :: ·)
  | c :: cs => if c = '"' then none else (decode cs).map (c :: ·)

/-- What may follow the first digit of a number. -/
inductive NumberTail : Bool → List Char → Prop where
  | nil {pointSeen : Bool} : NumberTail pointSeen []
  | digit {pointSeen : Bool} {c : Char} {cs : List Char} (digit : c.isDigit || c == '_')
    (others : NumberTail pointSeen cs) : NumberTail pointSeen (c :: cs)
  | point {d : Char} {cs : List Char} (digit : d.isDigit) (others : NumberTail true (d :: cs)) :
    NumberTail false ('.' :: d :: cs)
  | exponent {pointSeen : Bool} {c : Char} {cs : List Char} (mark : c = 'e' ∨ c = 'E')
    (others : NumberTail pointSeen cs) : NumberTail pointSeen (c :: cs)
  | signedExponent {pointSeen : Bool} {c d : Char} {cs : List Char} (mark : c = 'e' ∨ c = 'E')
    (sign : d = '+' ∨ d = '-') (others : NumberTail pointSeen cs) :
    NumberTail pointSeen (c :: d :: cs)

/-- Whether a character begins no word, no number and no string literal. -/
def IsMark (c : Char) : Prop := c ≠ '"' ∧ isWordStart c = false ∧ c.isDigit = false

/-- The slices of source text that are tokens, with the kind and the lexeme of the token. -/
inductive Lexeme : TokenKind → String → List Char → Prop where
  | word {c : Char} {cs : List Char} (start : isWordStart c) (parts : ∀ d ∈ cs, isWordPart d) :
    Lexeme (wordKind (String.ofList (c :: cs))) (String.ofList (c :: cs)) (c :: cs)
  | number {c : Char} {cs : List Char} (digit : c.isDigit) (tail : NumberTail false cs) :
    Lexeme .number (String.ofList (c :: cs)) (c :: cs)
  | string {body text : List Char} (decoded : decode body = some text) :
    Lexeme .string (String.ofList text) ('"' :: (body ++ ['"']))
  | pair {c d : Char} {kind : TokenKind} (pair : pairKind? c d = some kind) :
    Lexeme kind (String.ofList [c, d]) [c, d]
  | single {c : Char} (mark : IsMark c) : Lexeme (singleKind c) (String.ofList [c]) [c]

/-- Whether no lexeme at the beginning of a text is longer than `slice`. -/
def NoneLonger (slice cs : List Char) : Prop :=
  ∀ kind lexeme other, Lexeme kind lexeme other → other <+: cs → other.length ≤ slice.length

/-- Whether a string literal is never closed in the text behind its first quote. -/
def NeverEnds (cs : List Char) : Prop := ∀ body, body ++ ['"'] <+: cs → decode body = none

variable {c d : Char} {cs rest body text read slice : List Char} {kind : TokenKind}
  {lexeme : String} {pointSeen : Bool} {p q : Place}

theorem ne_backslash (alone : c = '\\' → cs = [] → False)
    (escaping : ∀ d rest, c = '\\' → cs = d :: rest → False) : c ≠ '\\' := by
  rintro rfl
  cases cs with
  | nil => exact alone rfl rfl
  | cons d rest => exact escaping d rest rfl rfl

theorem decode_char (notSlash : c ≠ '\\') (notQuote : c ≠ '"') :
    decode (c :: cs) = (decode cs).map (c :: ·) := by
  rw [decode, if_neg notQuote]
  · exact fun h _ => notSlash h
  · exact fun _ _ h _ => notSlash h

theorem scanString_char (notSlash : c ≠ '\\') (notQuote : c ≠ '"') :
    scanString read p (c :: cs) = scanString (c :: read) (p.step c) cs := by
  rw [scanString, if_neg notQuote]
  · exact fun h _ => notSlash h
  · exact fun _ _ h _ => notSlash h

theorem scanString_decode (h : decode body = some text) (read : List Char) (p : Place) :
    scanString read p (body ++ '"' :: rest) =
      .closed (read.reverse ++ text) (p.after (body ++ ['"'])) rest := by
  fun_induction decode body generalizing text read p with
  | case1 =>
    cases h
    simp [scanString, Place.after]
  | case2 => cases h
  | case3 c cs ih =>
    obtain ⟨others, ho, rfl⟩ := Option.map_eq_some_iff.mp h
    have later := ih ho (unescape c :: read) (p.after ['\\', c])
    rw [List.reverse_cons, List.append_assoc, List.singleton_append] at later
    exact later
  | case4 => cases h
  | case5 c cs alone escaping notQuote ih =>
    obtain ⟨others, ho, rfl⟩ := Option.map_eq_some_iff.mp h
    have later := ih ho (c :: read) (p.step c)
    rw [List.reverse_cons, List.append_assoc, List.singleton_append] at later
    exact (scanString_char (ne_backslash alone escaping) notQuote).trans later

theorem scanString_unclosed (h : NeverEnds cs) (read : List Char) (p : Place) :
    scanString read p cs = .unclosed (p.after cs) := by
  fun_induction scanString read p cs with
  | case1 => rfl
  | case2 => rfl
  | case3 read p c cs ih =>
    refine ih fun body front => ?_
    have none := h ('\\' :: c :: body) (by simpa using front)
    rwa [decode, Option.map_eq_none_iff] at none
  | case4 read p cs =>
    cases h [] (by simp)
  | case5 read p c cs alone escaping notQuote ih =>
    refine ih fun body front => ?_
    have none := h (c :: body) (by simpa using front)
    rwa [decode_char (ne_backslash alone escaping) notQuote, Option.map_eq_none_iff] at none

theorem spanNumber_append (pointSeen : Bool) (cs : List Char) :
    (spanNumber pointSeen cs).1 ++ (spanNumber pointSeen cs).2 = cs := by
  fun_induction spanNumber pointSeen cs <;> simp_all

theorem spanNumber_digit (digit : c.isDigit || c == '_') :
    spanNumber pointSeen (c :: cs) =
      (c :: (spanNumber pointSeen cs).1, (spanNumber pointSeen cs).2) := by
  cases cs with
  | nil => simp [spanNumber, digit]
  | cons d cs => rw [spanNumber, if_pos digit]

theorem spanNumber_point (digit : d.isDigit) : (spanNumber false ('.' :: d :: cs)).1 =
    '.' :: (spanNumber true (d :: cs)).1 := by
  have noDigit : ('.'.isDigit || '.' == '_') = false := by decide
  rw [spanNumber, noDigit]
  simp [digit]

theorem spanNumber_signedExponent (mark : c = 'e' ∨ c = 'E') (sign : d = '+' ∨ d = '-') :
    (spanNumber pointSeen (c :: d :: cs)).1 = c :: d :: (spanNumber pointSeen cs).1 := by
  have noDigit : (c.isDigit || c == '_') = false := by rcases mark with rfl | rfl <;> decide
  have noPoint : c ≠ '.' := by rcases mark with rfl | rfl <;> decide
  rw [spanNumber, noDigit]
  simp [noPoint, mark, sign]

theorem spanNumber_exponent (mark : c = 'e' ∨ c = 'E')
    (unsigned : ∀ d ∈ cs.head?, ¬(d = '+' ∨ d = '-')) :
    (spanNumber pointSeen (c :: cs)).1 = c :: (spanNumber pointSeen cs).1 := by
  have noDigit : (c.isDigit || c == '_') = false := by rcases mark with rfl | rfl <;> decide
  have noPoint : c ≠ '.' := by rcases mark with rfl | rfl <;> decide
  cases cs with
  | nil => rcases mark with rfl | rfl <;> rfl
  | cons d cs =>
    have unsigned := unsigned d rfl
    rw [spanNumber, noDigit]
    simp [noPoint, mark, unsigned]

theorem numberTail_spanNumber (pointSeen : Bool) (cs : List Char) :
    NumberTail pointSeen (spanNumber pointSeen cs).1 := by
  fun_induction spanNumber pointSeen cs with
  | case1 => exact .nil
  | case2 pointSeen c h =>
    by_cases digit : c.isDigit || c == '_'
    · exact .digit digit .nil
    · exact .exponent (by simp_all) .nil
  | case3 => exact .nil
  | case4 pointSeen c d rest digit taken left hs ih =>
    rw [hs] at ih
    exact .digit digit ih
  | case5 pointSeen c d rest noDigit point taken left hs ih =>
    simp only [Bool.and_eq_true, beq_iff_eq, Bool.not_eq_true'] at point
    obtain ⟨⟨rfl, rfl⟩, digit⟩ := point
    rw [hs] at ih
    rw [spanNumber_digit (by simp [digit])] at hs
    cases hs
    exact .point digit ih
  | case6 pointSeen c d rest _ _ mark sign taken left hs ih =>
    rw [hs] at ih
    exact .signedExponent (by simpa using mark) (by simpa using sign) ih
  | case7 pointSeen c d rest _ _ mark _ taken left hs ih =>
    rw [hs] at ih
    exact .exponent (by simpa using mark) ih
  | case8 => exact .nil

theorem NumberTail.unsigned (tail : NumberTail pointSeen cs) :
    ∀ d ∈ cs.head?, ¬(d = '+' ∨ d = '-') := by
  rintro d hd sign
  obtain ⟨rest, rfl⟩ := List.head?_eq_some_iff.mp hd
  rcases sign with rfl | rfl <;> rcases tail with _ | digit | _ | mark | mark <;> simp_all

theorem NumberTail.length_le (tail : NumberTail pointSeen slice) (rest : List Char) :
    slice.length ≤ (spanNumber pointSeen (slice ++ rest)).1.length := by
  induction tail with
  | nil => exact Nat.zero_le _
  | digit digit _ ih =>
    rw [List.cons_append, spanNumber_digit digit]
    exact Nat.succ_le_succ ih
  | point digit _ ih =>
    rw [List.cons_append, List.cons_append, spanNumber_point digit]
    exact Nat.succ_le_succ ih
  | @exponent pointSeen c cs mark others ih =>
    by_cases sign : ∃ d ∈ (cs ++ rest).head?, d = '+' ∨ d = '-'
    · obtain ⟨d, hd, sign⟩ := sign
      obtain ⟨tail, ht⟩ := List.head?_eq_some_iff.mp hd
      cases cs with
      | nil =>
        rw [List.singleton_append, ← List.nil_append rest, ht, spanNumber_signedExponent mark sign]
        simp
      | cons e cs =>
        exact absurd sign (others.unsigned d (by simpa using hd))
    · rw [List.cons_append, spanNumber_exponent mark (by simpa using sign)]
      exact Nat.succ_le_succ ih
  | signedExponent mark sign _ ih =>
    rw [List.cons_append, List.cons_append, spanNumber_signedExponent mark sign]
    exact Nat.succ_le_succ (Nat.succ_le_succ ih)

theorem isMark_of_pairKind? (h : pairKind? c d = some kind) : IsMark c := by
  unfold pairKind? at h
  split at h <;> first | exact ⟨by decide, by decide, by decide⟩ | cases h

theorem isWordStart_of_isDigit (digit : c.isDigit) : isWordStart c = false := by
  rw [Bool.eq_false_iff]
  intro start
  have low := (toNat_of_isWordStart start).1
  have high := (toNat_of_isDigit digit).2
  omega

namespace Lexeme

theorem of_quote (h : Lexeme kind lexeme ('"' :: cs)) : ∃ body text, cs = body ++ ['"'] ∧
    decode body = some text ∧ kind = .string ∧ lexeme = String.ofList text := by
  cases h with
  | word start => exact absurd start (by decide)
  | number digit => exact absurd digit (by decide)
  | string decoded => exact ⟨_, _, rfl, decoded, rfl, rfl⟩
  | pair pair => exact absurd rfl (isMark_of_pairKind? pair).1
  | single mark => exact absurd rfl mark.1

theorem of_wordStart (start : isWordStart c) (h : Lexeme kind lexeme (c :: cs)) :
    (∀ d ∈ cs, isWordPart d) ∧ kind = wordKind (String.ofList (c :: cs)) ∧
      lexeme = String.ofList (c :: cs) := by
  cases h with
  | word _ parts => exact ⟨parts, rfl, rfl⟩
  | number digit => exact absurd start (by simp [isWordStart_of_isDigit digit])
  | string => exact absurd start (by decide)
  | pair pair => exact absurd start (by simp [(isMark_of_pairKind? pair).2.1])
  | single mark => exact absurd start (by simp [mark.2.1])

theorem of_digit (digit : c.isDigit) (h : Lexeme kind lexeme (c :: cs)) :
    NumberTail false cs ∧ kind = .number ∧ lexeme = String.ofList (c :: cs) := by
  cases h with
  | word start => exact absurd start (by simp [isWordStart_of_isDigit digit])
  | number _ tail => exact ⟨tail, rfl, rfl⟩
  | string => exact absurd digit (by decide)
  | pair pair => exact absurd digit (by simp [(isMark_of_pairKind? pair).2.2])
  | single mark => exact absurd digit (by simp [mark.2.2])

theorem of_mark (mark : IsMark c) (h : Lexeme kind lexeme (c :: cs)) :
    lexeme = String.ofList (c :: cs) ∧
      (cs = [] ∧ kind = singleKind c ∨ ∃ d, cs = [d] ∧ pairKind? c d = some kind) := by
  cases h with
  | word start => exact absurd start (by simp [mark.2.1])
  | number digit => exact absurd digit (by simp [mark.2.2])
  | string => exact absurd rfl mark.1
  | pair pair => exact ⟨rfl, .inr ⟨_, rfl, pair⟩⟩
  | single => exact ⟨rfl, .inl ⟨rfl, rfl⟩⟩

theorem ne_nil (h : Lexeme kind lexeme slice) : slice ≠ [] := by
  cases h <;> simp

theorem kind_ne (h : Lexeme kind lexeme slice) : kind ≠ .endOfInput := by
  cases h with
  | word => exact TokenKind.ne_of_isApart isApart_wordKind rfl
  | number | string => simp
  | pair pair => exact TokenKind.ne_of_isApart (isApart_of_pairKind? pair) rfl
  | single => exact TokenKind.ne_of_isApart isApart_singleKind rfl

theorem of_kind (h : Lexeme kind lexeme slice) :
    kind ≠ .string ∧ lexeme = String.ofList slice ∨ kind = .string ∧ ∃ body text,
      slice = '"' :: (body ++ ['"']) ∧ decode body = some text ∧ lexeme = String.ofList text := by
  cases h with
  | word => exact .inl ⟨TokenKind.ne_of_isApart isApart_wordKind rfl, rfl⟩
  | number => exact .inl ⟨by simp, rfl⟩
  | string decoded => exact .inr ⟨rfl, _, _, rfl, decoded, rfl⟩
  | pair pair => exact .inl ⟨TokenKind.ne_of_isApart (isApart_of_pairKind? pair) rfl, rfl⟩
  | single => exact .inl ⟨TokenKind.ne_of_isApart isApart_singleKind rfl, rfl⟩

end Lexeme

/-- Source text determines what kind of token it is and which lexeme the token has. -/
theorem Lexeme.unique {kind' : TokenKind} {lexeme' : String} (h : Lexeme kind lexeme slice)
    (h' : Lexeme kind' lexeme' slice) : kind = kind' ∧ lexeme = lexeme' := by
  cases h with
  | word start =>
    obtain ⟨_, rfl, rfl⟩ := h'.of_wordStart start
    exact ⟨rfl, rfl⟩
  | number digit =>
    obtain ⟨_, rfl, rfl⟩ := h'.of_digit digit
    exact ⟨rfl, rfl⟩
  | string decoded =>
    obtain ⟨body, text, hb, decoded', rfl, rfl⟩ := h'.of_quote
    obtain rfl := List.append_cancel_right hb
    cases decoded.symm.trans decoded'
    exact ⟨rfl, rfl⟩
  | pair pair =>
    obtain ⟨rfl, ⟨empty, _⟩ | ⟨d, hd, pair'⟩⟩ := h'.of_mark (isMark_of_pairKind? pair)
    · cases empty
    · cases hd
      exact ⟨Option.some.inj (pair.symm.trans pair'), rfl⟩
  | single mark =>
    obtain ⟨rfl, ⟨_, rfl⟩ | ⟨d, hd, _⟩⟩ := h'.of_mark mark
    · exact ⟨rfl, rfl⟩
    · cases hd

theorem noneLonger_cons (h : ∀ kind lexeme other rest, Lexeme kind lexeme (c :: other) →
    cs = other ++ rest → other.length ≤ slice.length) : NoneLonger (c :: slice) (c :: cs) := by
  rintro kind lexeme other lx hp
  obtain ⟨d, other, rfl⟩ := List.exists_cons_of_ne_nil lx.ne_nil
  obtain ⟨rfl, rest, rfl⟩ := List.cons_prefix_cons.mp hp
  exact Nat.succ_le_succ (h kind lexeme other rest lx rfl)

theorem decode_unique {body' text' rest' : List Char} (h : decode body = some text)
    (h' : decode body' = some text') (same : body ++ '"' :: rest = body' ++ '"' :: rest') :
    body = body' := by
  have scanned : scanString [] .first (body ++ '"' :: rest) = _ := scanString_decode h [] .first
  rw [same, scanString_decode h'] at scanned
  obtain ⟨-, -, rfl⟩ := StringScan.closed.inj scanned
  exact List.append_cancel_right same

theorem spanToken_word (start : isWordStart c) : spanToken c cs =
    (wordKind (String.ofList (c :: cs.takeWhile isWordPart)), c :: cs.takeWhile isWordPart,
      cs.dropWhile isWordPart) := by
  rw [spanToken.eq_def, if_pos start]

theorem spanToken_number (digit : c.isDigit) : spanToken c cs =
    (.number, c :: (spanNumber false cs).1, (spanNumber false cs).2) := by
  rw [spanToken.eq_def, isWordStart_of_isDigit digit, if_neg Bool.false_ne_true, if_pos digit]

theorem spanToken_pair (pair : pairKind? c d = some kind) :
    spanToken c (d :: cs) = (kind, [c, d], cs) := by
  obtain ⟨-, noWord, noDigit⟩ := isMark_of_pairKind? pair
  simp [spanToken, noWord, noDigit, pair]

theorem spanToken_single (mark : IsMark c) (noPair : ∀ d ∈ cs.head?, pairKind? c d = none) :
    spanToken c cs = (singleKind c, [c], cs) := by
  obtain ⟨-, noWord, noDigit⟩ := mark
  cases cs with
  | nil => simp [spanToken, noWord, noDigit]
  | cons d cs => simp [spanToken, noWord, noDigit, noPair d rfl]

theorem spanToken_longest (noQuote : c ≠ '"') (cs : List Char) : ∃ kind taken left,
    spanToken c cs = (kind, taken, left) ∧ c :: cs = taken ++ left ∧
      Lexeme kind (String.ofList taken) taken ∧ NoneLonger taken (c :: cs) := by
  by_cases start : isWordStart c
  · refine ⟨_, _, _, spanToken_word start, by simp,
      .word start (List.all_eq_true.mp List.all_takeWhile), noneLonger_cons ?_⟩
    rintro kind lexeme other rest lx rfl
    rw [List.takeWhile_append_of_pos (lx.of_wordStart start).1]
    simp
  by_cases digit : c.isDigit
  · refine ⟨_, _, _, spanToken_number digit, by simp [spanNumber_append],
      .number digit (numberTail_spanNumber false cs), noneLonger_cons ?_⟩
    rintro kind lexeme other rest lx rfl
    exact (lx.of_digit digit).1.length_le rest
  have mark : IsMark c := ⟨noQuote, by simpa using start, by simpa using digit⟩
  by_cases pair : ∃ d ∈ cs.head?, ∃ kind, pairKind? c d = some kind
  · obtain ⟨d, hd, kind, pair⟩ := pair
    obtain ⟨rest, rfl⟩ := List.head?_eq_some_iff.mp hd
    refine ⟨_, _, _, spanToken_pair pair, rfl, .pair pair, noneLonger_cons ?_⟩
    rintro kind lexeme other rest lx -
    obtain ⟨_, ⟨rfl, _⟩ | ⟨d, rfl, _⟩⟩ := lx.of_mark mark <;> simp
  · have noPair : ∀ d ∈ cs.head?, pairKind? c d = none := fun d hd =>
      Option.eq_none_iff_forall_ne_some.mpr fun kind h => pair ⟨d, hd, kind, h⟩
    refine ⟨_, _, _, spanToken_single mark noPair, rfl, .single mark, noneLonger_cons ?_⟩
    rintro kind lexeme other rest lx rfl
    obtain ⟨_, ⟨rfl, _⟩ | ⟨d, rfl, h⟩⟩ := lx.of_mark mark
    · exact Nat.le_refl _
    · exact absurd ⟨d, rfl, kind, h⟩ pair

/-- What is scanned is the longest lexeme there is, unless the text ends inside a string literal. -/
theorem scanToken_longest (p : Place) (c : Char) (cs : List Char) :
    (∃ kind lexeme slice rest, c :: cs = slice ++ rest ∧ Lexeme kind lexeme slice ∧
      NoneLonger slice (c :: cs) ∧ scanToken p c cs =
        .token ⟨kind, lexeme, p.spanTo (p.after slice)⟩ (p.after slice) rest) ∨
      c = '"' ∧ NeverEnds cs ∧ scanToken p c cs = .unclosed (p.after (c :: cs)) := by
  by_cases quote : c = '"'
  · subst quote
    by_cases closes : ∃ body, body ++ ['"'] <+: cs ∧ ∃ text, decode body = some text
    · obtain ⟨body, ⟨rest, rfl⟩, text, decoded⟩ := closes
      refine .inl ⟨_, _, '"' :: (body ++ ['"']), rest, rfl, .string decoded, noneLonger_cons ?_, ?_⟩
      · rintro kind lexeme other left lx same
        obtain ⟨body', text', rfl, decoded', -, -⟩ := lx.of_quote
        obtain rfl := decode_unique decoded decoded' (by simpa using same)
        exact Nat.le_refl _
      · rw [scanToken, if_pos rfl, List.append_assoc, List.singleton_append,
          scanString_decode decoded]
        rfl
    · have unclosed : NeverEnds cs := fun body front =>
        Option.eq_none_iff_forall_ne_some.mpr fun text h => closes ⟨body, front, text, h⟩
      refine .inr ⟨rfl, unclosed, ?_⟩
      rw [scanToken, if_pos rfl, scanString_unclosed unclosed]
      rfl
  · obtain ⟨kind, taken, left, hs, split, lx, longest⟩ := spanToken_longest quote cs
    refine .inl ⟨kind, _, taken, left, split, lx, longest, ?_⟩
    rw [scanToken, if_neg quote, hs]

end Script
