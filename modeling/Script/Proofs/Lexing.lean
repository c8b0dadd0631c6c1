import Script.Token.Lexer

namespace Script

section Tokens

variable {p q r : Place} {c : Char} {cs rest left : List Char} {t : Token} {tokens : List Token}

theorem tokensFrom_end (h : skipLayout .code p cs = (q, [])) :
    tokensFrom p cs = .ok [⟨.endOfInput, "", q.spanTo q⟩] := by
  rw [tokensFrom]
  split
  next h' =>
    obtain ⟨rfl, -⟩ := Prod.mk.inj (h'.symm.trans h)
    rfl
  next h' => cases h'.symm.trans h

theorem tokensFrom_unclosed (h : skipLayout .code p cs = (q, c :: rest))
    (scanned : scanToken q c rest = .unclosed r) : tokensFrom p cs = .error (q.spanTo r) := by
  rw [tokensFrom]
  split
  next h' => cases h'.symm.trans h
  next h' =>
    cases h'.symm.trans h
    split
    next h'' =>
      cases h''.symm.trans scanned
      rfl
    next token => cases token.symm.trans scanned

theorem tokensFrom_cons (h : skipLayout .code p cs = (q, c :: rest))
    (scanned : scanToken q c rest = .token t r left) :
    tokensFrom p cs = (tokensFrom r left).map (t :: ·) := by
  rw [tokensFrom]
  split
  next h' => cases h'.symm.trans h
  next h' =>
    cases h'.symm.trans h
    split
    next unclosed => cases unclosed.symm.trans scanned
    next h'' =>
      cases h''.symm.trans scanned
      cases tokensFrom r left <;> rfl

theorem tokensFrom_token (h : skipLayout .code p cs = (q, c :: rest))
    (scanned : scanToken q c rest = .token t r left) (others : tokensFrom r left = .ok tokens) :
    tokensFrom p cs = .ok (t :: tokens) := by
  rw [tokensFrom_cons h scanned, others]
  rfl

theorem tokensFrom_space : tokensFrom p (' ' :: cs) = tokensFrom (p.step ' ') cs := by
  rw [tokensFrom, tokensFrom, show skipLayout .code p (' ' :: cs) =
    skipLayout .code (p.step ' ') cs from rfl]

/-- The kinds that neither a word nor a mark is of. -/
def TokenKind.isApart : TokenKind → Bool
  | .number | .string | .endOfInput => true
  | _ => false

theorem TokenKind.ne_of_isApart {kind other : TokenKind} (h : kind.isApart = false)
    (apart : other.isApart) : kind ≠ other := by
  rintro rfl
  cases h.symm.trans apart

theorem isApart_wordKind {word : String} : (wordKind word).isApart = false := by
  unfold wordKind
  split <;> rfl

theorem isApart_of_pairKind? {d : Char} {kind : TokenKind} (h : pairKind? c d = some kind) :
    kind.isApart = false := by
  unfold pairKind? at h
  split at h <;> cases h <;> rfl

theorem isApart_singleKind : (singleKind c).isApart = false := by
  unfold singleKind
  split <;> rfl

theorem spanToken_kind_ne : (spanToken c cs).1 ≠ .endOfInput := by
  unfold spanToken
  split
  · exact TokenKind.ne_of_isApart isApart_wordKind rfl
  · split
    · simp
    · split
      · exact TokenKind.ne_of_isApart isApart_singleKind rfl
      · split
        next kind pair => exact TokenKind.ne_of_isApart (isApart_of_pairKind? pair) rfl
        next => exact TokenKind.ne_of_isApart isApart_singleKind rfl

theorem scanToken_kind_ne (h : scanToken p c cs = .token t q rest) : t.kind ≠ .endOfInput := by
  unfold scanToken at h
  split at h
  · split at h
    · cases h
      simp
    · cases h
  · cases h
    exact spanToken_kind_ne

/-- The end of the input is the last token and no other. -/
theorem tokensFrom_ends (h : tokensFrom p cs = .ok tokens) :
    ∃ read last, tokens = read ++ [last] ∧ last.kind = .endOfInput ∧
      ∀ t ∈ read, t.kind ≠ .endOfInput := by
  fun_induction tokensFrom p cs generalizing tokens with
  | case1 p cs q skipped =>
    cases h
    exact ⟨[], _, rfl, rfl, by simp⟩
  | case2 => cases h
  | case3 p cs q c rest skipped token r left scanned others ho ih =>
    cases h
    obtain ⟨read, last, rfl, kind, inside⟩ := ih ho
    refine ⟨token :: read, last, rfl, kind, ?_⟩
    rintro t (_ | ⟨_, later⟩)
    · exact scanToken_kind_ne scanned
    · exact inside t later
  | case4 => cases h

end Tokens

/-- A token without its place. -/
structure Symbol where
  kind : TokenKind
  lexeme : String
  deriving DecidableEq, Repr

def Token.symbol (t : Token) : Symbol := ⟨t.kind, t.lexeme⟩

def Keyword.word : Keyword → String
  | .var => "var"
  | .define => "define"
  | .func => "func"
  | .include => "include"
  | .if => "if"
  | .else => "else"
  | .loop => "loop"
  | .while => "while"
  | .for => "for"
  | .in => "in"
  | .break => "break"
  | .continue => "continue"
  | .return => "return"
  | .true => "true"
  | .false => "false"
  | .null => "null"

/-- The text that every token of a kind has, for the kinds where there is one. -/
def TokenKind.fixed? : TokenKind → Option String
  | .keyword word => some word.word
  | .leftParen => some "("
  | .rightParen => some ")"
  | .leftBrace => some "\x7b"
  | .rightBrace => some "\x7d"
  | .leftBracket => some "["
  | .rightBracket => some "]"
  | .comma => some ","
  | .semicolon => some ";"
  | .assign => some "="
  | .plus => some "+"
  | .minus => some "-"
  | .star => some "*"
  | .slash => some "/"
  | .percent => some "%"
  | .doubleAmpersand => some "&&"
  | .doublePipe => some "||"
  | .bang => some "!"
  | .bangEqual => some "!="
  | .equalEqual => some "=="
  | .less => some "<"
  | .lessEqual => some "<="
  | .greater => some ">"
  | .greaterEqual => some ">="
  | .identifier | .number | .string | .unknown | .endOfInput => none

/-- A legal name that is no keyword. -/
def isName (word : String) : Bool :=
  match word.toList with
  | [] => false
  | c :: cs => isWordStart c && cs.all isWordPart && Keyword.ofWord? word = none

namespace Symbol

/-- Whether a symbol is what its text is scanned as. Of the numbers, only those made of digits are
considered. -/
def isLegible (s : Symbol) : Bool :=
  match s.kind with
  | .identifier => isName s.lexeme
  | .number => s.lexeme ≠ "" && s.lexeme.toList.all Char.isDigit
  | .string => true
  | k => k.fixed? = some s.lexeme

/-- How one character is written in a string literal. -/
def escape (c : Char) : List Char := if c = '"' ∨ c = '\\' then ['\\', c] else [c]

def written (s : Symbol) : String :=
  if s.kind = .string then String.ofList ('"' :: (s.lexeme.toList.flatMap escape ++ ['"']))
  else s.lexeme

/-- Symbols with spaces in between. -/
def line (symbols : List Symbol) : String := " ".intercalate (symbols.map written)

end Symbol

theorem Keyword.ofWord?_word (k : Keyword) : Keyword.ofWord? k.word = some k := by
  cases k <;> rfl

/-- Whether text ends at once or goes on with a space. -/
def Spaced (cs : List Char) : Prop := ∀ c ∈ cs.head?, c = ' '

theorem Spaced.cases {cs : List Char} (h : Spaced cs) : cs = [] ∨ ∃ rest, cs = ' ' :: rest := by
  cases cs with
  | nil => exact .inl rfl
  | cons c rest => exact .inr ⟨rest, by rw [h c rfl]⟩

section Scanning

variable {p : Place} {c : Char} {cs ds : List Char}

theorem takeWhile_of_spaced {test : Char → Bool} (h : Spaced cs) (space : test ' ' = false) :
    cs.takeWhile test = [] := by
  rcases h.cases with rfl | ⟨rest, rfl⟩
  · rfl
  · rw [List.takeWhile_cons_of_neg (by simp [space])]

theorem dropWhile_of_spaced {test : Char → Bool} (h : Spaced cs) (space : test ' ' = false) :
    cs.dropWhile test = cs := by
  rcases h.cases with rfl | ⟨rest, rfl⟩
  · rfl
  · rw [List.dropWhile_cons_of_neg (by simp [space])]

theorem spanNumber_digits {pointSeen : Bool} (h : Spaced cs) (digits : ∀ c ∈ ds, c.isDigit) :
    spanNumber pointSeen (ds ++ cs) = (ds, cs) := by
  induction ds with
  | nil =>
    rcases h.cases with rfl | ⟨_ | ⟨d, rest⟩, rfl⟩
    · rfl
    · rfl
    · rfl
  | cons d ds ih =>
    have digit := digits d (by simp)
    have others := ih fun c hc => digits c (List.mem_cons_of_mem _ hc)
    cases hr : ds ++ cs with
    | nil =>
      obtain ⟨rfl, rfl⟩ := List.append_eq_nil_iff.mp hr
      simp [spanNumber, digit]
    | cons e rest =>
      rw [hr] at others
      simp [spanNumber, hr, digit, others]

theorem scanString_escape (cs text read : List Char) (p : Place) :
    ∃ q, scanString read p (text.flatMap Symbol.escape ++ '"' :: cs) =
      .closed (read.reverse ++ text) q cs := by
  induction text generalizing read p with
  | nil => exact ⟨p.step '"', by simp [scanString]⟩
  | cons c text ih =>
    by_cases special : c = '"' ∨ c = '\\'
    · obtain ⟨q, hq⟩ := ih (c :: read) (p.after ['\\', c])
      refine ⟨q, ?_⟩
      have same : unescape c = c := by rcases special with rfl | rfl <;> rfl
      simp [Symbol.escape, special, scanString, same, hq]
    · obtain ⟨q, hq⟩ := ih (c :: read) (p.step c)
      refine ⟨q, ?_⟩
      have notQuote : c ≠ '"' := fun h => special (.inl h)
      have notSlash : c ≠ '\\' := fun h => special (.inr h)
      simp [Symbol.escape, scanString, notQuote, notSlash, hq]

theorem toNat_of_isWordStart (h : isWordStart c) : 65 ≤ c.toNat ∧ c.toNat ≤ 122 := by
  rcases Bool.or_eq_true_iff.mp h with letter | underscore
  · rcases Bool.or_eq_true_iff.mp letter with upper | lower
    · obtain ⟨low, high⟩ := of_decide_eq_true upper
      have low : 65 ≤ c.toNat := UInt32.le_iff_toNat_le.mp low
      have high : c.toNat ≤ 90 := UInt32.le_iff_toNat_le.mp high
      omega
    · obtain ⟨low, high⟩ := Bool.and_eq_true_iff.mp lower
      have low : 97 ≤ c.toNat := UInt32.le_iff_toNat_le.mp (of_decide_eq_true low)
      have high : c.toNat ≤ 122 := UInt32.le_iff_toNat_le.mp (of_decide_eq_true high)
      omega
  · obtain rfl := eq_of_beq underscore
    decide

theorem toNat_of_isDigit (h : c.isDigit) : 48 ≤ c.toNat ∧ c.toNat ≤ 57 := by
  simp only [Char.isDigit, Bool.and_eq_true, decide_eq_true_eq, ge_iff_le,
    UInt32.le_iff_toNat_le] at h
  exact h

theorem ne_quote_of_toNat (low : 48 ≤ c.toNat) : c ≠ '"' := by
  rintro rfl
  simp at low

theorem skipLayout_of_toNat (low : 48 ≤ c.toNat) (high : c.toNat ≤ 122) :
    skipLayout .code p (c :: cs) = (p, c :: cs) := by
  have noBlank : isBlank c = false := by
    simp only [isBlank, Bool.or_eq_false_iff, Bool.and_eq_false_iff, decide_eq_false_iff_not,
      beq_eq_false_iff_ne]
    omega
  have noSlash : c ≠ '/' := by
    rintro rfl
    simp at low
  unfold skipLayout
  split <;> simp_all

end Scanning

namespace Symbol

/-- Whether a symbol is what its text is scanned as, wherever it stands in front of a space or the
end. -/
def Scans (s : Symbol) : Prop :=
  ∃ c tail, s.written.toList = c :: tail ∧ ∀ p cs, Spaced cs →
    skipLayout .code p (c :: (tail ++ cs)) = (p, c :: (tail ++ cs)) ∧
      ∃ t q, scanToken p c (tail ++ cs) = .token t q cs ∧ t.symbol = s

variable {s : Symbol} {c : Char} {tail : List Char}

theorem scans_word (notString : s.kind ≠ .string) (hl : s.lexeme.toList = c :: tail)
    (start : isWordStart c) (parts : ∀ d ∈ tail, isWordPart d)
    (hk : wordKind s.lexeme = s.kind) : s.Scans := by
  obtain ⟨low, high⟩ := toNat_of_isWordStart start
  have noQuote : c ≠ '"' := ne_quote_of_toNat (by omega)
  refine ⟨c, tail, by rw [written, if_neg notString, hl], fun p cs spaced => ?_⟩
  refine ⟨skipLayout_of_toNat (by omega) high, ?_⟩
  have taken : (tail ++ cs).takeWhile isWordPart = tail := by
    rw [List.takeWhile_append_of_pos parts, takeWhile_of_spaced spaced (by decide),
      List.append_nil]
  have left : (tail ++ cs).dropWhile isWordPart = cs := by
    rw [List.dropWhile_append_of_pos parts, dropWhile_of_spaced spaced (by decide)]
  have word : String.ofList (c :: tail) = s.lexeme := by rw [← hl, String.ofList_toList]
  simp only [scanToken, noQuote, if_false, spanToken, start, if_true, taken, left, word, hk]
  exact ⟨_, _, rfl, rfl⟩

theorem scans_number (hk : s.kind = .number) (hl : s.lexeme.toList = c :: tail)
    (digits : ∀ d ∈ c :: tail, d.isDigit) : s.Scans := by
  have digit := digits c (by simp)
  obtain ⟨low, high⟩ := toNat_of_isDigit digit
  have noQuote : c ≠ '"' := ne_quote_of_toNat low
  have noWord : isWordStart c = false := by
    rw [Bool.eq_false_iff]
    intro start
    have above := (toNat_of_isWordStart start).1
    omega
  refine ⟨c, tail, by rw [written, if_neg (by simp [hk]), hl], fun p cs spaced => ?_⟩
  refine ⟨skipLayout_of_toNat low (by omega), ?_⟩
  have taken : spanNumber false (tail ++ cs) = (tail, cs) :=
    spanNumber_digits spaced fun d hd => digits d (List.mem_cons_of_mem _ hd)
  have text : String.ofList (c :: tail) = s.lexeme := by rw [← hl, String.ofList_toList]
  simp only [scanToken, noQuote, if_false, spanToken, noWord, Bool.false_eq_true, digit, if_true,
    taken, text, ← hk]
  exact ⟨_, _, rfl, rfl⟩

theorem scans_string (hk : s.kind = .string) : s.Scans := by
  refine ⟨'"', s.lexeme.toList.flatMap escape ++ ['"'], ?_, fun p cs _ => ⟨rfl, ?_⟩⟩
  · rw [written, if_pos hk, String.toList_ofList]
  · obtain ⟨q, hq⟩ := scanString_escape cs s.lexeme.toList [] (p.step '"')
    rw [List.append_assoc, List.singleton_append]
    simp only [scanToken, if_true, hq, List.reverse_nil, List.nil_append, String.ofList_toList,
      ← hk]
    exact ⟨_, _, rfl, rfl⟩

theorem scans_keyword (word : Keyword) : (Symbol.mk (.keyword word) word.word).Scans := by
  have same : wordKind word.word = .keyword word := by simp [wordKind, Keyword.ofWord?_word]
  cases word <;> exact scans_word (by simp) rfl rfl (List.all_eq_true.mp rfl) same

theorem scans_fixed (hf : s.kind.fixed? = some s.lexeme) : s.Scans := by
  obtain ⟨kind, lexeme⟩ := s
  cases kind <;> cases hf
  case keyword word => exact scans_keyword word
  all_goals
    refine ⟨_, _, rfl, fun p cs spaced => ?_⟩
    rcases spaced.cases with rfl | ⟨rest, rfl⟩ <;> exact ⟨rfl, _, _, rfl, rfl⟩

theorem scans_of_isLegible (h : s.isLegible) : s.Scans := by
  unfold isLegible at h
  split at h
  next hk =>
    unfold isName at h
    split at h
    next => cases h
    next c tail hl =>
      simp only [Bool.and_eq_true, List.all_eq_true, decide_eq_true_eq] at h
      obtain ⟨⟨start, parts⟩, noKeyword⟩ := h
      exact scans_word (by simp [hk]) hl start parts (by simp [wordKind, noKeyword, hk])
  next hk =>
    simp only [Bool.and_eq_true, List.all_eq_true, decide_eq_true_eq] at h
    cases hl : s.lexeme.toList with
    | nil => exact absurd (String.toList_eq_nil_iff.mp hl) h.1
    | cons c tail => exact scans_number hk hl (hl ▸ h.2)
  next hk => exact scans_string hk
  next => exact scans_fixed (by simpa using h)

end Symbol

/-- Symbols in a line are scanned as tokens that show them, with the end of the input behind. -/
theorem tokensFrom_line {symbols : List Symbol} (h : ∀ s ∈ symbols, s.isLegible) (p : Place) :
    ∃ tokens last, tokensFrom p (Symbol.line symbols).toList = .ok (tokens ++ [last]) ∧
      tokens.map Token.symbol = symbols ∧ last.kind = .endOfInput := by
  induction symbols generalizing p with
  | nil => exact ⟨[], _, tokensFrom_end rfl, rfl, rfl⟩
  | cons s rest ih =>
    obtain ⟨c, tail, hw, scans⟩ := Symbol.scans_of_isLegible (h s (by simp))
    have later := ih fun s hs => h s (List.mem_cons_of_mem _ hs)
    cases rest with
    | nil =>
      obtain ⟨skipped, t, q, scanned, shows⟩ := scans p [] (by simp [Spaced])
      rw [List.append_nil] at skipped scanned
      obtain ⟨tokens, last, others, hm, hk⟩ := later q
      obtain rfl := List.map_eq_nil_iff.mp hm
      refine ⟨[t], last, ?_, by simp [shows], hk⟩
      rw [Symbol.line, List.map_singleton, String.intercalate_singleton, hw]
      exact tokensFrom_token skipped scanned others
    | cons s' rest =>
      obtain ⟨skipped, t, q, scanned, shows⟩ :=
        scans p (' ' :: (Symbol.line (s' :: rest)).toList) (by simp [Spaced])
      obtain ⟨tokens, last, others, hm, hk⟩ := later (q.step ' ')
      refine ⟨t :: tokens, last, ?_, by simp [shows, hm], hk⟩
      have spaced : (Symbol.line (s :: s' :: rest)).toList =
          c :: (tail ++ ' ' :: (Symbol.line (s' :: rest)).toList) := by
        simp [Symbol.line, String.intercalate_cons_cons, hw]
      rw [spaced]
      exact tokensFrom_token skipped scanned (tokensFrom_space.trans others)

end Script
