import Script.Proofs.Fuel
import Script.Proofs.Grammar.Completeness
import Script.Proofs.Lexing.Lexeme
import Script.Proofs.Numerals

namespace Script

/-- Printable ASCII characters and those that have an escape of one letter. -/
def isPlain (c : Char) : Bool :=
  (0x20 ≤ c.toNat && c.toNat ≤ 0x7e) || c = '\n' || c = '\r' || c = '\t' || c = '\x00'

/-- The values whose echo can be read: no doubles, no integer whose absolute value does not fit, and
plain characters only. -/
inductive Value.Readable : Value → Prop
  | null : Readable null
  | bool (b : Bool) : Readable (bool b)
  | int {n : Int64} (above : Int64.minValue < n) : Readable (int n)
  | string {s : String} (plain : ∀ c ∈ s.toList, isPlain c) : Readable (string s)
  | array {vs : List Value} (elements : ∀ v ∈ vs, Readable v) : Readable (array vs)

/-- Tokens spell an expression that has a value in all states, which it leaves as they are. -/
structure Expr.Constant (e : Expr) (tokens : List Token) (v : Value) : Prop where
  spelled : e.Spelled tokens
  fits : e.every Expr.fits
  gives : ∀ m, (Plan.start (.evaluate e)).Gives m (.value v m)

/-- The same of expressions with commas in between. -/
structure Expr.ConstantsIn (es : List Expr) (tokens : List Token) (vs : List Value) : Prop where
  spelled : Expr.SpelledIn es tokens
  fits : Expr.everyIn Expr.fits es
  gives : ∀ m, (Plan.start (.evaluateAll es)).Gives m (.value vs m)

namespace Expr

variable {e other : Expr} {rest : List Expr} {t comma : Token} {as bs : List Token}
  {v : Value} {vs : List Value}

theorem constant_literal {value : Literal} (denotes : t.Denotes value) :
    Constant (.literal t.span value) [t] value.value :=
  ⟨.literal denotes, rfl, fun _ => Plan.gives_start (Plan.gives_pure _)⟩

theorem constant_negative {i n : Int64} {minus : Token} (kind : minus.kind = .minus)
    (denotes : t.Denotes (.int i)) (negative : n.toInt = -i.toInt) :
    Constant (.unary (minus.span.to (Expr.literal t.span (.int i)).span) .negate
      (.literal t.span (.int i))) [minus, t] (.int n) := by
  refine ⟨.unary (by rw [kind]; rfl) (.literal denotes), rfl, fun m => Plan.gives_start ?_⟩
  have result : Value.unary .negate (.int i) = .ok (.int n) := by
    rw [Value.unary, Value.ofExact, ← negative, int64?_toInt]
  refine Plan.gives_bind ((constant_literal denotes).gives m) ?_
  change (Plan.ofOperation _ (Value.unary .negate (.int i))).Gives m _
  rw [result]
  exact Plan.gives_pure _

theorem constantsIn_nil : ConstantsIn [] [] [] :=
  ⟨.nil, rfl, fun _ => Plan.gives_start (Plan.gives_pure _)⟩

theorem gives_evaluateAll_cons (head : ∀ m, (Plan.start (.evaluate e)).Gives m (.value v m))
    (tail : ∀ m, (Plan.start (.evaluateAll rest)).Gives m (.value vs m)) (m : Interpreter) :
    (Plan.start (.evaluateAll (e :: rest))).Gives m (.value (v :: vs) m) :=
  Plan.gives_start (Plan.gives_bind (head m) (Plan.gives_bind (tail m) (Plan.gives_pure _)))

theorem Constant.only (h : Constant e as v) : ConstantsIn [e] as [v] :=
  ⟨.last h.spelled, by simpa [everyIn] using h.fits,
    gives_evaluateAll_cons h.gives constantsIn_nil.gives⟩

theorem Constant.more (h : Constant e as v) (kind : comma.kind = .comma)
    (others : ConstantsIn (other :: rest) bs vs) :
    ConstantsIn (e :: other :: rest) (as ++ comma :: bs) (v :: vs) :=
  ⟨.more h.spelled kind others.spelled, Bool.and_eq_true_iff.mpr ⟨h.fits, others.fits⟩,
    gives_evaluateAll_cons h.gives others.gives⟩

theorem ConstantsIn.array {es : List Expr} {first last : Token} (h : ConstantsIn es as vs)
    (opens : first.kind = .leftBracket) (closes : last.kind = .rightBracket) :
    Constant (.array (first.span.to last.span) es) (first :: (as ++ [last])) (.array vs) :=
  ⟨.array opens h.spelled closes, h.fits, fun m =>
    Plan.gives_start (Plan.gives_bind (h.gives m) (Plan.gives_pure _))⟩

end Expr

/-- Text ends here, or goes on with what stands behind an element of an array. -/
def EndsElement (cs : List Char) : Prop := ∀ c ∈ cs.head?, c = ',' ∨ c = ']'

/-- Some tokens are read off a text, and then those of the rest. -/
def ReadsOff (p : Place) (cs : List Char) (read : List Token) (q : Place) (rest : List Char) :
    Prop :=
  tokensFrom p cs = (tokensFrom q rest).map (read ++ ·)

theorem ReadsOff.trans {p q r : Place} {cs mid rest : List Char} {as bs : List Token}
    (h : ReadsOff p cs as r mid) (h' : ReadsOff r mid bs q rest) :
    ReadsOff p cs (as ++ bs) q rest := by
  rw [ReadsOff, h, h']
  cases tokensFrom q rest with
  | error span => rfl
  | ok tokens => exact congrArg Except.ok (List.append_assoc as bs tokens).symm

section Scanning

variable {c : Char} {cs rest : List Char} {p : Place}

theorem EndsElement.takeWhile (h : EndsElement rest) (test : Char → Bool) (comma : test ',' = false)
    (bracket : test ']' = false) : rest.takeWhile test = [] ∧ rest.dropWhile test = rest := by
  cases rest with
  | nil => exact ⟨rfl, rfl⟩
  | cons c rest =>
    have stops : ¬test c = true := by
      rcases h c rfl with rfl | rfl
      · simp [comma]
      · simp [bracket]
    exact ⟨List.takeWhile_cons_of_neg stops, List.dropWhile_cons_of_neg stops⟩

theorem EndsElement.spanNumber (h : EndsElement rest) : spanNumber false rest = ([], rest) := by
  rcases rest with _ | ⟨c, _ | ⟨d, rest⟩⟩
  · rfl
  · rcases h c rfl with rfl | rfl <;> rfl
  · rcases h c rfl with rfl | rfl <;> rfl

theorem spanNumber_toDigits (h : EndsElement rest) (digits : ∀ c ∈ cs, c.isDigit) :
    spanNumber false (cs ++ rest) = (cs, rest) := by
  induction cs with
  | nil => exact h.spanNumber
  | cons c cs ih =>
    rw [List.cons_append, spanNumber_digit (by simp [digits c (by simp)]),
      ih fun d hd => digits d (List.mem_cons_of_mem _ hd)]

theorem readsOff_span {kind : TokenKind} {taken : List Char}
    (stops : skipLayout .code p (c :: cs) = (p, c :: cs)) (noQuote : c ≠ '"')
    (h : spanToken c cs = (kind, taken, rest)) : ∃ t q,
      ReadsOff p (c :: cs) [t] q rest ∧
      t.symbol = ⟨kind, String.ofList taken⟩ := by
  refine ⟨⟨kind, String.ofList taken, p.spanTo (p.after taken)⟩, p.after taken,
    tokensFrom_cons stops ?_, rfl⟩
  rw [scanToken, if_neg noQuote, h]

theorem readsOff_word {word : String} {tail : List Char} (h : EndsElement rest)
    (split : word.toList = c :: tail) (start : isWordStart c) (parts : ∀ d ∈ tail, isWordPart d)
    (p : Place) : ∃ t q, ReadsOff p (word.toList ++ rest) [t] q rest ∧
      t.symbol = ⟨wordKind word, word⟩ := by
  obtain ⟨low, high⟩ := toNat_of_isWordStart start
  obtain ⟨taken, left⟩ := h.takeWhile isWordPart (by decide) (by decide)
  have whole : (tail ++ rest).takeWhile isWordPart = tail := by
    rw [List.takeWhile_append_of_pos parts, taken, List.append_nil]
  have behind : (tail ++ rest).dropWhile isWordPart = rest := by
    rw [List.dropWhile_append_of_pos parts, left]
  have text : String.ofList (c :: tail) = word := by rw [← split, String.ofList_toList]
  have spanned : spanToken c (tail ++ rest) = _ := spanToken_word start
  rw [whole, behind, text] at spanned
  rw [split, List.cons_append]
  have read := readsOff_span (skipLayout_of_toNat (p := p) (by omega) high)
    (ne_quote_of_toNat (by omega)) spanned
  rwa [text] at read

theorem readsOff_keyword (h : EndsElement rest) (word : Keyword) (p : Place) :
    ∃ t q, ReadsOff p (word.word.toList ++ rest) [t] q rest ∧
      t.symbol = ⟨.keyword word, word.word⟩ := by
  have same : wordKind word.word = .keyword word := by simp [wordKind, Keyword.ofWord?_word]
  rw [← same]
  cases word <;> exact readsOff_word h rfl rfl (List.all_eq_true.mp rfl) p

theorem readsOff_digits {i : Int64} {n : Nat} (h : EndsElement rest) (value : i.toInt = n)
    (p : Place) : ∃ t q,
      ReadsOff p (Nat.toDigits 10 n ++ rest) [t] q rest ∧
      t.symbol = ⟨.number, toString i.toInt⟩ := by
  have digits : ∀ c ∈ Nat.toDigits 10 n, c.isDigit := fun c hc =>
    Nat.isDigit_of_mem_toDigits (by decide) (by decide) hc
  obtain ⟨c, tail, split⟩ := List.exists_cons_of_ne_nil (Nat.toDigits_ne_nil (b := 10) (n := n))
  rw [split] at digits ⊢
  have digit := digits c (by simp)
  obtain ⟨low, high⟩ := toNat_of_isDigit digit
  have spanned : spanToken c (tail ++ rest) = _ := spanToken_number digit
  rw [spanNumber_toDigits h fun d hd => digits d (List.mem_cons_of_mem _ hd)] at spanned
  have text : toString i.toInt = String.ofList (c :: tail) := by
    rw [value, ← split]
    exact Nat.repr_eq_ofList_toDigits
  rw [text]
  exact readsOff_span (skipLayout_of_toNat low (by omega)) (ne_quote_of_toNat low) spanned

theorem readsOff_mark (mark : c = '[' ∨ c = ']' ∨ c = ',' ∨ c = '-') (rest : List Char)
    (p : Place) : ∃ t q, ReadsOff p (c :: rest) [t] q rest ∧
      t.symbol = ⟨singleKind c, String.ofList [c]⟩ := by
  have stops : beginsGap (c :: rest) = false := by rcases mark with rfl | rfl | rfl | rfl <;> rfl
  have isMark : IsMark c := by
    rcases mark with rfl | rfl | rfl | rfl <;> exact ⟨by decide, by decide, by decide⟩
  have alone (d : Char) : pairKind? c d = none := by rcases mark with rfl | rfl | rfl | rfl <;> rfl
  exact readsOff_span (skipLayout_stops stops) isMark.1 (spanToken_single isMark fun d _ => alone d)

theorem isGraphic_of_isPlain (plain : isPlain c) (line : c ≠ '\n') (back : c ≠ '\r')
    (tab : c ≠ '\t') (zero : c ≠ '\x00') : isGraphic c := by
  simp only [isPlain, line, back, tab, zero, decide_false, Bool.or_false, Bool.and_eq_true,
    decide_eq_true_eq] at plain
  rw [isGraphic, if_pos (by omega)]
  simp only [Bool.and_eq_true, decide_eq_true_eq]
  omega

theorem decode_quoteChar (plain : isPlain c) (cs : List Char) :
    decode (quoteChar c ++ cs) = (decode cs).map (c :: ·) := by
  unfold quoteChar
  split
  case h_7 zero tab back line slash quote =>
    rw [if_pos (isGraphic_of_isPlain plain line back tab zero)]
    exact decode_char slash quote
  all_goals rfl

theorem decode_flatMap_quoteChar (plain : ∀ c ∈ cs, isPlain c) :
    decode (cs.flatMap quoteChar) = some cs := by
  induction cs with
  | nil => rfl
  | cons c cs ih =>
    rw [List.flatMap_cons, decode_quoteChar (plain c (by simp)),
      ih fun d hd => plain d (List.mem_cons_of_mem _ hd)]
    rfl

theorem readsOff_quoted {s : String} (plain : ∀ c ∈ s.toList, isPlain c) (rest : List Char)
    (p : Place) : ∃ t q, ReadsOff p ((quoted s).toList ++ rest) [t] q rest ∧
      t.symbol = ⟨.string, s⟩ := by
  have text : (quoted s).toList ++ rest = '"' :: (s.toList.flatMap quoteChar ++ '"' :: rest) := by
    simp [quoted]
  obtain ⟨q, read⟩ : ∃ q, scanString [] (p.step '"')
      (s.toList.flatMap quoteChar ++ '"' :: rest) = .closed s.toList q rest :=
    ⟨_, scanString_decode (decode_flatMap_quoteChar plain) [] _⟩
  rw [text]
  refine ⟨⟨.string, s, p.spanTo q⟩, q, tokensFrom_cons rfl ?_, rfl⟩
  simp only [scanToken, if_true, read, String.ofList_toList]

end Scanning

/-- Text that ends, or goes on as behind an element, is read as an expression with a value. -/
def ReadsAs (text : List Char) (v : Value) : Prop :=
  ∀ p rest, EndsElement rest → ∃ q tokens e,
    ReadsOff p (text ++ rest) tokens q rest ∧ Expr.Constant e tokens v

namespace Value

theorem readsAs_word (word : Keyword) {value : Literal}
    (denotes : ∀ t : Token, t.kind = .keyword word → t.Denotes value) :
    ReadsAs word.word.toList value.value := by
  intro p rest ends
  obtain ⟨t, q, read, symbol⟩ := readsOff_keyword ends word p
  exact ⟨q, [t], _, read, Expr.constant_literal (denotes t (congrArg Symbol.kind symbol))⟩

theorem denotes_digits {t : Token} {i : Int64} (natural : 0 ≤ i)
    (symbol : t.symbol = ⟨.number, toString i.toInt⟩) : t.Denotes (.int i) := by
  refine .number (congrArg Symbol.kind symbol) ?_
  rw [show t.lexeme = toString i.toInt from congrArg Symbol.lexeme symbol]
  exact numberLiteral?_toString natural

theorem readsAs_natural {n : Int64} (natural : 0 ≤ n) : ReadsAs (int n).echo.toList (int n) := by
  intro p rest ends
  obtain ⟨k, value, text⟩ := toList_toString natural
  obtain ⟨t, q, read, symbol⟩ := readsOff_digits ends value p
  rw [echo, text]
  exact ⟨q, [t], _, read, Expr.constant_literal (denotes_digits natural symbol)⟩

theorem exists_opposite {n : Int64} (above : Int64.minValue < n) (negative : ¬0 ≤ n) :
    ∃ (i : Int64) (k : Nat), 0 ≤ i ∧ i.toInt = k ∧ n.toInt = -i.toInt ∧
      (toString n.toInt).toList = '-' :: Nat.toDigits 10 k := by
  rw [Int64.lt_iff_toInt_lt, Int64.toInt_minValue] at above
  rw [Int64.le_iff_toInt_le] at negative
  obtain ⟨k, hk⟩ := Int.eq_negSucc_of_lt_zero (Int.not_le.mp negative)
  have value : (Int64.ofInt (k + 1)).toInt = ((k + 1 : Nat) : Int) :=
    Int64.toInt_ofInt_of_le (by omega) (by omega)
  refine ⟨Int64.ofInt (k + 1), k + 1, ?_, value, ?_, ?_⟩
  · rw [Int64.le_iff_toInt_le, value]
    exact Int.natCast_nonneg _
  · rw [value, hk]
    rfl
  · rw [hk]
    change ("-" ++ Nat.repr (k + 1)).toList = _
    rw [Nat.repr_eq_ofList_toDigits]
    simp

theorem readsAs_negative {n : Int64} (above : Int64.minValue < n) (negative : ¬0 ≤ n) :
    ReadsAs (int n).echo.toList (int n) := by
  intro p rest ends
  obtain ⟨i, k, natural, value, opposite, text⟩ := exists_opposite above negative
  obtain ⟨minus, r, mark, sign⟩ := readsOff_mark (.inr (.inr (.inr rfl)))
    (Nat.toDigits 10 k ++ rest) p
  obtain ⟨t, q, read, symbol⟩ := readsOff_digits ends value r
  rw [echo, text]
  exact ⟨q, [minus, t], _, mark.trans read, Expr.constant_negative (congrArg Symbol.kind sign)
    (denotes_digits natural symbol) opposite⟩

theorem readsAs_string {s : String} (plain : ∀ c ∈ s.toList, isPlain c) :
    ReadsAs (string s).echo.toList (string s) := by
  intro p rest ends
  obtain ⟨t, q, read, symbol⟩ := readsOff_quoted plain rest p
  obtain rfl : t.lexeme = s := congrArg Symbol.lexeme symbol
  exact ⟨q, [t], _, read, Expr.constant_literal (.string (congrArg Symbol.kind symbol))⟩

/-- An element behind another one. -/
def echoNext (v : Value) : List Char := ',' :: ' ' :: v.echo.toList

theorem toList_echoRest (text : String) (vs : List Value) :
    (echoRest text vs).toList = text.toList ++ vs.flatMap echoNext := by
  induction vs generalizing text with
  | nil => simp [echoRest]
  | cons v vs ih => simp [echoRest, ih, echoNext]

theorem readsIn {v : Value} {vs : List Value} (first : ReadsAs v.echo.toList v)
    (others : ∀ w ∈ vs, ReadsAs w.echo.toList w) (p : Place) (rest : List Char) :
    ∃ q tokens e es, ReadsOff p (v.echo.toList ++ (vs.flatMap echoNext ++ ']' :: rest)) tokens q
        (']' :: rest) ∧
      Expr.ConstantsIn (e :: es) tokens (v :: vs) := by
  induction vs generalizing v p with
  | nil =>
    obtain ⟨q, tokens, e, read, constant⟩ := first p (']' :: rest) (by simp [EndsElement])
    exact ⟨q, tokens, e, [], read, constant.only⟩
  | cons w vs ih =>
    obtain ⟨r, tokens, e, read, constant⟩ := first p
      (',' :: ' ' :: (w.echo.toList ++ (vs.flatMap echoNext ++ ']' :: rest)))
      (by simp [EndsElement])
    obtain ⟨comma, s, mark, symbol⟩ := readsOff_mark (.inr (.inr (.inl rfl)))
      (' ' :: (w.echo.toList ++ (vs.flatMap echoNext ++ ']' :: rest))) r
    obtain ⟨q, tokens', e', es, read', constants⟩ := ih (others w (by simp))
      (fun w hw => others w (List.mem_cons_of_mem _ hw)) (s.step ' ')
    have text : (w :: vs).flatMap echoNext ++ ']' :: rest =
        ',' :: ' ' :: (w.echo.toList ++ (vs.flatMap echoNext ++ ']' :: rest)) := by
      simp [echoNext]
    have spaced : ReadsOff s (' ' :: (w.echo.toList ++ (vs.flatMap echoNext ++ ']' :: rest)))
        tokens' q (']' :: rest) := tokensFrom_space.trans read'
    rw [text]
    exact ⟨q, tokens ++ comma :: tokens', e, e' :: es, read.trans (mark.trans spaced),
      constant.more (congrArg Symbol.kind symbol) constants⟩

theorem readsAs_array {vs : List Value} (elements : ∀ v ∈ vs, ReadsAs v.echo.toList v) :
    ReadsAs (array vs).echo.toList (array vs) := by
  intro p rest ends
  cases vs with
  | nil =>
    obtain ⟨first, r, opens, left⟩ := readsOff_mark (.inl rfl) (']' :: rest) p
    obtain ⟨last, q, closes, right⟩ := readsOff_mark (.inr (.inl rfl)) rest r
    exact ⟨q, [first, last], _, opens.trans closes,
      Expr.constantsIn_nil.array (congrArg Symbol.kind left) (congrArg Symbol.kind right)⟩
  | cons v vs =>
    obtain ⟨first, r, opens, left⟩ := readsOff_mark (.inl rfl)
      (v.echo.toList ++ (vs.flatMap echoNext ++ ']' :: rest)) p
    obtain ⟨s, tokens, e, es, read, constants⟩ := readsIn (elements v (by simp))
      (fun w hw => elements w (List.mem_cons_of_mem _ hw)) r rest
    obtain ⟨last, q, closes, right⟩ := readsOff_mark (.inr (.inl rfl)) rest s
    have text : (array (v :: vs)).echo.toList ++ rest =
        '[' :: (v.echo.toList ++ (vs.flatMap echoNext ++ ']' :: rest)) := by
      simp [echo, toList_echoRest]
    rw [text]
    exact ⟨q, first :: (tokens ++ [last]), _, opens.trans (read.trans closes),
      constants.array (congrArg Symbol.kind left) (congrArg Symbol.kind right)⟩

theorem Readable.readsAs {v : Value} (h : v.Readable) : ReadsAs v.echo.toList v := by
  induction h with
  | null => exact readsAs_word .null fun t => .null
  | bool b =>
    cases b with
    | «true» => exact readsAs_word .true fun t => .true
    | «false» => exact readsAs_word .false fun t => .false
  | @int n above =>
    by_cases natural : 0 ≤ n
    · exact readsAs_natural natural
    · exact readsAs_negative above natural
  | string plain => exact readsAs_string plain
  | array _ ih => exact readsAs_array ih

end Value

theorem Expr.Constant.parseProgram_eq {e : Expr} {tokens : List Token} {v : Value} {text : String}
    {q : Place} (h : e.Constant tokens v) (read : ReadsOff .first text.toList tokens q []) :
    parseProgram text = .ok [.expr e.span e] := by
  have spelled : Program.Spelled [.expr e.span e] tokens := by
    have only : Stmt.SpelledUpTo .endOfInput [.expr e.span e] (tokens ++ []) :=
      .cons (.expr h.spelled) (.without rfl) .nil
    rwa [List.append_nil] at only
  have fits : Program.fits [.expr e.span e] := by
    simpa [Program.fits, Stmt.everyIn, Stmt.every, Stmt.fits] using h.fits
  have scanned : tokenize text = .ok (tokens ++ [⟨.endOfInput, "", q.spanTo q⟩]) := by
    rw [tokenize, read, tokensFrom_end rfl]
    rfl
  have parsed : parseTokens (tokens ++ [⟨.endOfInput, "", q.spanTo q⟩]) = _ :=
    parseTokens_of_spelled spelled fits rfl
  simp only [parseProgram, scanned, parsed]

namespace Plan

theorem gives_attempt {α : Type} {x : Plan α} {m m' : Interpreter} {a : α}
    (h : x.Gives m (.value a m')) : (attempt x).Gives m (.value (.ok a) m') := by
  obtain ⟨enough, h⟩ := h
  refine ⟨enough, fun fuel hf => ?_⟩
  change (x.run _ m).attempt = _
  rw [h fuel hf]
  rfl

theorem gives_runProgram_expr {e : Expr} {span : Span} {m : Interpreter} {v : Value}
    (h : (start (.evaluate e)).Gives m (.value v m)) :
    (start (.runProgram none [.expr span e])).Gives m (.value v m) :=
  gives_start (gives_bind (gives_start (gives_bind h (gives_pure _))) (gives_start (gives_pure _)))

end Plan

/-- The echo of a readable value evaluates to this value in every state, and leaves the state as it
is. -/
theorem evaluateSource_echo {v : Value} (h : v.Readable) (m : Interpreter) :
    ∃ enough, ∀ fuel, enough ≤ fuel → Run.evaluateSource fuel v.echo m = .value (.ok v) m := by
  obtain ⟨q, tokens, e, read, constant⟩ := h.readsAs .first [] (by simp [EndsElement])
  rw [List.append_nil] at read
  have run : (Plan.evaluateSource v.echo).Gives m (.value (.ok v) m) := by
    rw [Plan.evaluateSource, constant.parseProgram_eq read]
    exact Plan.gives_bind (Plan.gives_attempt (Plan.gives_runProgram_expr (constant.gives m)))
      (Plan.gives_pure _)
  exact run

/-- Nested arrays, a negative number, and a string with a quote, a backslash and a line end. -/
def Value.nested : Value :=
  .array [.int (-9223372036854775807), .array [],
    .array [.null, .bool false, .string "a\"\\\n\x00"]]

theorem Value.readable_nested : Value.nested.Readable := by
  have inner : (Value.array [.null, .bool false, .string "a\"\\\n\x00"]).Readable := by
    refine .array ?_
    simp only [List.forall_mem_cons, List.not_mem_nil, false_implies, implies_true, and_true]
    exact ⟨.null, .bool false, .string (List.all_eq_true.mp (by decide))⟩
  refine .array ?_
  simp only [List.forall_mem_cons, List.not_mem_nil, false_implies, implies_true, and_true]
  exact ⟨.int (by decide), .array (by simp), inner⟩

theorem evaluateSource_echo_nested :
    Value.nested.echo = "[-9223372036854775807, [], [null, false, \"a\\\"\\\\\\n\\0\"]]" ∧
    ∀ m, ∃ enough, ∀ fuel, enough ≤ fuel →
      Run.evaluateSource fuel Value.nested.echo m = .value (.ok .nested) m :=
  ⟨by decide +kernel, evaluateSource_echo Value.readable_nested⟩

end Script
