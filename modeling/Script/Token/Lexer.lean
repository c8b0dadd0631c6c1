import Script.Token
import Script.Text.Alphanumeric
import Script.Text.Blank

namespace Script

/-- Where a scan of the text between tokens stands. A block comment knows how many block comments
it lies in. -/
inductive Layout where
  | code
  | lineComment
  | blockComment (outer : Nat)

/-- Passes over blanks and comments. Block comments nest, and the last one may stay open. -/
def skipLayout : Layout → Place → List Char → Place × List Char
  | _, p, [] => (p, [])
  | .code, p, '/' :: '/' :: rest => skipLayout .lineComment (p.after ['/', '/']) rest
  | .code, p, '/' :: '*' :: rest => skipLayout (.blockComment 0) (p.after ['/', '*']) rest
  | .code, p, c :: rest =>
    if isBlank c then skipLayout .code (p.step c) rest else (p, c :: rest)
  | .lineComment, p, c :: rest =>
    skipLayout (if c = '\n' then .code else .lineComment) (p.step c) rest
  | .blockComment outer, p, '/' :: '*' :: rest =>
    skipLayout (.blockComment (outer + 1)) (p.after ['/', '*']) rest
  | .blockComment 0, p, '*' :: '/' :: rest => skipLayout .code (p.after ['*', '/']) rest
  | .blockComment (outer + 1), p, '*' :: '/' :: rest =>
    skipLayout (.blockComment outer) (p.after ['*', '/']) rest
  | .blockComment outer, p, c :: rest => skipLayout (.blockComment outer) (p.step c) rest

def isWordStart (c : Char) : Bool := c.isAlpha || c == '_'

def isWordPart (c : Char) : Bool := isAlphanumeric c || c == '_'

/-- Splits off the rest of a number: digits and underscores, one point if a digit follows it, and
any number of exponent marks, each with an optional sign. -/
def spanNumber (pointSeen : Bool) : List Char → List Char × List Char
  | [] => ([], [])
  | [c] =>
    if c.isDigit || c == '_' || c == 'e' || c == 'E' then ([c], []) else ([], [c])
  | c :: d :: rest =>
    if c.isDigit || c == '_' then
      let (taken, left) := spanNumber pointSeen (d :: rest)
      (c :: taken, left)
    else if c == '.' && !pointSeen && d.isDigit then
      let (taken, left) := spanNumber true (d :: rest)
      (c :: taken, left)
    else if c == 'e' || c == 'E' then
      if d == '+' || d == '-' then
        let (taken, left) := spanNumber pointSeen rest
        (c :: d :: taken, left)
      else
        let (taken, left) := spanNumber pointSeen (d :: rest)
        (c :: taken, left)
    else ([], c :: d :: rest)

/-- The character that a backslash and `c` denote. -/
def unescape (c : Char) : Char :=
  match c with
  | 'n' => '\n'
  | 'r' => '\r'
  | 't' => '\t'
  | '0' => '\x00'
  | _ => c

inductive StringScan where
  | closed (text : List Char) (place : Place) (rest : List Char)
  | unclosed (place : Place)

/-- Reads up to the closing quote; `read` holds the characters so far, last one first. -/
def scanString (read : List Char) : Place → List Char → StringScan
  | p, [] => .unclosed p
  | p, ['\\'] => .unclosed (p.step '\\')
  | p, '\\' :: c :: rest => scanString (unescape c :: read) (p.after ['\\', c]) rest
  | p, c :: rest =>
    if c = '"' then .closed read.reverse (p.step c) rest
    else scanString (c :: read) (p.step c) rest

def pairKind? : Char → Char → Option TokenKind
  | '=', '=' => some .equalEqual
  | '!', '=' => some .bangEqual
  | '<', '=' => some .lessEqual
  | '>', '=' => some .greaterEqual
  | '&', '&' => some .doubleAmpersand
  | '|', '|' => some .doublePipe
  | _, _ => none

/-- The tokens of one character; what begins no token is one by itself. -/
def singleKind : Char → TokenKind
  | '(' => .leftParen
  | ')' => .rightParen
  | '\x7b' => .leftBrace
  | '\x7d' => .rightBrace
  | '[' => .leftBracket
  | ']' => .rightBracket
  | ',' => .comma
  | ';' => .semicolon
  | '=' => .assign
  | '+' => .plus
  | '-' => .minus
  | '*' => .star
  | '/' => .slash
  | '%' => .percent
  | '!' => .bang
  | '<' => .less
  | '>' => .greater
  | _ => .unknown

def wordKind (word : String) : TokenKind :=
  match Keyword.ofWord? word with
  | some keyword => .keyword keyword
  | none => .identifier

/-- Splits the characters of a token that is no string off the text that begins with `c`. -/
def spanToken (c : Char) (cs : List Char) : TokenKind × List Char × List Char :=
  if isWordStart c then
    let word := c :: cs.takeWhile isWordPart
    (wordKind (String.ofList word), word, cs.dropWhile isWordPart)
  else if c.isDigit then
    let (digits, rest) := spanNumber false cs
    (.number, c :: digits, rest)
  else match cs with
    | [] => (singleKind c, [c], [])
    | d :: rest =>
      match pairKind? c d with
      | some kind => (kind, [c, d], rest)
      | none => (singleKind c, [c], d :: rest)

/-- One token and what follows it, or the place where the text ends inside a string. -/
inductive TokenScan where
  | token (token : Token) (place : Place) (rest : List Char)
  | unclosed (place : Place)

/-- The token that begins with `c` at `p`. -/
def scanToken (p : Place) (c : Char) (cs : List Char) : TokenScan :=
  if c = '"' then
    match scanString [] (p.step c) cs with
    | .closed text q rest => .token ⟨.string, String.ofList text, p.spanTo q⟩ q rest
    | .unclosed q => .unclosed q
  else
    let (kind, taken, rest) := spanToken c cs
    let q := p.after taken
    .token ⟨kind, String.ofList taken, p.spanTo q⟩ q rest

theorem skipLayout_length_le (layout : Layout) (p : Place) (cs : List Char) :
    (skipLayout layout p cs).2.length ≤ cs.length := by
  fun_induction skipLayout layout p cs <;> simp_all <;> omega

theorem spanNumber_length_le (pointSeen : Bool) (cs : List Char) :
    (spanNumber pointSeen cs).2.length ≤ cs.length := by
  fun_induction spanNumber pointSeen cs <;> simp_all <;> omega

theorem scanString_length_le {read text : List Char} {p q : Place} {cs rest : List Char}
    (h : scanString read p cs = .closed text q rest) : rest.length ≤ cs.length := by
  fun_induction scanString read p cs <;> simp_all <;> omega

theorem spanToken_length_le (c : Char) (cs : List Char) :
    (spanToken c cs).2.2.length ≤ cs.length := by
  unfold spanToken
  split
  · simpa using (List.dropWhile_suffix isWordPart).length_le
  · split
    · exact spanNumber_length_le false cs
    · split
      · simp
      · split <;> simp

theorem scanToken_length_le {p q : Place} {c : Char} {cs rest : List Char} {token : Token}
    (h : scanToken p c cs = .token token q rest) : rest.length ≤ cs.length := by
  unfold scanToken at h
  split at h
  · split at h
    next hs =>
      cases h
      exact scanString_length_le hs
    next => cases h
  · cases h
    exact spanToken_length_le c cs

/-- The tokens of the text from `p` on, or the span of the string literal that is never closed. -/
def tokensFrom (p : Place) (cs : List Char) : Except Span (List Token) :=
  match _skipped : skipLayout .code p cs with
  | (q, []) => .ok [⟨.endOfInput, "", q.spanTo q⟩]
  | (q, c :: rest) =>
    match _scanned : scanToken q c rest with
    | .unclosed r => .error (q.spanTo r)
    | .token token r left =>
      match tokensFrom r left with
      | .ok tokens => .ok (token :: tokens)
      | .error span => .error span
termination_by cs.length
decreasing_by
  have hs := skipLayout_length_le .code p cs
  have ht := scanToken_length_le _scanned
  simp only [_skipped, List.length_cons] at hs
  omega

def tokenize (source : String) : Except Span (List Token) := tokensFrom .first source.toList

end Script
