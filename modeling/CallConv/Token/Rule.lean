import CallConv.Text.Letter
import CallConv.Token.Basic

/-!
# Token rules

A rule gives, for the text that is left, the length of the token of its kind at the start of it,
if there is one. The rules are tried together: the longest token wins, and of two equally long
ones that of the earlier rule.
-/

namespace CallConv

/-- A way to recognise the tokens of one kind. -/
structure Rule where
  /-- The kind of the tokens. -/
  kind : TokenKind
  /-- The length of the token at the start of a text. -/
  size? : Text → Option Nat

namespace Rule

/-- The token that is exactly `word`. -/
def exactly (kind : TokenKind) (word : String) : Rule :=
  ⟨kind, fun t => if (utf8 word).isPrefixOf t then some (utf8 word).length else none⟩

/-- Whether a byte is white space other than a line feed. -/
def isBlank (b : UInt8) : Bool :=
  b == Byte.tab || b == Byte.verticalTab || b == Byte.formFeed || b == Byte.carriageReturn ||
    b == Byte.space

/-- A nonempty run of white space other than line feeds. -/
def whitespaceSize? (t : Text) : Option Nat :=
  match (t.takeWhile isBlank).length with
  | 0 => none
  | n + 1 => some (n + 1)

/-- Two slashes and what follows them on the line. -/
def lineCommentSize? (t : Text) : Option Nat :=
  if (utf8 "//").isPrefixOf t then some (t.takeWhile (· != Byte.newline)).length else none

/-- The length of what closes `depth` open block comments, which nest. -/
def blockCommentEnd? : (depth : Nat) → Text → Option Nat
  | depth, a :: b :: t =>
    if a = Byte.slash ∧ b = Byte.star then (blockCommentEnd? (depth + 1) t).map (· + 2)
    else if a = Byte.star ∧ b = Byte.slash then
      if depth ≤ 1 then some 2 else (blockCommentEnd? (depth - 1) t).map (· + 2)
    -- Only one byte is passed, so that the slash of `*/` may be the second one.
    else (blockCommentEnd? depth (b :: t)).map (· + 1)
  | _, _ => none

/-- A comment between `/*` and the matching `*/`. -/
def blockCommentSize? (t : Text) : Option Nat :=
  if (utf8 "/*").isPrefixOf t then blockCommentEnd? 0 t else none

/-- The length of the `b` that marks a literal as one of bytes, which is zero or one. -/
def byteMarkSize (t : Text) : Nat := if t.head? = some 0x62 then 1 else 0

/-- The length of the start of a raw string literal, up to its opening quote, and the number of
hashes that its closing quote needs. -/
def rawStringOpening? (t : Text) : Option (Nat × Nat) :=
  let mark := byteMarkSize t
  match t.drop mark with
  | r :: t =>
    let hashes := (t.takeWhile (· == Byte.hash)).length
    if r = 0x72 ∧ (t.drop hashes).head? = some Byte.quote then some (mark + 2 + hashes, hashes)
    else none
  | [] => none

/-- A raw string literal: it ends at the first quote followed by as many hashes as opened it. -/
def rawStringSize? (t : Text) : Option Nat := do
  let (opening, hashes) ← rawStringOpening? t
  let closing := Byte.quote :: List.replicate hashes Byte.hash
  let body ← Text.indexOf? closing (t.drop opening)
  some (opening + body + closing.length)

/-- The length of the rest of a string literal, its closing quote included; a backslash takes the
next code point with it. -/
def stringEnd? : Text → Option Nat
  | [] => none
  | b :: t =>
    if b = Byte.quote then some 1
    else if b = Byte.backslash then
      match t with
      | [] => none
      | _ :: t => (stringEnd? t).map (· + 2)
    else (stringEnd? t).map (· + 1)

/-- Whether a text begins with the opening quote of a string literal. -/
def isStringOpening (t : Text) : Bool := (t.drop (byteMarkSize t)).head? == some Byte.quote

/-- A string literal. -/
def stringSize? (t : Text) : Option Nat :=
  if isStringOpening t then
    (stringEnd? (t.drop (byteMarkSize t + 1))).map (· + (byteMarkSize t + 1))
  else none

/-- The length of the rest of a character literal: an escape sequence of any length, or a single
code point, and the closing apostrophe. It stays on one line. -/
def characterEnd? : Text → Option Nat
  | [] => none
  | b :: t =>
    if b = Byte.backslash then
      match t with
      | [] => none
      | c :: t =>
        let body := (t.takeWhile fun b => b != Byte.apostrophe && b != Byte.newline).length
        if c ≠ Byte.newline ∧ (t.drop body).head? = some Byte.apostrophe then some (body + 3)
        else none
    else if b = Byte.apostrophe ∨ b = Byte.newline then none
    else
      let rune := Rune.read b t
      if (t.drop rune.extra).head? = some Byte.apostrophe then some (rune.width + 1) else none

/-- A character literal. -/
def characterSize? (t : Text) : Option Nat :=
  if (t.drop (byteMarkSize t)).head? = some Byte.apostrophe then
    (characterEnd? (t.drop (byteMarkSize t + 1))).map (· + (byteMarkSize t + 1))
  else none

/-- A word: a letter or low line, then letters, numbers and low lines. -/
def wordSize? (t : Text) : Option Nat :=
  match t with
  | [] => none
  | b :: rest =>
    if Rune.isWordStart (Rune.read b rest).code then some (Text.span Rune.isWordPart t) else none

/-- An identifier: a word, which may be marked as raw by `r#`. -/
def identifierSize? (t : Text) : Option Nat :=
  -- Without a word after it, `r#` is the word `r` before a hash.
  match (if (utf8 "r#").isPrefixOf t then wordSize? (t.drop 2) else none) with
  | some n => some (n + 2)
  | none => wordSize? t

/-- A lifetime: an apostrophe and a word. -/
def lifetimeSize? : Text → Option Nat
  | [] => none
  | b :: t => if b = Byte.apostrophe then (wordSize? t).map (· + 1) else none

/-- Whether a byte can continue a run of digits. -/
def isDigitPart (b : UInt8) : Bool := Byte.isDigit b || b == Byte.underscore

/-- The length of a digit followed by digits and low lines, zero if there is none. -/
def digitsSize (t : Text) : Nat :=
  match t with
  | [] => 0
  | b :: _ => if Byte.isDigit b then (t.takeWhile isDigitPart).length else 0

/-- The length of a decimal point with the digits that have to follow it, or zero. -/
def fractionSize (t : Text) : Nat :=
  match t with
  | [] => 0
  | b :: t =>
    match digitsSize t with
    | 0 => 0
    | n + 1 => if b = Byte.dot then n + 2 else 0

/-- The length of an exponent with at least one digit or low line, or zero. -/
def exponentSize (t : Text) : Nat :=
  match t with
  | [] => 0
  | e :: t =>
    if e = 0x65 ∨ e = 0x45 then
      let sign := if t.head? = some Byte.plus ∨ t.head? = some Byte.hyphen then 1 else 0
      match ((t.drop sign).takeWhile isDigitPart).length with
      | 0 => 0
      | n + 1 => sign + n + 2
    else 0

/-- A number literal: digits, a fraction, an exponent, and a suffix of letters, numbers and low
lines, of which only the digits are required. -/
def numberSize? (t : Text) : Option Nat :=
  match digitsSize t with
  | 0 => none
  | n + 1 =>
    let whole := n + 1
    let fraction := fractionSize (t.drop whole)
    let exponent := exponentSize (t.drop (whole + fraction))
    let suffix := Text.span Rune.isWordPart (t.drop (whole + fraction + exponent))
    some (whole + fraction + exponent + suffix)

/-- The operators of more than one character, with one that begins another after it. -/
def longOperators : List Text :=
  [utf8 "==", utf8 "!=", utf8 "<=", utf8 ">=", utf8 "&&", utf8 "||", utf8 "..=", utf8 "...",
    utf8 "..", utf8 "<<=", utf8 ">>=", utf8 "-=", utf8 "+=", utf8 "*=", utf8 "/=", utf8 "%=",
    utf8 "^=", utf8 "&=", utf8 "|="]

/-- The operators of one character that have no kind of their own. -/
def shortOperators : Text := utf8 "-+/%^|.?@~$"

/-- An operator without a kind of its own. -/
def operatorSize? (t : Text) : Option Nat :=
  match longOperators.find? (·.isPrefixOf t) with
  | some operator => some operator.length
  | none =>
    match t with
    | [] => none
    | b :: _ => if shortOperators.contains b then some 1 else none

/-- The rules, the earlier ones first. -/
def all : List Rule :=
  [exactly .newline "\n", ⟨.whitespace, whitespaceSize?⟩, ⟨.lineComment, lineCommentSize?⟩,
    ⟨.blockComment, blockCommentSize?⟩, ⟨.rawString, rawStringSize?⟩, ⟨.string, stringSize?⟩,
    ⟨.character, characterSize?⟩, ⟨.identifier, identifierSize?⟩, ⟨.lifetime, lifetimeSize?⟩,
    ⟨.number, numberSize?⟩, exactly .braceLeft "\x7b", exactly .braceRight "\x7d",
    exactly .bracketLeft "[", exactly .bracketRight "]", exactly .parenLeft "(",
    exactly .parenRight ")", exactly .comma ",", exactly .semicolon ";",
    exactly .pathSeparator "::", exactly .colon ":", exactly .arrow "->", exactly .fatArrow "=>",
    exactly .equal "=", exactly .hash "#", exactly .bang "!", exactly .less "<",
    exactly .greater ">", exactly .ampersand "&", exactly .star "*", ⟨.punctuation, operatorSize?⟩]

/-- The longer of the best token so far and the token of a rule; the best so far keeps a tie. -/
def better (t : Text) (best : TokenKind × Nat) (rule : Rule) : TokenKind × Nat :=
  match rule.size? t with
  | some n => if best.2 < n then (rule.kind, n) else best
  | none => best

/-- The kind and length of the longest token at the start of a text, or an unassigned token of
length zero when no rule applies. -/
def longest (t : Text) : TokenKind × Nat := all.foldl (better t) (.unassigned, 0)

end Rule

end CallConv
