import CallConv.Cursor

/-!
# Tokens

The tokens of Rust source text, as far as items are concerned: every byte of a source belongs to
exactly one token, white space and comments included.
-/

namespace CallConv

/-- The kinds of tokens. -/
inductive TokenKind where
  /-- The end of the input. -/
  | eof
  /-- A single code point that no rule accepts. -/
  | unassigned
  /-- One line feed. -/
  | newline
  /-- A run of white space other than line feeds. -/
  | whitespace
  /-- An identifier or a keyword, raw identifiers included. -/
  | identifier
  /-- A lifetime or a loop label. -/
  | lifetime
  /-- A string literal in double quotes. -/
  | string
  /-- A raw string literal. -/
  | rawString
  /-- A character literal. -/
  | character
  /-- An integer or floating point literal with its suffix. -/
  | number
  /-- A comment that ends with its line. -/
  | lineComment
  /-- A comment between delimiters, which nest. -/
  | blockComment
  | braceLeft
  | braceRight
  | bracketLeft
  | bracketRight
  | parenLeft
  | parenRight
  | comma
  | semicolon
  | colon
  | pathSeparator
  | equal
  | arrow
  | fatArrow
  | hash
  | bang
  | less
  | greater
  | ampersand
  | star
  /-- Every other operator. -/
  | punctuation
deriving DecidableEq, Repr, Inhabited

namespace TokenKind

/-- All kinds, each at the position of its number. -/
def all : List TokenKind :=
  [eof, unassigned, newline, whitespace, identifier, lifetime, string, rawString, character, number,
    lineComment, blockComment, braceLeft, braceRight, bracketLeft, bracketRight, parenLeft,
    parenRight, comma, semicolon, colon, pathSeparator, equal, arrow, fatArrow, hash, bang, less,
    greater, ampersand, star, punctuation]

/-- The number of a kind. -/
def code (kind : TokenKind) : Nat := all.idxOf kind

/-- The kind with a given number. -/
def ofCode? (n : Int) : Option TokenKind :=
  match n with
  | .ofNat n => all[n]?
  | .negSucc _ => none

/-- How messages name a kind. -/
def name : TokenKind → Text
  | eof => utf8 "end of input"
  | unassigned => utf8 "unknown character"
  | newline => utf8 "newline"
  | whitespace => utf8 "whitespace"
  | identifier => utf8 "identifier"
  | lifetime => utf8 "lifetime"
  | string => utf8 "\"string literal\""
  | rawString => utf8 "r\"raw string literal\""
  | character => utf8 "character literal"
  | number => utf8 "number literal"
  | lineComment => utf8 "single-line comment"
  | blockComment => utf8 "multi-line comment"
  | braceLeft => utf8 "symbol '\x7b'"
  | braceRight => utf8 "symbol '\x7d'"
  | bracketLeft => utf8 "symbol '['"
  | bracketRight => utf8 "symbol ']'"
  | parenLeft => utf8 "symbol '('"
  | parenRight => utf8 "symbol ')'"
  | comma => utf8 "symbol ','"
  | semicolon => utf8 "symbol ';'"
  | colon => utf8 "symbol ':'"
  | pathSeparator => utf8 "symbol '::'"
  | equal => utf8 "symbol '='"
  | arrow => utf8 "symbol '->'"
  | fatArrow => utf8 "symbol '=>'"
  | hash => utf8 "symbol '#'"
  | bang => utf8 "symbol '!'"
  | less => utf8 "symbol '<'"
  | greater => utf8 "symbol '>'"
  | ampersand => utf8 "symbol '&'"
  | star => utf8 "symbol '*'"
  | punctuation => utf8 "operator"

/-- How messages name the kind with a number, which may be the number of none. -/
def nameOf? (kind : Option TokenKind) : Text := (kind.map name).getD (utf8 "unknown token")

/-- Whether tokens of a kind carry no meaning: white space and comments. -/
def isTrivia : TokenKind → Bool
  | newline | whitespace | lineComment | blockComment => true
  | _ => false

/-- Whether tokens of a kind are string literals, plain or raw. -/
def isStringLiteral : TokenKind → Bool
  | string | rawString => true
  | _ => false

/-- A kind that opens a bracketed group is sent to the kind that closes it. -/
def closing? : TokenKind → Option TokenKind
  | braceLeft => some braceRight
  | bracketLeft => some bracketRight
  | parenLeft => some parenRight
  | _ => none

/-- Whether a kind closes a bracketed group. -/
def isClosing : TokenKind → Bool
  | braceRight | bracketRight | parenRight => true
  | _ => false

end TokenKind

/-- A token: its kind, where it begins, and its text. -/
structure Token where
  /-- What the token is. -/
  kind : TokenKind
  /-- Where it begins. -/
  location : Cursor
  /-- Its text. -/
  content : Text
deriving DecidableEq, Repr, Inhabited

namespace Token

/-- The token after the last one. -/
def eof : Token := ⟨.eof, Cursor.eof, []⟩

/-- The byte offset right after a token. -/
def endOffset (t : Token) : Int := t.location.offset + t.content.length

/-- Whether a token is trivia. -/
def isTrivia (t : Token) : Bool := t.kind.isTrivia

/-- Whether a token is the given identifier or keyword. -/
def isWord (t : Token) (word : Text) : Bool := t.kind == .identifier && t.content == word

/-- A text in backquotes for a message; of more than 32 code points only the first 29 are shown. -/
def excerpt (content : Text) : Text :=
  let shown :=
    if content.runeCount > 32 then
      Text.ofCodes ((content.runes.take 29).map Rune.code) ++ utf8 "..."
    else content
  utf8 "`" ++ shown ++ utf8 "`"

/-- How messages show a token of a kind, which may be unknown, with some content. -/
def describeAs (kind : Option TokenKind) (content : Text) : Text :=
  if kind = some .eof then TokenKind.name .eof
  else TokenKind.nameOf? kind ++ utf8 " " ++ excerpt content

/-- How messages show a token. -/
def describe (t : Token) : Text := describeAs (some t.kind) t.content

/-- The text of a sequence of tokens. -/
def join (ts : List Token) : Text := ts.flatMap content

end Token

end CallConv
