import CallConv.Token.Rule

/-!
# The lexer

A lexer holds the text that is left and the position where it begins. It cuts one token after the
other off the text and refuses a literal or comment that is opened and never closed, which would
otherwise fall apart into unrelated tokens.
-/

namespace CallConv

/-- What can be opened without being closed. -/
inductive Unterminated where
  | blockComment
  | rawString
  | string
deriving DecidableEq, Repr

/-- How messages name what was not closed. -/
def Unterminated.text : Unterminated → Text
  | blockComment => utf8 "unterminated multi-line comment"
  | rawString => utf8 "unterminated raw string literal"
  | string => utf8 "unterminated string literal"

/-- The failure of a lexer: what was opened, and where. -/
structure LexError where
  /-- Where the literal or comment begins. -/
  location : Cursor
  /-- What it is. -/
  cause : Unterminated
deriving DecidableEq, Repr

/-- The message of a failure. -/
def LexError.message (e : LexError) : Text := e.location.text ++ utf8 ": " ++ e.cause.text

/-- What is opened at the start of a text whose longest token has the given kind, and not closed. -/
def unterminated? (kind : TokenKind) (t : Text) : Option Unterminated :=
  if kind ≠ .blockComment ∧ (utf8 "/*").isPrefixOf t then some .blockComment
  else if kind ≠ .rawString ∧ (Rule.rawStringOpening? t).isSome then some .rawString
  else if kind ≠ .string ∧ Rule.isStringOpening t then some .string
  else none

/-- The kind and length of the token at the start of the text `b :: t`. -/
def scan (b : UInt8) (t : Text) : Except Unterminated (TokenKind × Nat) :=
  let (kind, size) := Rule.longest (b :: t)
  match unterminated? kind (b :: t) with
  | some cause => .error cause
  -- When no rule applies, the token is one code point.
  | none => .ok (kind, if size = 0 then (Rune.read b t).width else size)

/-- The token at the start of a text always takes at least one byte of it. -/
theorem scan_size_pos {b : UInt8} {t : Text} {kind : TokenKind} {size : Nat}
    (h : scan b t = .ok (kind, size)) : 0 < size := by
  unfold scan at h
  split at h
  split at h
  · simp at h
  · simp only [Except.ok.injEq, Prod.mk.injEq] at h
    obtain ⟨-, rfl⟩ := h
    split
    · simp [Rune.width]
    · omega

/-- A lexer: the text that is left, and where it begins. -/
structure Lexer where
  /-- The text that is left. -/
  rest : Text
  /-- The position of its first byte. -/
  cursor : Cursor
deriving DecidableEq, Repr

namespace Lexer

/-- The lexer after `size` bytes. -/
def skip (lx : Lexer) (size : Nat) : Lexer :=
  ⟨lx.rest.drop size, lx.cursor.advance (lx.rest.take size)⟩

/-- The next token and the lexer after it; at the end of the text the token is `Token.eof`. -/
def next (lx : Lexer) : Except LexError (Token × Lexer) :=
  match lx.rest with
  | [] => .ok (Token.eof, lx)
  | b :: t =>
    match scan b t with
    | .error cause => .error ⟨lx.cursor, cause⟩
    | .ok (kind, size) => .ok (⟨kind, lx.cursor, (b :: t).take size⟩, lx.skip size)

/-- Moves the lexer over `size` bytes. -/
def consume (size : Nat) : EStateM LexError Lexer Unit := modify (·.skip size)

/-- Cuts the next token off the text that is left, for a lexer that goes on to be used. -/
def nextToken : EStateM LexError Lexer Token := do
  let lx ← get
  match lx.rest with
  | [] => return Token.eof
  | b :: t =>
    match scan b t with
    | .error cause => throw ⟨lx.cursor, cause⟩
    | .ok (kind, size) =>
      consume size
      return ⟨kind, lx.cursor, lx.rest.take size⟩

/-- The next token moves the lexer behind it, and a failure does not move it. -/
theorem run_nextToken (lx : Lexer) :
    nextToken.run lx =
      match lx.next with
      | .ok (t, lx') => .ok t lx'
      | .error e => .error e lx := by
  obtain ⟨_ | ⟨b, t⟩, c⟩ := lx
  · rfl
  · simp only [nextToken, next, EStateM.run_bind, EStateM.run_get]
    cases scan b t <;> rfl

/-- A token of a nonempty text leaves a shorter text. -/
theorem length_rest_lt_of_next {lx lx' : Lexer} {tok : Token} (hne : lx.rest ≠ [])
    (h : lx.next = .ok (tok, lx')) : lx'.rest.length < lx.rest.length := by
  unfold next at h
  split at h
  · contradiction
  · next b t hbt =>
    split at h
    · simp at h
    · next kind size hs =>
      have := scan_size_pos hs
      simp only [Except.ok.injEq, Prod.mk.injEq] at h
      obtain ⟨-, rfl⟩ := h
      simp only [skip, hbt, List.length_drop, List.length_cons]
      omega

end Lexer

/-- The tokens of a text up to its end, or up to the first failure. -/
structure Lexing where
  /-- The tokens in order. -/
  tokens : List Token
  /-- The failure that ended the tokens, if one did. -/
  error? : Option LexError
deriving DecidableEq, Repr

namespace Lexing

/-- The tokens with one more in front. -/
def cons (t : Token) (l : Lexing) : Lexing := ⟨t :: l.tokens, l.error?⟩

/-- All tokens, if no failure ended them. -/
def toExcept (l : Lexing) : Except LexError (List Token) :=
  match l.error? with
  | some e => .error e
  | none => .ok l.tokens

end Lexing

/-- All tokens from a lexer on. -/
def Lexer.run (lx : Lexer) : Lexing :=
  if _hne : lx.rest = [] then ⟨[], none⟩
  else
    match _h : lx.next with
    | .error e => ⟨[], some e⟩
    | .ok (tok, lx') => (run lx').cons tok
termination_by lx.rest.length
decreasing_by exact length_rest_lt_of_next _hne _h

/-- The tokens of a text that begins at the position `start`. -/
def lex (t : Text) (start : Cursor) : Lexing := Lexer.run ⟨t, start⟩

/-- The tokens of a text that begins at the position `start`, or the failure. -/
def tokenize (t : Text) (start : Cursor) : Except LexError (List Token) := (lex t start).toExcept

end CallConv
