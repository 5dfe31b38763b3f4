import CallConv.Text.Literal
import CallConv.Token.Group

/-!
# Calling convention markers

A marker is the keyword `extern` with or without a string literal that names the convention. The
name is the value of the literal; a literal whose escape sequences have no value names what is
written between its quotes.
-/

namespace CallConv

namespace Abi

/-- The string literal of a convention's name: a backslash is put before each backslash and each
quote. -/
def quoted (name : Text) : Text :=
  Byte.quote ::
    name.flatMap (fun b =>
      if b = Byte.backslash ∨ b = Byte.quote then [Byte.backslash, b] else [b]) ++
    [Byte.quote]

/-- Whether a token can name a convention: a string literal that is not one of bytes. -/
def isLiteral (t : Token) : Bool := t.kind.isStringLiteral && t.content.head? != some 0x62

/-- The text between the opening and the closing of a raw string literal, which has both. -/
def rawBody (content : Text) : Text :=
  let hashes := ((content.drop 1).takeWhile (· == Byte.hash)).length
  (content.drop (hashes + 2)).take (content.length - (hashes + 2) - (hashes + 1))

/-- The text between the quotes of a string literal, which has two. -/
def body (content : Text) : Text := (content.drop 1).take (content.length - 2)

/-- The name that a literal gives. A token is a literal only as the lexer cuts it, with what opens
it and what closes it. -/
def ofLiteral (t : Token) : Text :=
  if t.kind = .rawString then rawBody t.content
  else (Text.unquote? (body t.content)).getD (body t.content)

end Abi

/-- The calling convention that a declaration states. -/
inductive Marker where
  /-- There is no marker. -/
  | absent
  /-- The keyword stands alone. -/
  | bare
  /-- The keyword is followed by the name of a convention. -/
  | named (name : Text)
deriving DecidableEq, Repr, Inhabited

namespace Marker

/-- Whether the keyword is there. -/
def isPresent : Marker → Bool
  | absent => false
  | _ => true

/-- The name of the convention, if one is given. -/
def name? : Marker → Option Text
  | named name => some name
  | _ => none

/-- How messages show a marker. -/
def text : Marker → Text
  | absent => utf8 "<none>"
  | bare => utf8 "extern"
  | named name => utf8 "extern " ++ Abi.quoted name

end Marker

/-- Where a declaration has its marker, or where it would have one. -/
inductive MarkerSite where
  /-- Without a marker, it would stand in front of the keyword `fn`. -/
  | absent (fn : Token)
  /-- The keyword `extern` alone. -/
  | bare (keyword : Token)
  /-- The keyword `extern` and the literal after it. -/
  | named (keyword literal : Token)
deriving DecidableEq, Repr

namespace MarkerSite

/-- The marker at a site. -/
def marker : MarkerSite → Marker
  | absent _ => .absent
  | bare _ => .bare
  | named _ literal => .named (Abi.ofLiteral literal)

/-- The marker at the start of the tokens, if there is one, and the tokens after it. -/
def read (ts : List Token) : Option MarkerSite × List Token :=
  match acceptWord? (utf8 "extern") ts with
  | none => (none, ts)
  | some (keyword, []) => (some (bare keyword), [])
  | some (keyword, t :: rest) =>
    if Abi.isLiteral t then (some (named keyword t), rest) else (some (bare keyword), t :: rest)

end MarkerSite

end CallConv
