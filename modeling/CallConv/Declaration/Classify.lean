import CallConv.Declaration.Basic

/-!
# Reading declarations

Each kind of declaration has a reader over the significant tokens of a text. A reader answers
`none` when the tokens do not have the shape of its kind. The readers are tried in a fixed order,
and a reader that recognises its kind decides, even when it has to refuse the type it finds.
-/

namespace CallConv

namespace Shape

/-- Whether a token begins the body of a function or ends a function without one. -/
def isBodyStart (t : Token) : Bool := t.kind == .braceLeft || t.kind == .semicolon

/-- Whether a token is a semicolon. -/
def isSemicolon (t : Token) : Bool := t.kind == .semicolon

/-- Whether a token ends the type of a constant or static. -/
def isTypeEnd (t : Token) : Bool := t.kind == .equal || t.kind == .semicolon

/-- The tokens after the leading attributes and the visibility of an item. -/
def skipItemHead? (ts : List Token) : Option (List Token) :=
  (skipAttributes? ts).bind skipVisibility?

/-- A function: qualifiers in their order, marker, `fn`, name, generics, parameters, return type
and where clause, and a body or a semicolon. -/
def function? (ts : List Token) : Option Shape := do
  let ts ← skipItemHead? ts
  let ts := skipWord (utf8 "unsafe") (skipWord (utf8 "async") (skipWord (utf8 "const") ts))
  let (site?, ts) := MarkerSite.read ts
  let (fn, ts) ← acceptWord? (utf8 "fn") ts
  let (name, ts) ← accept? .identifier ts
  let ts ← skipOptionalAngles? ts
  guard (startsWithKind .parenLeft ts)
  let ts ← skipGroup? ts
  let (_, ts) ← splitUntil? isBodyStart true ts
  let rest ←
    match accept? .semicolon ts with
    | some (_, rest) => some rest
    | none => skipGroup? ts
  guard rest.isEmpty
  some (.function name.content (site?.getD (.absent fn)))

/-- The lifetimes of a function pointer type, `for<…>`, which may be absent. -/
def skipForAngles? (ts : List Token) : Option (List Token) :=
  match acceptWord? (utf8 "for") ts with
  | some (_, rest) => skipAngles? rest
  | none => some ts

/-- The tokens after the return type of a function pointer type, which runs to the end and may be
absent but not empty. -/
def skipReturnType? (ts : List Token) : Option (List Token) :=
  match accept? .arrow ts with
  | none => some ts
  | some (_, rest) => do
    let (type, rest) ← splitUntil? (fun _ => false) true rest
    guard (!type.isEmpty)
    some rest

/-- The marker of a function pointer type that takes up all of the tokens. -/
def pointerSite? (ts : List Token) : Option MarkerSite := do
  let ts ← skipForAngles? ts
  let (site?, ts) := MarkerSite.read (skipWord (utf8 "unsafe") ts)
  let (fn, ts) ← acceptWord? (utf8 "fn") ts
  guard (startsWithKind .parenLeft ts)
  let ts ← skipGroup? ts
  let rest ← skipReturnType? ts
  guard rest.isEmpty
  some (site?.getD (.absent fn))

/-- A function pointer type on its own. -/
def pointerType? (ts : List Token) : Option Shape := (pointerSite? ts).map .pointerType

/-- The name of an alias and the tokens of the aliased type, of which there is at least one. -/
def aliasParts? (ts : List Token) : Option (Text × List Token) := do
  let ts ← skipItemHead? ts
  let (_, ts) ← acceptWord? (utf8 "type") ts
  let (name, ts) ← accept? .identifier ts
  let ts ← skipOptionalAngles? ts
  let (_, ts) ← accept? .equal ts
  let (aliased, ts) ← splitUntil? isSemicolon true ts
  guard (!aliased.isEmpty)
  let (_, rest) ← accept? .semicolon ts
  guard rest.isEmpty
  some (name.content, aliased)

/-- The part of a source between two offsets of the enclosing file, in which the source begins at
`origin`. -/
def slice (source : Text) (origin : Cursor) (first last : Int) : Text :=
  (source.drop (first - origin.offset).toNat).take (last - first).toNat

/-- The function pointer type that begins at `origin` and has the given text. The text is cut into
tokens anew. -/
def readPointerType (name : Text) (source : Text) (origin : Cursor) :
    Except ClassifyError PointerType :=
  match tokenize source origin with
  | .error e => .error (.lex e)
  | .ok ts =>
    match pointerSite? (significant ts) with
    | some site => .ok ⟨source, origin, site⟩
    | none => .error (.unsupportedAlias origin name)

/-- An alias of a function pointer type. -/
def typeAlias? (source : Text) (origin : Cursor) (ts : List Token) :
    Option (Except ClassifyError Shape) :=
  match aliasParts? ts with
  | some (name, first :: more) =>
    let last := more.getLast?.getD first
    let aliased := slice source origin first.location.offset last.endOffset
    some ((readPointerType name aliased first.location).map (.typeAlias name))
  | _ => none

/-- The tokens after the keyword of a constant or static. -/
def skipBindingKeyword? (ts : List Token) : Option (List Token) :=
  match acceptWord? (utf8 "const") ts with
  | some (_, rest) => some rest
  | none => (acceptWord? (utf8 "static") ts).map fun (_, rest) => skipWord (utf8 "mut") rest

/-- The tokens after the value of a constant or static, which may be absent but not empty. -/
def skipValue? (ts : List Token) : Option (List Token) :=
  match accept? .equal ts with
  | none => some ts
  | some (_, rest) => do
    let (value, rest) ← splitUntil? isSemicolon false rest
    guard (!value.isEmpty)
    some rest

/-- The name of a constant or static and the tokens of its type, of which there is at least one. -/
def bindingParts? (ts : List Token) : Option (Text × List Token) := do
  let ts ← skipItemHead? ts
  let ts ← skipBindingKeyword? ts
  let (name, ts) ← accept? .identifier ts
  let (_, ts) ← accept? .colon ts
  let (type, ts) ← splitUntil? isTypeEnd true ts
  guard (!type.isEmpty)
  let ts ← skipValue? ts
  let (_, rest) ← accept? .semicolon ts
  guard rest.isEmpty
  some (name.content, type)

/-- A constant or static of a function pointer type. -/
def binding? (ts : List Token) : Option (Except ClassifyError Shape) :=
  match bindingParts? ts with
  | some (name, first :: more) =>
    match pointerSite? (first :: more) with
    | some site => some (.ok (.binding name site))
    | none => some (.error (.unsupportedBinding first.location name))
  | _ => none

/-- A block of foreign items, which always has a marker. -/
def foreignBlock? (ts : List Token) : Option Shape := do
  let ts ← skipAttributes? ts
  let (site?, ts) := MarkerSite.read (skipWord (utf8 "unsafe") ts)
  let site ← site?
  guard (startsWithKind .braceLeft ts)
  let rest ← skipGroup? ts
  guard rest.isEmpty
  some (.foreignBlock site)

/-- What the first reader that recognises its kind says of the significant tokens of a source. -/
def read? (source : Text) (origin : Cursor) (ts : List Token) :
    Option (Except ClassifyError Shape) :=
  (function? ts).map .ok <|> (pointerType? ts).map .ok <|> typeAlias? source origin ts <|>
    binding? ts <|> (foreignBlock? ts).map .ok

end Shape

namespace Declaration

/-- The declaration with the given text and tokens. -/
def ofTokens (source : Text) (origin : Cursor) (ts : List Token) :
    Except ClassifyError Declaration :=
  match Shape.read? source origin (significant ts) with
  | some result => result.map fun shape => ⟨source, origin, shape⟩
  | none => .error (.unsupportedItem origin)

/-- The declaration whose text begins at `origin` in the enclosing file. -/
def classify (source : Text) (origin : Cursor) : Except ClassifyError Declaration :=
  match tokenize source origin with
  | .error e => .error (.lex e)
  | .ok ts => ofTokens source origin ts

end Declaration

end CallConv
