import CallConv.Text.Literal

/-!
# Tokens of BUILD files

BUILD files are written in Starlark. Line breaks end statements outside of brackets, and the
indentation of a line opens and closes blocks. Comments, blank lines and line breaks after a
backslash count for nothing, and neither do tabs and carriage returns: only spaces indent a line.
-/

namespace CallConv

/-- The tokens of a BUILD file. -/
inductive BuildToken where
  /-- An identifier or a keyword. -/
  | word (name : Text)
  /-- A whole number, or the part of a number on one side of its point. -/
  | number
  /-- A string literal with its value. -/
  | string (value : Text)
  /-- An operator, a bracket or a separator. -/
  | sign (text : Text)
  /-- The end of a logical line. -/
  | newline
  /-- The next line is indented more than the last. -/
  | indent
  /-- The next line closes a block. -/
  | dedent
deriving DecidableEq, Repr

namespace BuildToken

/-- Whether a byte can be part of a word: an ASCII letter or digit, a low line, or any byte of a
code point outside of ASCII. -/
def isWordByte (b : UInt8) : Bool :=
  Byte.isLetter b || Byte.isDigit b || b == Byte.underscore || b ≥ 0x80

/-- Whether a byte is white space within a line. -/
def isBlank (b : UInt8) : Bool := b == Byte.space || b == Byte.tab || b == Byte.carriageReturn

/-- The operators, brackets and separators; one that begins another comes after it. -/
def signs : List Text :=
  ["//=", "<<=", ">>=", "**", "//", "==", "!=", "<=", ">=", "<<", ">>", "->", "+=", "-=", "*=",
    "/=", "%=", "|=", "&=", "^=", "(", ")", "[", "]", "\x7b", "\x7d", ".", ",", ":", ";", "+", "-",
    "*", "/", "%", "=", "<", ">", "|", "&", "^", "~"].map utf8

/-- The brackets that open a group. -/
def isOpening (sign : Text) : Bool := [utf8 "(", utf8 "[", utf8 "\x7b"].contains sign

/-- The brackets that close a group. -/
def isClosing (sign : Text) : Bool := [utf8 ")", utf8 "]", utf8 "\x7d"].contains sign

/-- The text up to the closing quotes of a string and the text after them. A backslash keeps the
next byte from being looked at, and only triple quotes allow a line break. -/
def stringBody? (closing : Text) : Text → Option (Text × Text)
  | [] => none
  | b :: t =>
    if closing.isPrefixOf (b :: t) then some ([], (b :: t).drop closing.length)
    else if b = Byte.newline ∧ closing.length = 1 then none
    else if b = Byte.backslash then
      match t with
      | [] => none
      | c :: t => (stringBody? closing t).map fun (body, rest) => (b :: c :: body, rest)
    else (stringBody? closing t).map fun (body, rest) => (b :: body, rest)

/-- The number written by exactly `size` bytes at the start of a text: hexadecimal digits, of which
the first may be replaced by a sign. -/
def signedHex? (size : Nat) (t : Text) : Option Int :=
  if t.head? = some Byte.plus then (Text.hexNumber? (size - 1) (t.drop 1)).map Int.ofNat
  else if t.head? = some Byte.hyphen then
    (Text.hexNumber? (size - 1) (t.drop 1)).map fun n => -Int.ofNat n
  else (Text.hexNumber? size t).map Int.ofNat

/-- The text of a code point given by its number, which has to be a scalar value; a number below
zero gives U+FFFD. -/
def codeEscape? (size : Nat) (t : Text) : Option Text :=
  match signedHex? size t with
  | some (.ofNat code) => if code.isValidChar then some (Rune.encode code) else none
  | some (.negSucc _) => some (Rune.encode Rune.replacement)
  | none => none

/-- What an escape sequence stands for and its length, given the text after the backslash. An
unknown sequence stands for itself, and a line break after a backslash for nothing. -/
def escape? : Text → Option (Text × Nat)
  | [] => none
  | c :: t =>
    if c = Byte.newline then some ([], 1)
    else if c = 0x78 then (signedHex? 2 t).map fun n => ([(n % 256).toNat.toUInt8], 3)
    else if c = 0x75 then (codeEscape? 4 t).map (·, 5)
    else if c = 0x55 then (codeEscape? 8 t).map (·, 9)
    else if (Byte.octalValue? c).isSome then do
      let digits := ((c :: t).take 3).takeWhile fun b => (Byte.octalValue? b).isSome
      let n ← Text.number? Byte.octalValue? 8 digits
      if n < 256 then some ([n.toUInt8], digits.length) else none
    else if c = Byte.apostrophe then some ([c], 1)
    else
      match Text.simpleEscape? c with
      | some b => some ([b], 1)
      | none => some ([Byte.backslash, c], 1)

/-- The value of the text between the quotes of a string that is not raw. -/
def unescape? : Text → Option Text
  | [] => some []
  | b :: t =>
    if b = Byte.backslash then do
      let (value, size) ← escape? t
      (unescape? (t.drop size)).map (value ++ ·)
    else (unescape? t).map (b :: ·)
termination_by t => t.length
decreasing_by all_goals simp only [List.length_drop, List.length_cons]; omega

/-- The value of the string literal whose quotes begin a text, and the text after it. -/
def string? (raw : Bool) (t : Text) : Option (Text × Text) := do
  let quote ← t.head?
  let triple := List.replicate 3 quote
  let closing := if triple.isPrefixOf t then triple else [quote]
  let (body, rest) ← stringBody? closing (t.drop closing.length)
  let value ← if raw then some body else unescape? body
  some (value, rest)

/-- Whether a text begins with a quote. -/
def startsWithQuote (t : Text) : Bool :=
  t.head? == some Byte.quote || t.head? == some Byte.apostrophe

/-- The length of the number at the start of a text, where `exponent` says whether the byte before
is the mark of an exponent, after which a sign belongs to the number. -/
def numberSize (exponent : Bool) : Text → Nat
  | [] => 0
  | b :: t =>
    if isWordByte b then numberSize (b == 0x65 || b == 0x45) t + 1
    else if exponent && (b == Byte.plus || b == Byte.hyphen) then numberSize false t + 1
    else 0

/-- The word, number, string or sign at the start of a text, and the text after it. -/
def next? (t : Text) : Option (BuildToken × Text) :=
  if startsWithQuote t then (string? false t).map fun (value, rest) => (.string value, rest)
  else if t.head? = some 0x72 ∧ startsWithQuote (t.drop 1) then
    (string? true (t.drop 1)).map fun (value, rest) => (.string value, rest)
  else if (t.head?.map Byte.isDigit) = some true then
    some (.number, t.drop (numberSize false t))
  else
    let size := (t.takeWhile isWordByte).length
    if 0 < size then some (.word (t.take size), t.drop size)
    else (signs.find? (·.isPrefixOf t)).map fun sign => (.sign sign, t.drop sign.length)

/-- The number of open brackets after a token. -/
def depthAfter (depth : Nat) : BuildToken → Nat
  | .sign s => if isOpening s then depth + 1 else if isClosing s then depth - 1 else depth
  | _ => depth

/-- The blocks that a line with the given indentation opens or closes, and the indentations of the
blocks that are open after it. -/
def reindent? (width : Nat) : List Nat → Option (List BuildToken × List Nat)
  | [] => if width = 0 then some ([], []) else some ([.indent], [width])
  | top :: outer =>
    if width = top then some ([], top :: outer)
    else if top < width then some ([.indent], width :: top :: outer)
    else if outer.any (· ≥ width) ∨ width = 0 then
      (reindent? width outer).map fun (ts, open_) => (.dedent :: ts, open_)
    else none

/-- The tokens of a text, given a bound on its length. The state is the number of open brackets, the
indentations of the open blocks, and at the start of a line the spaces that indent it so far. A text
that ends within a statement has no tokens. -/
def lex? : (fuel : Nat) → (depth : Nat) → (blocks : List Nat) → (start : Option Nat) → Text →
    Option (List BuildToken)
  | 0, _, _, _, _ => none
  | _ + 1, _, blocks, start, [] => do
    let (changes, blocks) ← reindent? (← start) blocks
    some (changes ++ blocks.map fun _ => .dedent)
  | fuel + 1, depth, blocks, start, b :: rest =>
    if isBlank b then
      let start := if b = Byte.space then start.map (· + 1) else start
      lex? fuel depth blocks start rest
    else if b = Byte.hash then
      let comment := rest.takeWhile (· != Byte.newline)
      let rest := rest.dropWhile (· != Byte.newline)
      -- A backslash joins the next line to a statement from within a comment, too.
      if start = none ∧ comment.getLast? = some Byte.backslash then
        lex? fuel depth blocks none (rest.drop 1)
      else lex? fuel depth blocks start rest
    else if b = Byte.newline then
      if start.isSome then lex? fuel depth blocks (some 0) rest
      else if 0 < depth then lex? fuel depth blocks none rest
      else (lex? fuel depth blocks (some 0) rest).map (.newline :: ·)
    else if b = Byte.backslash ∧ rest.head? = some Byte.newline then
      lex? fuel depth blocks start (rest.drop 1)
    else do
      let (changes, blocks) ←
        match start with
        | some width => reindent? width blocks
        | none => some ([], blocks)
      let (token, rest) ← next? (b :: rest)
      let tokens ← lex? fuel (depthAfter depth token) blocks none rest
      some (changes ++ token :: tokens)

/-- The tokens of a BUILD file. Its last line counts as ended. -/
def tokenize? (t : Text) : Option (List BuildToken) :=
  lex? (t.length + 2) 0 [] (some 0) (t ++ [Byte.newline])

end BuildToken

end CallConv
