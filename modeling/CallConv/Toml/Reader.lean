import CallConv.Text.Literal
import CallConv.Text.Rune
import CallConv.Toml.Scalar
import CallConv.Toml.Value

/-!
# Reading TOML documents

A document is valid UTF-8 without control characters, apart from tabs and line breaks. A text that
is no document has no reading, whatever is wrong with it.
-/

namespace CallConv.Toml

/-! ## Texts in quotes -/

/-- The text up to a quote, and the text after the quote. A backslash keeps the next byte from
ending the text if `escapes`, and no line break may come before the quote. -/
def cutQuoted? (escapes : Bool) (quote : UInt8) : Text → Option (Text × Text)
  | [] => none
  | b :: t =>
    if b = quote then some ([], t)
    else if b = Byte.newline then none
    else if escapes ∧ b = Byte.backslash then
      match t with
      | [] => none
      | c :: t =>
        if c = Byte.newline then none
        else (cutQuoted? escapes quote t).map fun (s, r) => (b :: c :: s, r)
    else (cutQuoted? escapes quote t).map fun (s, r) => (b :: s, r)

/-- The text up to three quotes, and the text after them, where `run` of at most `limit` quotes in a
row have just been read. The last three of a run of three or more end the text. The limit is five
quotes, and six right after a backslash that was itself escaped. -/
def cutMultiline? (escapes : Bool) (quote : UInt8) :
    (limit run : Nat) → Text → Option (Text × Text)
  | _, run, [] => if 3 ≤ run then some (List.replicate (run - 3) quote, []) else none
  | limit, run, b :: t =>
    if b = quote then
      if run = limit then none else cutMultiline? escapes quote limit (run + 1) t
    -- The run of quotes is over, so its last three end the text.
    else if 3 ≤ run then some (List.replicate (run - 3) quote, b :: t)
    else if escapes ∧ b = Byte.backslash then
      match t with
      | [] => none
      | c :: t =>
        let limit := if c = Byte.backslash then 6 else 5
        (cutMultiline? escapes quote limit 0 t).map fun (s, r) =>
          (List.replicate run quote ++ b :: c :: s, r)
    else (cutMultiline? escapes quote 5 0 t).map fun (s, r) =>
      (List.replicate run quote ++ b :: s, r)

/-- A text without the line break that it begins with. -/
def dropFirstNewline : Text → Text
  | 0x0A :: t => t
  | 0x0D :: 0x0A :: t => t
  | t => t

/-- Whether a byte is a blank or part of a line break. -/
def isSpace (b : UInt8) : Bool :=
  b == Byte.space || b == Byte.tab || b == Byte.newline || b == Byte.carriageReturn

/-- A text without its backslashes at the ends of lines and the blanks and line breaks after them.
`skip` bytes are still to be left out, and `kept` tells that a backslash was kept for the next
byte. -/
def joinLines : (skip : Nat) → (kept : Bool) → Text → Text
  | _, _, [] => []
  | skip + 1, _, _ :: t => joinLines skip false t
  | 0, true, b :: t => b :: joinLines 0 false t
  | 0, false, b :: t =>
    let blanks := t.takeWhile isSpace
    if b = Byte.backslash ∧ blanks.contains Byte.newline then joinLines blanks.length false t
    else b :: joinLines 0 (b == Byte.backslash && t.head? == some Byte.backslash) t

/-- What a single letter after a backslash stands for. -/
def escape? (letter : UInt8) : Option UInt8 :=
  [(0x62, 0x08), (0x74, 0x09), (0x6E, 0x0A), (0x66, 0x0C), (0x72, 0x0D), (0x65, 0x1B),
    (0x22, 0x22), (0x5C, 0x5C)].lookup letter

/-- The number of hexadecimal digits after a letter after a backslash. -/
def escapeDigits? (letter : UInt8) : Option Nat :=
  [(0x78, 2), (0x75, 4), (0x55, 8)].lookup letter

/-- A text with its escapes resolved, where `skip` bytes have already been read. -/
def unescape? : (skip : Nat) → Text → Option Text
  | _, [] => some []
  | skip + 1, _ :: t => unescape? skip t
  | 0, b :: t =>
    if b = Byte.backslash then
      match t with
      | [] => none
      | c :: t =>
        match escape? c with
        | some byte => (unescape? 0 t).map (byte :: ·)
        | none => do
          let count ← escapeDigits? c
          let encoded ← Text.codeEscape? count t
          (unescape? count t).map (encoded ++ ·)
    else (unescape? 0 t).map (b :: ·)

/-- A text in one pair of quotes, of which the first was read, and what follows. -/
def quoted? (quote : UInt8) (t : Text) : Option (Text × Text) := do
  let (raw, rest) ← cutQuoted? (quote = Byte.quote) quote t
  if quote = Byte.quote then (unescape? 0 raw).map (·, rest) else some (raw, rest)

/-- A text in three quotes on each side, of which the first three were read, and what follows. -/
def multiline? (quote : UInt8) (t : Text) : Option (Text × Text) := do
  let (raw, rest) ← cutMultiline? (quote = Byte.quote) quote 5 0 t
  let body := dropFirstNewline raw
  if quote = Byte.quote then (unescape? 0 (joinLines 0 false body)).map (·, rest)
  else some (body, rest)

/-- A text whose first quote was read, and what follows. -/
def textValue? (quote : UInt8) (t : Text) : Option (Text × Text) :=
  if t.take 2 = [quote, quote] then multiline? quote (t.drop 2) else quoted? quote t

/-! ## Keys -/

/-- A text without the blanks that it begins with. -/
def skipBlanks (t : Text) : Text := t.dropWhile fun b => b == Byte.space || b == Byte.tab

/-- A part of a key, and what follows. -/
def keyPart? (t : Text) : Option (Text × Text) :=
  match t with
  | [] => none
  | b :: rest =>
    if b = Byte.quote ∨ b = Byte.apostrophe then quoted? b rest
    else if isBare b then some (t.takeWhile isBare, t.dropWhile isBare)
    else none

/-- A key of at most `limit` parts, and what follows after blanks. -/
def key? : (limit : Nat) → Text → Option (Key × Text)
  | 0, _ => none
  | limit + 1, t => do
    let (part, rest) ← keyPart? (skipBlanks t)
    match after? Byte.dot (skipBlanks rest) with
    | none => some ([part], skipBlanks rest)
    | some rest => (key? limit rest).map fun (key, rest) => (part :: key, rest)

/-! ## Values -/

/-- A text without the rest of its first line. -/
def skipLine (t : Text) : Text := t.dropWhile (· != Byte.newline)

/-- A text without the blanks, line breaks and comments that it begins with, where `comment` tells
that a comment is being left out. -/
def skipVoid : (comment : Bool) → Text → Text
  | _, [] => []
  | true, b :: t => skipVoid (b != Byte.newline) t
  | false, b :: t =>
    if isSpace b then skipVoid false t
    else if b = Byte.hash then skipVoid true t
    else b :: t

mutual

/-- A value, and what follows. -/
def value? : (fuel : Nat) → Text → Option (Value × Text)
  | 0, _ => none
  | fuel + 1, t =>
    match t with
    | [] => none
    | b :: rest =>
      if b = 0x5B then (items? fuel rest).map fun (items, rest) => (.array items, rest)
      else if b = 0x7B then (members? fuel rest).map fun (members, rest) => (.table members, rest)
      else if b = Byte.quote ∨ b = Byte.apostrophe then
        (textValue? b rest).map fun (text, rest) => (.text text, rest)
      else (scalar? t).map (.scalar, ·)

/-- The values of an array up to its closing bracket, and what follows. -/
def items? : (fuel : Nat) → Text → Option (List Value × Text)
  | 0, _ => none
  | fuel + 1, t =>
    match after? 0x5D (skipVoid false t) with
    | some rest => some ([], rest)
    | none => do
      let (item, rest) ← value? fuel (skipVoid false t)
      let rest := skipVoid false rest
      match after? Byte.comma rest with
      | some rest => (items? fuel rest).map fun (items, rest) => (item :: items, rest)
      | none => (after? 0x5D rest).map ([item], ·)

/-- The keys and values of a table up to its closing brace, and what follows. -/
def members? : (fuel : Nat) → Text → Option (List (Key × Value) × Text)
  | 0, _ => none
  | fuel + 1, t =>
    match after? 0x7D (skipVoid false t) with
    | some rest => some ([], rest)
    | none => do
      let (key, rest) ← key? t.length (skipVoid false t)
      let rest ← after? Byte.equals rest
      let (value, rest) ← value? fuel (skipBlanks rest)
      let rest := skipVoid false rest
      match after? Byte.comma rest with
      | some rest =>
        (members? fuel rest).map fun (members, rest) => ((key, value) :: members, rest)
      | none => (after? 0x7D rest).map ([(key, value)], ·)

end

/-! ## Statements -/

/-- What follows the end of a line that has only blanks and a comment left. -/
def lineEnd? (t : Text) : Option Text :=
  match skipBlanks t with
  | [] => some []
  | b :: rest =>
    if b = Byte.hash then some (skipLine rest)
    else if b = Byte.newline ∨ b = Byte.carriageReturn then some rest
    else none

/-- A statement, and what follows its line. -/
def statement? (t : Text) : Option (Statement × Text) :=
  match after? 0x5B t with
  | some rest =>
    match after? 0x5B rest with
    | some rest => do
      let (key, rest) ← key? t.length rest
      let rest ← after? 0x5D rest
      let rest ← after? 0x5D rest
      (lineEnd? rest).map (.element key, ·)
    | none => do
      let (key, rest) ← key? t.length rest
      let rest ← after? 0x5D rest
      (lineEnd? rest).map (.table key, ·)
  | none => do
    let (key, rest) ← key? t.length t
    let rest ← after? Byte.equals rest
    let (value, rest) ← value? (t.length + 1) (skipBlanks rest)
    (lineEnd? rest).map (.entry key value, ·)

/-- The statements of a document of at most `limit` statements. -/
def statements? : (limit : Nat) → Text → Option (List Statement)
  | 0, _ => none
  | limit + 1, t =>
    if skipVoid false t = [] then some []
    else do
      let (statement, rest) ← statement? (skipVoid false t)
      (statements? limit rest).map (statement :: ·)

/-- Whether all control characters of a text are tabs and line breaks. -/
def isPrintable : Text → Bool
  | [] => true
  | b :: t =>
    (if b = Byte.carriageReturn then t.head? == some Byte.newline
      else b == Byte.tab || b == Byte.newline || (0x20 ≤ b && b != 0x7F)) && isPrintable t

/-- A text without the mark of its byte order. -/
def dropByteOrderMark : Text → Text
  | 0xFF :: 0xFE :: t => t
  | 0xFE :: 0xFF :: t => t
  | 0xEF :: 0xBB :: 0xBF :: t => t
  | t => t

/-- The statements of a document. -/
def parse? (text : Text) : Option (List Statement) :=
  let t := dropByteOrderMark text
  if t.isUtf8 && isPrintable t then statements? (t.length + 1) t else none

end CallConv.Toml
