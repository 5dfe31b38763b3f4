import CallConv.Text.Basic

/-!
# Values and statements of TOML documents

A document is a list of statements: headers that open a table or add a table to an array of
tables, and entries that give a key a value. Numbers, truth values, dates and times are told apart
only from texts, since nothing in a configuration takes them.
-/

namespace CallConv.Toml

/-- A key with its dotted parts, of which there is at least one in a document. -/
abbrev Key := List Text

/-- A value as it is written. -/
inductive Value where
  /-- A text. -/
  | text (t : Text)
  /-- A number, a truth value, a date or a time. -/
  | scalar
  /-- Values in brackets. -/
  | array (items : List Value)
  /-- Keys and values in braces. -/
  | table (members : List (Key × Value))
deriving Repr, Inhabited

/-- A statement of a document. -/
inductive Statement where
  /-- The table of a key begins. -/
  | table (key : Key)
  /-- A further table of an array of tables begins. -/
  | element (key : Key)
  /-- A key of the current table has a value. -/
  | entry (key : Key) (value : Value)
deriving Repr, Inhabited

/-- Whether a byte can stand in a key without quotes. -/
def isBare (b : UInt8) : Bool :=
  Byte.isLetter b || Byte.isDigit b || b == Byte.underscore || b == Byte.hyphen

/-- How a byte of a quoted key is written. -/
def escapedByte (b : UInt8) : Text :=
  if b = Byte.quote then utf8 "\\\""
  else if b = Byte.backslash then utf8 "\\\\"
  else if b = 0x08 then utf8 "\\b"
  else if b = Byte.tab then utf8 "\\t"
  else if b = Byte.newline then utf8 "\\n"
  else if b = Byte.formFeed then utf8 "\\f"
  else if b = Byte.carriageReturn then utf8 "\\r"
  else if b < 0x20 ∨ b = 0x7F then
    utf8 "\\u00" ++ [b / 16, b % 16].map fun d => if d < 10 then 0x30 + d else 0x57 + d
  else [b]

/-- How a part of a key is written: as it is if that is a key, and in quotes otherwise. -/
def partText (part : Text) : Text :=
  if part ≠ [] ∧ part.all isBare then part
  else Byte.quote :: part.flatMap escapedByte ++ [Byte.quote]

/-- How a key is written. -/
def keyText (key : Key) : Text := Text.join [Byte.dot] (key.map partText)

end CallConv.Toml
