/-!
# Text

Source files, names and messages are byte strings, and nothing is lost when they are not valid
UTF-8. This module holds the type, its literals, its byte order, and the searches that look at
bytes only; `Text.Rune` adds the view as Unicode code points.
-/

namespace CallConv

/-- A text is the list of its bytes. -/
abbrev Text := List UInt8

/-- Comparing texts byte by byte decides their equality. -/
instance Text.instLawfulBEq : LawfulBEq Text := inferInstance

/-- The UTF-8 bytes of a string, which is how constant texts are written. -/
def utf8 (s : String) : Text := s.toList.flatMap String.utf8EncodeChar

/-! ## Bytes that the formats of this library give a meaning to -/

namespace Byte

/-- Horizontal tab. -/
abbrev tab : UInt8 := 0x09
/-- Line feed. -/
abbrev newline : UInt8 := 0x0A
/-- Vertical tab. -/
abbrev verticalTab : UInt8 := 0x0B
/-- Form feed. -/
abbrev formFeed : UInt8 := 0x0C
/-- Carriage return. -/
abbrev carriageReturn : UInt8 := 0x0D
/-- Space. -/
abbrev space : UInt8 := 0x20
/-- Double quote. -/
abbrev quote : UInt8 := 0x22
/-- Number sign. -/
abbrev hash : UInt8 := 0x23
/-- Apostrophe. -/
abbrev apostrophe : UInt8 := 0x27
/-- Asterisk. -/
abbrev star : UInt8 := 0x2A
/-- Plus sign. -/
abbrev plus : UInt8 := 0x2B
/-- Comma. -/
abbrev comma : UInt8 := 0x2C
/-- Hyphen. -/
abbrev hyphen : UInt8 := 0x2D
/-- Full stop. -/
abbrev dot : UInt8 := 0x2E
/-- Slash. -/
abbrev slash : UInt8 := 0x2F
/-- Colon. -/
abbrev colon : UInt8 := 0x3A
/-- Equals sign. -/
abbrev equals : UInt8 := 0x3D
/-- Commercial at. -/
abbrev commercialAt : UInt8 := 0x40
/-- Backslash. -/
abbrev backslash : UInt8 := 0x5C
/-- Low line. -/
abbrev underscore : UInt8 := 0x5F

/-- Whether a byte is an ASCII decimal digit. -/
def isDigit (b : UInt8) : Bool := 0x30 ≤ b && b ≤ 0x39

/-- Whether a byte is an ASCII letter. -/
def isLetter (b : UInt8) : Bool := (0x41 ≤ b && b ≤ 0x5A) || (0x61 ≤ b && b ≤ 0x7A)

/-- The value of a hexadecimal digit of either case. -/
def hexValue? (b : UInt8) : Option Nat :=
  if isDigit b then some (b.toNat - 0x30)
  else if 0x41 ≤ b && b ≤ 0x46 then some (b.toNat - 0x37)
  else if 0x61 ≤ b && b ≤ 0x66 then some (b.toNat - 0x57)
  else none

/-- The value of an octal digit. -/
def octalValue? (b : UInt8) : Option Nat :=
  if 0x30 ≤ b && b ≤ 0x37 then some (b.toNat - 0x30) else none

end Byte

namespace Text

/-- The position of the first occurrence of `needle`. -/
def indexOf? (needle : Text) : Text → Option Nat
  | [] => if needle = [] then some 0 else none
  | b :: t => if needle.isPrefixOf (b :: t) then some 0 else (indexOf? needle t).map (· + 1)

/-- The order of texts: by the first byte that differs, and a proper start comes first. -/
def compare : Text → Text → Ordering
  | [], [] => .eq
  | [], _ :: _ => .lt
  | _ :: _, [] => .gt
  | a :: s, b :: t => if a < b then .lt else if b < a then .gt else compare s t

/-- Whether a text comes before another or equals it. -/
def le (s t : Text) : Bool := compare s t != .gt

/-- The pieces of a text between the occurrences of a byte; there is always one piece. -/
def splitAt (sep : UInt8) : Text → List Text
  | [] => [[]]
  | b :: t =>
    if b = sep then [] :: splitAt sep t
    else
      match splitAt sep t with
      | [] => [[b]]
      | piece :: pieces => (b :: piece) :: pieces

/-- The text before the first occurrence of a byte and the text after it. -/
def cut? (sep : UInt8) : Text → Option (Text × Text)
  | [] => none
  | b :: t => if b = sep then some ([], t) else (cut? sep t).map fun (s, r) => (b :: s, r)

/-- The texts in order, with `sep` between two neighbours. -/
def join (sep : Text) : List Text → Text
  | [] => []
  | [t] => t
  | t :: u :: ts => t ++ sep ++ join sep (u :: ts)

/-- The decimal digits of a natural number. -/
def ofNat (n : Nat) : Text := (Nat.toDigits 10 n).map Char.toUInt8

/-- The decimal notation of an integer, with a hyphen before a negative one. -/
def ofInt : Int → Text
  | .ofNat n => ofNat n
  | .negSucc n => Byte.hyphen :: ofNat (n + 1)

/-- A list of texts in brackets, with a space between two neighbours. -/
def bracketed (ts : List Text) : Text := utf8 "[" ++ join (utf8 " ") ts ++ utf8 "]"

end Text

end CallConv
