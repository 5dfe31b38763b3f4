import CallConv.Text.Basic

/-!
# Texts as code points

A text is read as UTF-8 from left to right. A byte that begins no valid encoding of a Unicode
scalar value is read alone as U+FFFD, so every text has exactly one reading: surrogates, overlong
forms and values above U+10FFFF are read byte by byte.
-/

namespace CallConv

/-- A code point read from a text, with the number of bytes it takes after the first. -/
structure Rune where
  /-- The code point. -/
  code : Nat
  /-- How many bytes follow the first one. -/
  extra : Nat
deriving DecidableEq, Repr

namespace Rune

/-- The replacement character, which stands for a byte outside every valid encoding. -/
def replacement : Nat := 0xFFFD

/-- The number of bytes that a code point was read from. -/
def width (r : Rune) : Nat := r.extra + 1

/-- The value of a continuation byte that lies between `lo` and `hi`. -/
def continuation? (lo hi b : UInt8) : Option Nat :=
  if lo ≤ b && b ≤ hi then some (b.toNat % 64) else none

/-- The valid encoding of two or more bytes that begins with `b` and goes on in `t`. -/
def multibyte? (b : UInt8) (t : Text) : Option Rune :=
  if 0xC2 ≤ b && b ≤ 0xDF then
    match t with
    | b₁ :: _ => do
      let x ← continuation? 0x80 0xBF b₁
      some ⟨b.toNat % 32 * 64 + x, 1⟩
    | _ => none
  else if 0xE0 ≤ b && b ≤ 0xEF then
    match t with
    | b₁ :: b₂ :: _ => do
      let lo := if b = 0xE0 then 0xA0 else 0x80
      let hi := if b = 0xED then 0x9F else 0xBF
      let x ← continuation? lo hi b₁
      let y ← continuation? 0x80 0xBF b₂
      some ⟨(b.toNat % 16 * 64 + x) * 64 + y, 2⟩
    | _ => none
  else if 0xF0 ≤ b && b ≤ 0xF4 then
    match t with
    | b₁ :: b₂ :: b₃ :: _ => do
      let lo := if b = 0xF0 then 0x90 else 0x80
      let hi := if b = 0xF4 then 0x8F else 0xBF
      let x ← continuation? lo hi b₁
      let y ← continuation? 0x80 0xBF b₂
      let z ← continuation? 0x80 0xBF b₃
      some ⟨((b.toNat % 8 * 64 + x) * 64 + y) * 64 + z, 3⟩
    | _ => none
  else none

/-- The code point at the start of the text `b :: t`. -/
def read (b : UInt8) (t : Text) : Rune :=
  if b < 0x80 then ⟨b.toNat, 0⟩ else (multibyte? b t).getD ⟨replacement, 0⟩

/-- Whether the byte `b` followed by `t` begins a valid encoding. -/
def isValidStart (b : UInt8) (t : Text) : Bool := b < 0x80 || (multibyte? b t).isSome

/-- The UTF-8 encoding of a code point; one that is no scalar value is written as U+FFFD. -/
def encode (code : Nat) : Text :=
  if code.isValidChar then String.utf8EncodeChar (Char.ofNat code) else utf8 "\uFFFD"

end Rune

namespace Text

/-- The code points of a text of which the first `skip` bytes are already accounted for. -/
def runesAfter : (skip : Nat) → Text → List Rune
  | _, [] => []
  | 0, b :: t => Rune.read b t :: runesAfter (Rune.read b t).extra t
  | skip + 1, _ :: t => runesAfter skip t

/-- The code points of a text in order. -/
def runes (t : Text) : List Rune := runesAfter 0 t

/-- The number of code points of a text. -/
def runeCount (t : Text) : Nat := t.runes.length

/-- The length in bytes of the longest start of a text whose code points all satisfy `p`, where the
first `skip` bytes are already accepted. -/
def spanAfter (p : Nat → Bool) : (skip : Nat) → Text → Nat
  | _, [] => 0
  | 0, b :: t =>
    if p (Rune.read b t).code then spanAfter p (Rune.read b t).extra t + 1 else 0
  | skip + 1, _ :: t => spanAfter p skip t + 1

/-- The length in bytes of the longest start of a text whose code points all satisfy `p`. -/
def span (p : Nat → Bool) (t : Text) : Nat := spanAfter p 0 t

/-- Whether a text is valid UTF-8, where the first `skip` bytes are already accepted. -/
def isUtf8After : (skip : Nat) → Text → Bool
  | _, [] => true
  | 0, b :: t => Rune.isValidStart b t && isUtf8After (Rune.read b t).extra t
  | skip + 1, _ :: t => isUtf8After skip t

/-- Whether a text is valid UTF-8. -/
def isUtf8 (t : Text) : Bool := isUtf8After 0 t

/-- The text of a list of code points. -/
def ofCodes (codes : List Nat) : Text := codes.flatMap Rune.encode

end Text

end CallConv
