import CallConv.Text.Graphic

/-!
# Quoted texts

Messages show a text that may hold anything in double quotes: graphic code points stand for
themselves, and everything else is an escape sequence, so that the text can be read off the
message byte by byte.
-/

namespace CallConv.Text

/-- The lower case hexadecimal digit of a value below sixteen. -/
def hexDigit (n : Nat) : UInt8 := if n < 10 then n.toUInt8 + 0x30 else n.toUInt8 + 0x57

/-- The lowest `digits` hexadecimal digits of a number. -/
def hex : (digits : Nat) → Nat → Text
  | 0, _ => []
  | digits + 1, n => hex digits (n / 16) ++ [hexDigit (n % 16)]

/-- The escape sequence of a code point that is written as a backslash and a letter. -/
def shortEscape? (code : Nat) : Option Text :=
  match code with
  | 0x07 => some (utf8 "\\a")
  | 0x08 => some (utf8 "\\b")
  | 0x0C => some (utf8 "\\f")
  | 0x0A => some (utf8 "\\n")
  | 0x0D => some (utf8 "\\r")
  | 0x09 => some (utf8 "\\t")
  | 0x0B => some (utf8 "\\v")
  | 0x22 => some (utf8 "\\\"")
  | 0x5C => some (utf8 "\\\\")
  | _ => none

/-- How a code point of valid UTF-8 is written between the quotes. -/
def quotedCode (code : Nat) : Text :=
  match shortEscape? code with
  | some escape => escape
  | none =>
    if Rune.isGraphic code then Rune.encode code
    else if code < 0x80 then utf8 "\\x" ++ hex 2 code
    else if code < 0x10000 then utf8 "\\u" ++ hex 4 code
    else utf8 "\\U" ++ hex 8 code

/-- The text between the quotes, where the first `skip` bytes are already written. -/
def quotedAfter : (skip : Nat) → Text → Text
  | _, [] => []
  | 0, b :: t =>
    (if Rune.isValidStart b t then quotedCode (Rune.read b t).code
     else utf8 "\\x" ++ hex 2 b.toNat) ++ quotedAfter (Rune.read b t).extra t
  | skip + 1, _ :: t => quotedAfter skip t

/-- A text in double quotes with everything that is not graphic written as an escape sequence. -/
def quoted (t : Text) : Text := Byte.quote :: quotedAfter 0 t ++ [Byte.quote]

end CallConv.Text
