import CallConv.Text.Rune

/-!
# The value of a quoted literal

The text between the double quotes of a literal denotes a text by escape sequences of one letter,
of two hexadecimal or three octal digits for a byte, and of four or eight hexadecimal digits for a
code point. A literal with any other escape sequence or with a line break has no value.
-/

namespace CallConv.Text

/-- The number written by the digits of the given base, most significant first. -/
def number? (digit? : UInt8 → Option Nat) (base : Nat) (digits : Text) : Option Nat :=
  digits.foldlM (fun n b => (digit? b).map (n * base + ·)) 0

/-- The number written by exactly `size` hexadecimal digits at the start of a text. -/
def hexNumber? (size : Nat) (t : Text) : Option Nat :=
  if size ≤ t.length then number? Byte.hexValue? 16 (t.take size) else none

/-- The byte that a backslash and a letter stand for. -/
def simpleEscape? (c : UInt8) : Option UInt8 :=
  if c = 0x61 then some 0x07
  else if c = 0x62 then some 0x08
  else if c = 0x66 then some 0x0C
  else if c = 0x6E then some 0x0A
  else if c = 0x72 then some 0x0D
  else if c = 0x74 then some 0x09
  else if c = 0x76 then some 0x0B
  else if c = Byte.backslash then some Byte.backslash
  else if c = Byte.quote then some Byte.quote
  else none

/-- The text of a code point given by hexadecimal digits, if it is a scalar value. -/
def codeEscape? (size : Nat) (t : Text) : Option Text := do
  let code ← hexNumber? size t
  if code.isValidChar then some (Rune.encode code) else none

/-- What an escape sequence stands for and its length, given the text after the backslash. -/
def escape? : Text → Option (Text × Nat)
  | [] => none
  | c :: t =>
    if c = 0x78 then (hexNumber? 2 t).map fun n => ([n.toUInt8], 3)
    else if c = 0x75 then (codeEscape? 4 t).map (·, 5)
    else if c = 0x55 then (codeEscape? 8 t).map (·, 9)
    else if (Byte.octalValue? c).isSome then do
      let digits := (c :: t).take 3
      let n ← number? Byte.octalValue? 8 digits
      if digits.length = 3 ∧ n ≤ 255 then some ([n.toUInt8], 3) else none
    else (simpleEscape? c).map fun b => ([b], 1)

/-- The text that is denoted by what stands between the double quotes of a literal. A byte that is
no valid UTF-8 denotes U+FFFD. -/
def unquote? : Text → Option Text
  | [] => some []
  | b :: t =>
    if b = Byte.quote ∨ b = Byte.newline then none
    else if b = Byte.backslash then do
      let (value, size) ← escape? t
      (unquote? (t.drop size)).map (value ++ ·)
    else
      let rune := Rune.read b t
      (unquote? (t.drop rune.extra)).map (Rune.encode rune.code ++ ·)
termination_by t => t.length
decreasing_by all_goals simp only [List.length_drop, List.length_cons]; omega

end CallConv.Text
