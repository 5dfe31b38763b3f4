import CallConv.Text.Basic

/-!
# Numbers, dates and times

The words that are numbers, dates or times. Underscores stand between digits only, a number has no
leading zeros, an integer fits into 64 bits, a float is less than the least power of two that a
double cannot hold, less half a unit in its last place, and dates exist in the calendar.
-/

namespace CallConv.Toml

/-- Whether every underscore of a number stands between two digits, given whether a digit stands
right before it. -/
def underscoresFit : (afterDigit : Bool) → Text → Bool
  | afterDigit, [] => afterDigit
  | afterDigit, b :: t =>
    (b != Byte.underscore || afterDigit) && underscoresFit (Byte.hexValue? b).isSome t

/-- A number without its underscores. -/
def withoutUnderscores (t : Text) : Text := t.filter (· != Byte.underscore)

/-- A number without its sign, and whether it has a minus. -/
def unsigned : Text → Bool × Text
  | [] => (false, [])
  | b :: t =>
    if b = Byte.hyphen then (true, t) else if b = Byte.plus then (false, t) else (false, b :: t)

/-- The value of a list of digits in a base, if there is a digit and each is less than the base. -/
def digitsValue? (base : Nat) (t : Text) : Option Nat :=
  if t = [] then none
  else
    t.foldlM (fun n b => (Byte.hexValue? b).bind fun d =>
      if d < base then some (n * base + d) else none) 0

/-- Whether a number begins with a zero that could be left out. -/
def hasLeadingZero (digits : Text) : Bool := digits.length > 1 && digits.head? == some 0x30

/-- The base of a number by the letter after its leading zero. -/
def base? (letter : UInt8) : Option Nat :=
  if letter = 0x62 then some 2
  else if letter = 0x6F then some 8
  else if letter = 0x78 then some 16
  else none

/-- The least positive number that does not fit into 64 bits with a sign. -/
def int64Bound : Nat := 0x8000000000000000

/-- Whether a word is an integer. -/
def isInteger (word : Text) : Bool :=
  underscoresFit false word &&
  match word with
  | 0x30 :: letter :: digits =>
    match base? letter with
    | none => false
    | some base =>
      digits.head?.any (· != Byte.underscore) &&
      (digitsValue? base (withoutUnderscores digits)).any (· < int64Bound)
  | _ =>
    let (negative, digits) := unsigned word
    !hasLeadingZero digits &&
    (digitsValue? 10 (withoutUnderscores digits)).any (· < int64Bound + if negative then 1 else 0)

/-- The least value that is no double. -/
def floatBound : Nat := Nat.pow 2 1024 - Nat.pow 2 970

/-- Whether a number with some digits, times a power of ten, is less than `floatBound`. Powers that
decide alone are not computed. -/
def fitsFloat (mantissa digitCount : Nat) (exponent : Int) : Bool :=
  if mantissa = 0 then true
  else if exponent > 400 then false
  else if exponent ≥ 0 then mantissa * Nat.pow 10 exponent.toNat < floatBound
  else if (-exponent).toNat > digitCount then true
  else mantissa < floatBound * Nat.pow 10 (-exponent).toNat

/-- The exponent at the end of a float, with its letter. -/
def exponent? : Text → Option Int
  | [] => some 0
  | b :: t =>
    if b = 0x65 ∨ b = 0x45 then
      let (negative, digits) := unsigned t
      (digitsValue? 10 digits).map fun n => if negative then -(n : Int) else n
    else none

/-- Whether a word is a float: digits, then a point with digits, an exponent, or both. -/
def isFloat (word : Text) : Bool :=
  let (_, digits) := unsigned word
  let whole := digits.takeWhile fun b => Byte.isDigit b || b == Byte.underscore
  let rest := digits.dropWhile fun b => Byte.isDigit b || b == Byte.underscore
  let pointed := rest.head? == some Byte.dot
  let fraction :=
    if pointed then (rest.drop 1).takeWhile fun b => Byte.isDigit b || b == Byte.underscore else []
  let rest :=
    if pointed then (rest.drop 1).dropWhile fun b => Byte.isDigit b || b == Byte.underscore
    else rest
  underscoresFit false whole && !hasLeadingZero whole &&
  (!pointed || underscoresFit false fraction) &&
  (rest.length < 2 || underscoresFit false (unsigned (rest.drop 1)).2) &&
  match exponent? (withoutUnderscores rest) with
  | none => false
  | some exponent =>
    let mantissa := withoutUnderscores (whole ++ fraction)
    (digitsValue? 10 mantissa).any fun m =>
      fitsFloat m mantissa.length (exponent - (withoutUnderscores fraction).length)

/-! ## Dates and times -/

/-- A number of a given count of digits at the start of a text, and the text after it. -/
def fixed? (count : Nat) (t : Text) : Option (Nat × Text) :=
  if (t.take count).length = count ∧ (t.take count).all Byte.isDigit then
    (digitsValue? 10 (t.take count)).map (·, t.drop count)
  else none

/-- The text after a given byte. -/
def after? (b : UInt8) : Text → Option Text
  | [] => none
  | c :: t => if c = b then some t else none

/-- Whether a year has a leap day. -/
def isLeapYear (year : Nat) : Bool := year % 4 == 0 && (year % 100 != 0 || year % 400 == 0)

/-- The number of days of a month. -/
def daysOfMonth (year month : Nat) : Nat :=
  if month = 2 then if isLeapYear year then 29 else 28
  else if month = 4 ∨ month = 6 ∨ month = 9 ∨ month = 11 then 30
  else 31

/-- The text after a date. -/
def date? (t : Text) : Option Text := do
  let (year, t) ← fixed? 4 t
  let t ← after? Byte.hyphen t
  let (month, t) ← fixed? 2 t
  let t ← after? Byte.hyphen t
  let (day, t) ← fixed? 2 t
  if 1 ≤ month ∧ month ≤ 12 ∧ 1 ≤ day ∧ day ≤ daysOfMonth year month then some t else none

/-- The text after the fraction of a second, which may be missing. -/
def afterFraction (t : Text) : Text :=
  if t.head? = some Byte.dot ∧ ((t.drop 1).head?.any Byte.isDigit) then
    (t.drop 1).dropWhile Byte.isDigit
  else t

/-- The text after the seconds of a time, which may be missing. -/
def seconds? (t : Text) : Option Text :=
  match after? Byte.colon t with
  | none => some t
  | some t => do
    let (second, t) ← fixed? 2 t
    if second < 60 then some (afterFraction t) else none

/-- The text after a time of day. -/
def time? (t : Text) : Option Text := do
  let (hour, t) ← fixed? 2 t
  let t ← after? Byte.colon t
  let (minute, t) ← fixed? 2 t
  if hour < 24 ∧ minute < 60 then seconds? t else none

/-- Whether a text is an offset from universal time. -/
def isOffset (t : Text) : Bool :=
  t == [0x5A] || t == [0x7A] ||
  ((after? Byte.hyphen t <|> after? Byte.plus t).bind fun t => do
    let (hour, t) ← fixed? 2 t
    let t ← after? Byte.colon t
    let (minute, t) ← fixed? 2 t
    if hour ≤ 24 ∧ minute ≤ 60 ∧ t = [] then some () else none).isSome

/-- Whether a word is a date, a time of day, or both with or without an offset. -/
def isDateTime (word : Text) : Bool :=
  time? word == some [] ||
  match date? word with
  | none => false
  | some [] => true
  | some (separator :: t) =>
    (separator == 0x54 || separator == 0x74 || separator == Byte.space) &&
    match time? t with
    | none => false
    | some offset => offset == [] || isOffset offset

/-! ## Words in a document -/

/-- Whether a byte can stand in a date or time once it is known to be one. -/
def isDateByte (b : UInt8) : Bool :=
  Byte.isDigit b || (utf8 "-:TtZz +.").contains b

/-- Whether a byte can stand in a float after its point or the letter of its exponent. -/
def isFloatByte (b : UInt8) : Bool := Byte.isDigit b || (utf8 "_.-+eE").contains b

/-- A word without the spaces at its end. -/
def trimmed (word : Text) : Text :=
  (word.reverse.dropWhile (· == Byte.space)).reverse

/-- The text after the number, date or time at the start of a text, whose first byte is a digit or
a sign. -/
def number? (t : Text) : Option Text :=
  let afterSign := (unsigned t).2
  if [utf8 "inf", utf8 "nan"].contains (afterSign.take 3) then some (afterSign.drop 3)
  else if t.head? = some 0x30 ∧ ((t.drop 1).head?.bind base?).isSome then
    let isPart := fun b : UInt8 => b == Byte.underscore ||
      ((t.drop 1).head?.bind base?).any fun base => (Byte.hexValue? b).any (· < base)
    if isInteger (t.take 2 ++ (t.drop 2).takeWhile isPart) then some ((t.drop 2).dropWhile isPart)
    else none
  else
    let isPart := fun b : UInt8 => Byte.isDigit b || b == Byte.underscore
    let digits := afterSign.takeWhile Byte.isDigit
    let afterDigits := afterSign.dropWhile Byte.isDigit
    if afterSign = t ∧ afterDigits.head?.any (fun b => b == Byte.hyphen || b == Byte.colon) then
      if isDateTime (trimmed (digits ++ afterDigits.takeWhile isDateByte)) then
        some (afterDigits.dropWhile isDateByte)
      else none
    else
      let sign := t.take (t.length - afterSign.length)
      let whole := afterSign.takeWhile isPart
      let rest := afterSign.dropWhile isPart
      if rest.head?.any (fun b => b == Byte.dot || b == 0x65 || b == 0x45) then
        if isFloat (sign ++ whole ++ rest.takeWhile isFloatByte) then
          some (rest.dropWhile isFloatByte)
        else none
      else if isInteger (sign ++ whole) then some rest
      else none

/-- The text after the number, truth value, date or time at the start of a text. -/
def scalar? (t : Text) : Option Text :=
  if t.head?.any (fun b => Byte.isDigit b || b == Byte.hyphen || b == Byte.plus) then number? t
  else
    let word := t.takeWhile Byte.isLetter
    if [utf8 "true", utf8 "false", utf8 "inf", utf8 "nan"].contains word then
      some (t.drop word.length)
    else none

end CallConv.Toml
