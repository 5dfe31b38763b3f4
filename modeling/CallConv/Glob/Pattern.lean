import CallConv.Text.Rune

/-!
# Glob patterns

A pattern selects paths: `*` stands for a run of code points without slashes, `?` for one of them,
`[…]` for one code point of a class, `{…,…}` for one of several patterns, a backslash takes the
special meaning from the next code point, and `**` as a whole segment stands for any directories.
This module finds the parts of a pattern and tells whether a pattern is well formed.
-/

namespace CallConv.Glob

/-- An opening bracket of a class. -/
abbrev classOpen : UInt8 := 0x5B
/-- A closing bracket of a class. -/
abbrev classClose : UInt8 := 0x5D
/-- An opening brace of alternatives. -/
abbrev braceOpen : UInt8 := 0x7B
/-- A closing brace of alternatives. -/
abbrev braceClose : UInt8 := 0x7D
/-- A question mark. -/
abbrev question : UInt8 := 0x3F

/-- Whether a byte negates a class when it comes first. -/
def isNegation (b : UInt8) : Bool := b == 0x21 || b == 0x5E

/-- The text before and after the first occurrence of a byte that no backslash precedes. -/
def cutUnescaped? (stop : UInt8) : Text → Option (Text × Text)
  | [] => none
  | b :: t =>
    if b = Byte.backslash then
      match t with
      | [] => none
      | c :: t => (cutUnescaped? stop t).map fun (s, r) => (b :: c :: s, r)
    else if b = stop then some ([], t)
    else (cutUnescaped? stop t).map fun (s, r) => (b :: s, r)

/-- Alternatives in braces, of which there is at least one, and the pattern after them. -/
structure Alternatives where
  /-- The first alternative. -/
  first : Text
  /-- The other alternatives. -/
  others : List Text
  /-- The pattern after the closing brace. -/
  rest : Text

namespace Alternatives

/-- All alternatives. -/
def all (a : Alternatives) : List Text := a.first :: a.others

/-- The alternatives whose first one begins with some more bytes. -/
def keep (bytes : Text) (a : Alternatives) : Alternatives := { a with first := bytes ++ a.first }

/-- The alternatives after an empty one. -/
def separate (a : Alternatives) : Alternatives := ⟨[], a.all, a.rest⟩

end Alternatives

/-- The alternatives in braces of which the opening one was read, `depth` braces deep inside. -/
def alternatives? : (depth : Nat) → Text → Option Alternatives
  | _, [] => none
  | depth, b :: t =>
    if b = Byte.backslash then
      match t with
      | [] => none
      | c :: t => (alternatives? depth t).map (·.keep [b, c])
    else if b = braceOpen then (alternatives? (depth + 1) t).map (·.keep [b])
    else if b = braceClose then
      match depth with
      | 0 => some ⟨[], [], t⟩
      | depth + 1 => (alternatives? depth t).map (·.keep [b])
    else if b = Byte.comma ∧ depth = 0 then (alternatives? 0 t).map (·.separate)
    else (alternatives? depth t).map (·.keep [b])

/-- The pattern after the class whose opening bracket was read. -/
def skipClass? : Text → Option Text
  | [] => none
  | b :: t =>
    let body := if isNegation b then t else b :: t
    if body.head? = some classClose then none
    else (cutUnescaped? classClose body).map Prod.snd

/-- What remains of a text after an unescaped byte is shorter than the text. -/
theorem length_lt_of_cutUnescaped? {stop : UInt8} {t s r : Text}
    (h : cutUnescaped? stop t = some (s, r)) : r.length < t.length := by
  fun_induction cutUnescaped? stop t generalizing s r with
  | case1 => simp at h
  | case2 => simp at h
  | case3 c t ih =>
    simp only [Option.map_eq_some_iff, Prod.mk.injEq, Prod.exists] at h
    obtain ⟨s', r', h, -, rfl⟩ := h
    have := ih h
    simp only [List.length_cons]
    omega
  | case4 => simp_all
  | case5 b t _ _ ih =>
    simp only [Option.map_eq_some_iff, Prod.mk.injEq, Prod.exists] at h
    obtain ⟨s', r', h, -, rfl⟩ := h
    have := ih h
    simp only [List.length_cons]
    omega

/-- The pattern after a class is shorter than the pattern that begins inside it. -/
theorem length_lt_of_skipClass? {t r : Text} (h : skipClass? t = some r) :
    r.length < t.length := by
  unfold skipClass? at h
  split at h
  · simp at h
  · next b t =>
    have hbody : (if isNegation b then t else b :: t).length ≤ (b :: t).length := by
      split <;> simp
    generalize (if isNegation b then t else b :: t) = body at h hbody
    simp only at h
    split at h
    · simp at h
    · simp only [Option.map_eq_some_iff, Prod.exists, exists_eq_right] at h
      obtain ⟨s, h⟩ := h
      exact Nat.lt_of_lt_of_le (length_lt_of_cutUnescaped? h) hbody

/-- Whether a pattern is well formed inside `depth` braces: classes and braces are closed, classes
are not empty, and no backslash comes last. -/
def isValidAt (depth : Nat) : Text → Bool
  | [] => depth == 0
  | b :: t =>
    if b = Byte.backslash then
      match t with
      | [] => false
      | _ :: t => isValidAt depth t
    else if b = classOpen then
      match _h : skipClass? t with
      | none => false
      | some rest => isValidAt depth rest
    else if b = braceOpen then isValidAt (depth + 1) t
    else if b = braceClose then
      match depth with
      | 0 => false
      | depth + 1 => isValidAt depth t
    else isValidAt depth t
termination_by t => t.length
decreasing_by
  all_goals simp only [List.length_cons]
  all_goals try omega
  exact Nat.lt_succ_of_lt (length_lt_of_skipClass? _h)

/-- Whether a pattern is well formed. -/
def isValid (pattern : Text) : Bool := isValidAt 0 pattern

end CallConv.Glob
