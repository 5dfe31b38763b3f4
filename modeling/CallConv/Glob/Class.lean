import CallConv.Glob.Pattern

/-!
# Classes of code points in patterns

A class lists code points and ranges between brackets, and a leading `!` or `^` negates it. The
members are compared in their order, and the pattern goes on after the next closing bracket that no
backslash precedes, counted from the member that decided.
-/

namespace CallConv.Glob

/-- The code point at the start of a text and the text after it. Past the end stands U+FFFD. -/
def readRune : Text → Nat × Text
  | [] => (Rune.replacement, [])
  | b :: t => ((Rune.read b t).code, t.drop (Rune.read b t).extra)

/-- The text after the first code point is no longer than the text without its first byte. -/
theorem length_readRune_cons (b : UInt8) (t : Text) : (readRune (b :: t)).2.length ≤ t.length := by
  simp only [readRune, List.length_drop]
  omega

/-- Reading a code point makes a text no longer. -/
theorem length_readRune_le (t : Text) : (readRune t).2.length ≤ t.length := by
  cases t with
  | nil => simp [readRune]
  | cons b t => exact Nat.le_succ_of_le (length_readRune_cons b t)

/-- The upper end of a range, which a backslash may precede, and the pattern after it. -/
def readUpper (t : Text) : Nat × Text :=
  readRune (if t.head? = some Byte.backslash then t.drop 1 else t)

/-- Reading the upper end of a range makes a pattern no longer. -/
theorem length_readUpper_le (t : Text) : (readUpper t).2.length ≤ t.length := by
  refine Nat.le_trans (length_readRune_le _) ?_
  split <;> simp

/-- A member of a class, which a backslash may precede, and the pattern after it. -/
def readMember (b : UInt8) (t : Text) : Nat × Text :=
  if b = Byte.backslash then readRune t else readRune (b :: t)

/-- Reading a member of a class makes the pattern without its first byte no longer. -/
theorem length_readMember_le (b : UInt8) (t : Text) : (readMember b t).2.length ≤ t.length := by
  unfold readMember
  split
  · exact length_readRune_le t
  · exact length_readRune_cons b t

/-- Whether a code point is in the rest of a class, and the pattern from where that was decided.
`last?` is the code point with which a hyphen makes a range. -/
def classHas (code : Nat) : (last? : Option Nat) → Text → Bool × Text
  | _, [] => (false, [])
  | last?, b :: t =>
    if b = classClose then (false, b :: t)
    else
      match (if b = Byte.hyphen ∧ t.head?.any (· != classClose) then last? else none) with
      | some lower =>
        if lower ≤ code ∧ code ≤ (readUpper t).1 then (true, (readUpper t).2)
        else classHas code none (readUpper t).2
      | none =>
        let member := (readMember b t).1
        if member = code then (true, (readMember b t).2)
        else classHas code (if member < 0x10FFFF then some member else none) (readMember b t).2
termination_by _ t => t.length
decreasing_by
  · exact Nat.lt_succ_of_le (length_readUpper_le t)
  · exact Nat.lt_succ_of_le (length_readMember_le b t)

/-- Whether the class whose opening bracket was read is negated, and the pattern that lists it. -/
def classBody (t : Text) : Bool × Text :=
  if t.head?.any isNegation then (true, t.drop 1) else (false, t)

/-- Whether a code point is in the class whose opening bracket was read, and the pattern after the
class; `none` when the class is empty or not closed. -/
def matchClass? (code : Nat) (t : Text) : Option (Option Text) :=
  let (negated, body) := classBody t
  if body = [] ∨ body.head? = some classClose then none
  else
    let (found, rest) := classHas code none body
    if found = negated then if rest = [] then none else some none
    else
      match cutUnescaped? classClose rest with
      | none => none
      | some (_, after) => some (some after)

/-- Reading a code point of a text that is not empty makes it shorter. -/
theorem length_readRune_lt {t : Text} (h : t ≠ []) : (readRune t).2.length < t.length := by
  cases t with
  | nil => contradiction
  | cons b t => exact Nat.lt_succ_of_le (length_readRune_cons b t)

/-- Looking for a code point in a class makes the pattern no longer. -/
theorem length_classHas_le (code : Nat) (last? : Option Nat) (t : Text) :
    (classHas code last? t).2.length ≤ t.length := by
  fun_induction classHas code last? t with
  | case1 => simp
  | case2 => simp
  | case3 _ b t _ _ _ _ => exact Nat.le_succ_of_le (length_readUpper_le t)
  | case4 _ b t _ _ _ _ ih =>
    exact Nat.le_trans ih (Nat.le_succ_of_le (length_readUpper_le t))
  | case5 _ b t _ _ _ _ => exact Nat.le_succ_of_le (length_readMember_le b t)
  | case6 _ b t _ _ _ _ ih =>
    exact Nat.le_trans ih (Nat.le_succ_of_le (length_readMember_le b t))

/-- The pattern that lists a class is no longer than the pattern that begins inside it. -/
theorem length_classBody_le (t : Text) : (classBody t).2.length ≤ t.length := by
  unfold classBody
  split <;> simp

/-- The pattern after a class is no longer than the pattern that begins inside it. -/
theorem length_le_of_matchClass? {code : Nat} {t rest : Text}
    (h : matchClass? code t = some (some rest)) : rest.length ≤ t.length := by
  have hbody := length_classBody_le t
  have hclass := length_classHas_le code none (classBody t).2
  simp only [matchClass?] at h
  split at h
  · simp at h
  · split at h
    · split at h <;> simp at h
    · split at h
      · simp at h
      · next hcut =>
        simp only [Option.some.injEq] at h
        subst h
        have := length_lt_of_cutUnescaped? hcut
        omega

end CallConv.Glob
