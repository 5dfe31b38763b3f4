import CallConv.Token.Basic

/-!
# Bracketed groups

The grammar of items is read off the significant tokens, those that are not trivia. Reading skips
whole groups: parentheses, brackets and braces, and angles where a type is expected. A group is
followed by the stack of closers that are still owed, the innermost first. Angles count only
outside the brackets that they enclose, and a bracket that closes anything but the innermost group
is an imbalance.
-/

namespace CallConv

/-- The tokens that carry meaning. -/
def significant (ts : List Token) : List Token := ts.filter fun t => !t.isTrivia

namespace Group

/-- The closers owed after a token, when `closer` is the innermost one owed and `outer` are the
others; `none` is an imbalance. -/
def step (closer : TokenKind) (outer : List TokenKind) (t : Token) : Option (List TokenKind) :=
  if t.kind = closer then some outer
  else if t.kind.isClosing then none
  else
    match t.kind.closing? with
    | some inner => some (inner :: closer :: outer)
    | none =>
      if closer = .greater ∧ t.kind = .less then some (.greater :: closer :: outer)
      else some (closer :: outer)

/-- The tokens after the point where all owed closers have been met. -/
def close : (owed : List TokenKind) → List Token → Option (List Token)
  | [], ts => some ts
  | _ :: _, [] => none
  | closer :: outer, t :: ts => (step closer outer t).bind (close · ts)

/-- The closers owed after a token outside of every group. With `angles`, an angle opens a group. -/
def enter (angles : Bool) (t : Token) : Option (List TokenKind) :=
  if angles ∧ t.kind = .less then some [.greater]
  else if t.kind.isClosing then none
  else some t.kind.closing?.toList

/-- The tokens before and from the first token outside of every group that satisfies `stop`, or all
tokens and none if there is no such token; `none` when a group is unbalanced before it. -/
def splitUntil (stop : Token → Bool) (angles : Bool) :
    (owed : List TokenKind) → List Token → Option (List Token × List Token)
  | [], [] => some ([], [])
  | _ :: _, [] => none
  | [], t :: ts =>
    if stop t then some ([], t :: ts)
    else do
      let owed ← enter angles t
      let (before, after) ← splitUntil stop angles owed ts
      some (t :: before, after)
  | closer :: outer, t :: ts => do
    let owed ← step closer outer t
    let (before, after) ← splitUntil stop angles owed ts
    some (t :: before, after)

end Group

/-- The tokens after the group that the first token opens. -/
def skipGroup? : List Token → Option (List Token)
  | [] => none
  | t :: ts => t.kind.closing?.bind fun closer => Group.close [closer] ts

/-- The tokens after the angles that the first token opens. -/
def skipAngles? : List Token → Option (List Token)
  | [] => none
  | t :: ts => if t.kind = .less then Group.close [.greater] ts else none

/-- The tokens after a leading group of angles, if there is one. -/
def skipOptionalAngles? (ts : List Token) : Option (List Token) :=
  if (ts.head?.map Token.kind) = some .less then skipAngles? ts else some ts

/-- The tokens before and from the first one outside of every group that satisfies `stop`. -/
def splitUntil? (stop : Token → Bool) (angles : Bool) (ts : List Token) :
    Option (List Token × List Token) :=
  Group.splitUntil stop angles [] ts

namespace Group

/-- What remains after the owed closers is no longer than what there was. -/
theorem length_le_of_close {owed : List TokenKind} {ts rest : List Token}
    (h : close owed ts = some rest) : rest.length ≤ ts.length := by
  induction ts generalizing owed with
  | nil =>
    cases owed with
    | nil => simp_all [close]
    | cons _ _ => simp [close] at h
  | cons t ts ih =>
    cases owed with
    | nil => simp_all [close]
    | cons closer outer =>
      simp only [close, Option.bind_eq_some_iff] at h
      obtain ⟨owed', -, h⟩ := h
      exact Nat.le_succ_of_le (ih h)

end Group

/-- The tokens after the leading outer attributes `#[…]`. -/
def skipAttributes? (ts : List Token) : Option (List Token) :=
  match ts with
  | hash :: bracket :: body =>
    if hash.kind = .hash ∧ bracket.kind = .bracketLeft then
      match _h : Group.close [.bracketRight] body with
      | some rest => skipAttributes? rest
      | none => none
    else some ts
  | _ => some ts
termination_by ts.length
decreasing_by
  have := Group.length_le_of_close _h
  simp only [List.length_cons]
  omega

/-- The tokens after a leading token of the given kind, with that token. -/
def accept? (kind : TokenKind) : List Token → Option (Token × List Token)
  | [] => none
  | t :: ts => if t.kind = kind then some (t, ts) else none

/-- The tokens after a leading keyword, with its token. -/
def acceptWord? (word : Text) : List Token → Option (Token × List Token)
  | [] => none
  | t :: ts => if t.isWord word then some (t, ts) else none

/-- The tokens after a keyword that may stand in front. -/
def skipWord (word : Text) (ts : List Token) : List Token :=
  match acceptWord? word ts with
  | some (_, rest) => rest
  | none => ts

/-- Whether the first token is of the given kind. -/
def startsWithKind (kind : TokenKind) (ts : List Token) : Bool :=
  ts.head?.map Token.kind == some kind

/-- The tokens after a visibility, which may be absent: `pub`, then a group in parentheses if one
follows. -/
def skipVisibility? (ts : List Token) : Option (List Token) :=
  match acceptWord? (utf8 "pub") ts with
  | none => some ts
  | some (_, rest) => if startsWithKind .parenLeft rest then skipGroup? rest else some rest

end CallConv
