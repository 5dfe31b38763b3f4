import CallConv.Token.Group

/-!
# Attributes and the items they stand before

An `abi` attribute is looked for in all tokens of a file, trivia included, wherever it stands. Every
function here takes the tokens from some point on and answers with those from a later point on,
so that what lies between the two points is what was passed over. Groups are passed over by their
depth alone, whatever brackets they are made of.
-/

namespace CallConv

/-- The tokens from the first one that carries meaning. -/
def dropTrivia (ts : List Token) : List Token := ts.dropWhile Token.isTrivia

/-- The tokens passed over between two points of a file. -/
def before (ts rest : List Token) : List Token := ts.take (ts.length - rest.length)

/-- Whether a token is white space, line breaks included. -/
def Token.isBlank (t : Token) : Bool := t.kind == .whitespace || t.kind == .newline

/-- Whether a token opens a group. -/
def Token.isOpening (t : Token) : Bool := t.kind.closing?.isSome

/-- The tokens after the point where `depth` open groups are closed. -/
def skipDepth? : (depth : Nat) → List Token → Option (List Token)
  | 0, ts => some ts
  | _ + 1, [] => none
  | depth + 1, t :: ts =>
    if t.isOpening then skipDepth? (depth + 2) ts
    else if t.kind.isClosing then skipDepth? depth ts
    else skipDepth? (depth + 1) ts

namespace Attribute

/-- What remains where the depth is back at zero is no longer than what there was. -/
theorem length_le_of_skipDepth? {depth : Nat} {ts rest : List Token}
    (h : skipDepth? depth ts = some rest) : rest.length ≤ ts.length := by
  induction ts generalizing depth with
  | nil => cases depth <;> simp_all [skipDepth?]
  | cons t ts ih =>
    cases depth with
    | zero => simp_all [skipDepth?]
    | succ depth =>
      simp only [skipDepth?] at h
      split at h
      · exact Nat.le_succ_of_le (ih h)
      · split at h
        · exact Nat.le_succ_of_le (ih h)
        · exact Nat.le_succ_of_le (ih h)

/-- Passing over trivia makes the tokens no longer. -/
theorem length_dropTrivia_le (ts : List Token) : (dropTrivia ts).length ≤ ts.length :=
  (List.dropWhile_suffix _).length_le

/-- The segments of a path and the tokens after it. A separator may end the path. -/
def readPath (ts : List Token) : List Text × List Token :=
  match _h : dropTrivia ts with
  | [] => ([], [])
  | t :: rest =>
    if t.kind = .identifier then
      match _h' : dropTrivia rest with
      | [] => ([t.content], rest)
      | separator :: rest' =>
        if separator.kind = .pathSeparator then
          let (segments, after) := readPath rest'
          (t.content :: segments, after)
        else ([t.content], rest)
    else ([], t :: rest)
termination_by ts.length
decreasing_by
  have h₁ := length_dropTrivia_le ts
  have h₂ := length_dropTrivia_le rest
  rw [_h] at h₁
  rw [_h'] at h₂
  simp only [List.length_cons] at h₁ h₂
  omega

/-- The paths under which the attribute is known. -/
def paths : List Text := [utf8 "abi", utf8 "fn_abi::abi"]

/-- Whether the attribute is known under the path with some segments. -/
def isKnown (segments : List Text) : Bool := paths.contains (Text.join (utf8 "::") segments)

/-- The tokens after the attributes of an item and the trivia around them. -/
def skipItemAttributes? (ts : List Token) : Option (List Token) :=
  match _h : dropTrivia ts with
  | [] => some []
  | hash :: rest =>
    if hash.kind = .hash then
      match _h' : dropTrivia rest with
      | [] => none
      | bracket :: rest' =>
        if bracket.kind = .bracketLeft then
          match _h'' : skipDepth? 1 rest' with
          | some after => skipItemAttributes? after
          | none => none
        else none
    else some (hash :: rest)
termination_by ts.length
decreasing_by
  have h₁ := length_dropTrivia_le ts
  have h₂ := length_dropTrivia_le rest
  have h₃ := length_le_of_skipDepth? _h''
  rw [_h] at h₁
  rw [_h'] at h₂
  simp only [List.length_cons] at h₁ h₂
  omega

/-- Whether the first token is one of the given keywords. -/
def startsWithWord (words : List Text) (ts : List Token) : Bool :=
  ts.head?.any fun t => t.kind == .identifier && words.contains t.content

/-- The tokens after the visibility of an item and the trivia after it. -/
def skipItemVisibility? (ts : List Token) : Option (List Token) :=
  if startsWithWord [utf8 "pub"] ts then
    match dropTrivia (ts.drop 1) with
    | t :: rest =>
      if t.kind = .parenLeft then (skipDepth? 1 rest).map dropTrivia else some (t :: rest)
    | [] => some []
  else some ts

/-- Whether an item is a type alias, a static, or a constant that is no function: these end at a
semicolon even after braces. -/
def endsAtSemicolon (ts : List Token) : Bool :=
  match skipItemVisibility? ts with
  | none => false
  | some ts =>
    startsWithWord [utf8 "type", utf8 "static"] ts ||
      (startsWithWord [utf8 "const"] ts &&
        !startsWithWord [utf8 "fn", utf8 "unsafe", utf8 "async", utf8 "extern"]
          (dropTrivia (ts.drop 1)))

/-- The tokens after an item, inside `depth` groups of it. Outside of all groups the item ends at a
semicolon, or with the first group in braces unless only a semicolon can end it. -/
def skipItemBody? (needsSemicolon : Bool) : (depth : Nat) → List Token → Option (List Token)
  | _, [] => none
  | 0, t :: ts =>
    if t.kind = .semicolon then some ts
    else if t.kind = .braceLeft ∧ !needsSemicolon then skipDepth? 1 ts
    else if t.isOpening then skipItemBody? needsSemicolon 1 ts
    else if t.kind.isClosing then none
    else skipItemBody? needsSemicolon 0 ts
  | depth + 1, t :: ts =>
    if t.isOpening then skipItemBody? needsSemicolon (depth + 2) ts
    else if t.kind.isClosing then skipItemBody? needsSemicolon depth ts
    else skipItemBody? needsSemicolon (depth + 1) ts

/-- The tokens after the item that begins here, its attributes included. -/
def skipItem? (ts : List Token) : Option (List Token) :=
  (skipItemAttributes? ts).bind fun body => skipItemBody? (endsAtSemicolon body) 0 body

end Attribute

/-- Why an `abi` attribute cannot be used. -/
inductive AttributeError where
  /-- The attribute does not have its arguments in parentheses and nothing after them. -/
  | malformed (location : Cursor)
  /-- No item follows the attribute. -/
  | missingItem (location : Cursor)
deriving DecidableEq, Repr

/-- The message of a failure. -/
def AttributeError.message : AttributeError → Text
  | malformed location => location.text ++ utf8 ": malformed abi attribute"
  | missingItem location => location.text ++ utf8 ": abi attribute is not followed by an item"

/-- An `abi` attribute and the item that it stands before. -/
structure AnnotatedItem where
  /-- Where the attribute begins. -/
  location : Cursor
  /-- The tokens between the parentheses of the attribute. -/
  arguments : List Token
  /-- Where the closing parenthesis stands. -/
  finish : Cursor
  /-- The tokens of the item. -/
  item : List Token
deriving DecidableEq, Repr

/-- What the search for an attribute finds next. -/
inductive Finding where
  /-- There are no more tokens that carry meaning. -/
  | finished
  /-- The search goes on after some tokens that are no usable attribute. -/
  | passed (error? : Option AttributeError) (rest : List Token)
  /-- An attribute with its item, and the tokens after the item. -/
  | found (annotated : AnnotatedItem) (rest : List Token)
deriving DecidableEq, Repr

namespace Attribute

/-- What follows the path of an `abi` attribute that begins at `location`. -/
def finish (location : Cursor) (afterPath : List Token) : Finding :=
  match dropTrivia afterPath with
  | [] => .passed (some (.malformed location)) []
  | paren :: arguments =>
    if paren.kind = .parenLeft then
      match skipDepth? 1 arguments with
      | none => .passed (some (.malformed location)) []
      | some afterArguments =>
        match dropTrivia afterArguments with
        | [] => .passed (some (.malformed location)) afterArguments
        | bracket :: afterAttribute =>
          if bracket.kind = .bracketRight then
            let item := afterAttribute.dropWhile Token.isBlank
            match skipItem? item with
            | none => .passed (some (.missingItem location)) []
            | some rest =>
              let enclosed := before arguments afterArguments
              .found ⟨location, enclosed.dropLast,
                (enclosed.getLast?.map Token.location).getD location, before item rest⟩ rest
          else .passed (some (.malformed location)) afterArguments
    else .passed (some (.malformed location)) (paren :: arguments)

/-- What stands at the first token that carries meaning. -/
def search (ts : List Token) : Finding :=
  match dropTrivia ts with
  | [] => .finished
  | hash :: rest =>
    if hash.kind = .hash then
      match dropTrivia rest with
      | bracket :: inner =>
        if bracket.kind = .bracketLeft then
          let (path, afterPath) := readPath inner
          -- Inside another attribute the search goes on, since one may stand there too.
          if isKnown path then finish hash.location afterPath else .passed none inner
        else .passed none rest
      | [] => .passed none rest
    else .passed none rest

/-- The tokens after a path are no longer than those before it. -/
theorem length_readPath_le (ts : List Token) : (readPath ts).2.length ≤ ts.length := by
  fun_induction readPath ts with
  | case1 => simp
  | case2 ts t rest h _ _ =>
    have := length_dropTrivia_le ts
    simp only [h, List.length_cons] at this
    show rest.length ≤ ts.length
    omega
  | case3 ts t rest h _ sep rest' h' _ segments after hpath ih =>
    have h₁ := length_dropTrivia_le ts
    have h₂ := length_dropTrivia_le rest
    simp only [h, h', hpath, List.length_cons] at h₁ h₂ ih
    show after.length ≤ ts.length
    omega
  | case4 ts t rest h _ sep rest' h' _ =>
    have := length_dropTrivia_le ts
    simp only [h, List.length_cons] at this
    show rest.length ≤ ts.length
    omega
  | case5 ts t rest h _ =>
    have := length_dropTrivia_le ts
    rw [h] at this
    exact this

/-- The tokens after the attributes of an item are no longer than those before them. -/
theorem length_le_of_skipItemAttributes? {ts rest : List Token}
    (h : skipItemAttributes? ts = some rest) : rest.length ≤ ts.length := by
  fun_induction skipItemAttributes? ts with
  | case1 => simp_all
  | case2 => simp at h
  | case3 ts hash inner h₁ _ bracket inner' h₂ _ after h₃ ih =>
    have l₁ := length_dropTrivia_le ts
    have l₂ := length_dropTrivia_le inner
    have l₃ := length_le_of_skipDepth? h₃
    have := ih h
    simp only [h₁, h₂, List.length_cons] at l₁ l₂
    omega
  | case4 => simp at h
  | case5 => simp at h
  | case6 ts hash inner h₁ _ =>
    have := length_dropTrivia_le ts
    simp only [Option.some.injEq] at h
    rw [h₁, h] at this
    exact this

/-- The tokens after the body of an item are no longer than those before it. -/
theorem length_le_of_skipItemBody? {needsSemicolon : Bool} {depth : Nat} {ts rest : List Token}
    (h : skipItemBody? needsSemicolon depth ts = some rest) : rest.length ≤ ts.length := by
  induction ts generalizing depth with
  | nil => cases depth <;> simp [skipItemBody?] at h
  | cons t ts ih =>
    refine Nat.le_succ_of_le ?_
    cases depth with
    | zero =>
      simp only [skipItemBody?] at h
      split at h
      · simp_all
      · split at h
        · exact length_le_of_skipDepth? h
        · split at h
          · exact ih h
          · split at h
            · simp at h
            · exact ih h
    | succ depth =>
      simp only [skipItemBody?] at h
      split at h
      · exact ih h
      · split at h
        · exact ih h
        · exact ih h

/-- The tokens after an item are no longer than those before it. -/
theorem length_le_of_skipItem? {ts rest : List Token} (h : skipItem? ts = some rest) :
    rest.length ≤ ts.length := by
  simp only [skipItem?, Option.bind_eq_some_iff] at h
  obtain ⟨body, hbody, h⟩ := h
  exact Nat.le_trans (length_le_of_skipItemBody? h) (length_le_of_skipItemAttributes? hbody)

end Attribute

/-- The tokens that the search goes on with, if it does. -/
def Finding.rest? : Finding → Option (List Token)
  | finished => none
  | passed _ rest => some rest
  | found _ rest => some rest

namespace Attribute

/-- The search goes on with tokens after the path of the attribute. -/
theorem length_le_of_finish {location : Cursor} {ts rest : List Token}
    (h : (finish location ts).rest? = some rest) : rest.length ≤ ts.length := by
  have hts := length_dropTrivia_le ts
  unfold finish at h
  split at h
  · simp_all [Finding.rest?]
  · next paren arguments hparen =>
    simp only [hparen, List.length_cons] at hts
    split at h
    · split at h
      · simp_all [Finding.rest?]
      · next afterArguments hargs =>
        have hargs := length_le_of_skipDepth? hargs
        have hbr := length_dropTrivia_le afterArguments
        split at h
        · simp only [Finding.rest?, Option.some.injEq] at h
          subst h
          omega
        · next bracket afterAttribute hbracket =>
          simp only [hbracket, List.length_cons] at hbr
          split at h
          · simp only at h
            have hblank : (afterAttribute.dropWhile Token.isBlank).length ≤ afterAttribute.length :=
              (List.dropWhile_suffix _).length_le
            split at h
            · simp_all [Finding.rest?]
            · next rest' hitem =>
              have hitem := length_le_of_skipItem? hitem
              simp only [Finding.rest?, Option.some.injEq] at h
              subst h
              omega
          · simp only [Finding.rest?, Option.some.injEq] at h
            subst h
            omega
    · simp only [Finding.rest?, Option.some.injEq] at h
      subst h
      simp only [List.length_cons]
      omega

/-- Every finding of the search leaves fewer tokens. -/
theorem length_lt_of_search {ts rest : List Token} (h : (search ts).rest? = some rest) :
    rest.length < ts.length := by
  have hts := length_dropTrivia_le ts
  unfold search at h
  split at h
  · simp [Finding.rest?] at h
  · next hash inner hhash =>
    simp only [hhash, List.length_cons] at hts
    have hin := length_dropTrivia_le inner
    split at h
    · split at h
      · next bracket inner' hbracket =>
        simp only [hbracket, List.length_cons] at hin
        split at h
        · simp only at h
          split at h
          · have := length_le_of_finish h
            have := length_readPath_le inner'
            omega
          · simp only [Finding.rest?, Option.some.injEq] at h
            subst h
            omega
        · simp only [Finding.rest?, Option.some.injEq] at h
          subst h
          omega
      · simp only [Finding.rest?, Option.some.injEq] at h
        subst h
        omega
    · simp only [Finding.rest?, Option.some.injEq] at h
      subst h
      omega

end Attribute

end CallConv
