import CallConv.Glob.Class

/-!
# Matching names against patterns

A name is matched from left to right against a pattern. Two choices can be taken back: the last
star that was passed may take one more code point, unless that is a slash, and when it cannot, the
last `**/` that was passed may take one more directory. Alternatives in braces are tried in their
order, each written in place of the braces. Matching stops without a match as soon as it comes upon
a part of the pattern that is not well formed, and when the name ends before the pattern.
-/

namespace CallConv.Glob

/-- The answer of a match: `none` when the pattern is not well formed where it was looked at. -/
abbrev Verdict := Option Bool

/-- The first verdict that is not a plain no. -/
def firstOf : List Verdict → Verdict
  | [] => some false
  | some false :: vs => firstOf vs
  | v :: _ => v

/-- Each alternative in braces, with the pattern after them, is shorter than the pattern. -/
theorem length_lt_of_alternatives? {depth : Nat} {t : Text} {a : Alternatives}
    (h : alternatives? depth t = some a) :
    ∀ alt ∈ a.all, alt.length + a.rest.length < t.length := by
  fun_induction alternatives? depth t generalizing a with
  | case1 => simp at h
  | case2 => simp at h
  | case3 depth c t ih =>
    obtain ⟨a', h', rfl⟩ := Option.map_eq_some_iff.1 h
    have := ih h'
    simp only [Alternatives.all, Alternatives.keep, List.mem_cons, List.length_cons,
      forall_eq_or_imp, List.length_append, List.length_nil] at this ⊢
    exact ⟨by omega, fun alt hm => by have := this.2 alt hm; omega⟩
  | case4 depth t _ ih =>
    obtain ⟨a', h', rfl⟩ := Option.map_eq_some_iff.1 h
    have := ih h'
    simp only [Alternatives.all, Alternatives.keep, List.mem_cons, List.length_cons,
      forall_eq_or_imp, List.length_append, List.length_nil] at this ⊢
    exact ⟨by omega, fun alt hm => by have := this.2 alt hm; omega⟩
  | case5 =>
    simp only [Option.some.injEq] at h
    subst h
    simp [Alternatives.all]
  | case6 t _ _ depth ih =>
    obtain ⟨a', h', rfl⟩ := Option.map_eq_some_iff.1 h
    have := ih h'
    simp only [Alternatives.all, Alternatives.keep, List.mem_cons, List.length_cons,
      forall_eq_or_imp, List.length_append, List.length_nil] at this ⊢
    exact ⟨by omega, fun alt hm => by have := this.2 alt hm; omega⟩
  | case7 =>
    rename_i ih
    obtain ⟨a', h', rfl⟩ := Option.map_eq_some_iff.1 h
    have := ih h'
    simp only [Alternatives.all, Alternatives.separate, List.mem_cons, List.length_cons,
      forall_eq_or_imp, List.length_nil] at this ⊢
    exact ⟨by omega, by omega, fun alt hm => by have := this.2 alt hm; omega⟩
  | case8 depth b t _ _ _ _ ih =>
    obtain ⟨a', h', rfl⟩ := Option.map_eq_some_iff.1 h
    have := ih h'
    simp only [Alternatives.all, Alternatives.keep, List.mem_cons, List.length_cons,
      forall_eq_or_imp, List.length_append, List.length_nil] at this ⊢
    exact ⟨by omega, fun alt hm => by have := this.2 alt hm; omega⟩

/-- The patterns besides alternatives that select the empty text, and so what a pattern may end
with after the whole name is matched. -/
def emptyPatterns : List Text :=
  [utf8 "", utf8 "*", utf8 "**", utf8 "/**", utf8 "**/", utf8 "/**/"]

/-- Whether a pattern selects the empty text. -/
def matchEmpty (pattern : Text) : Verdict :=
  if pattern ∈ emptyPatterns then some true
  else
    match pattern with
    | [] => some true
    | b :: t =>
      if b = braceOpen then
        match _h : alternatives? 0 t with
        | none => none
        | some a => firstOf (a.all.attach.map fun ⟨alt, _⟩ => matchEmpty (alt ++ a.rest))
      else some false
termination_by pattern.length
decreasing_by
  have := length_lt_of_alternatives? _h alt (by assumption)
  simp only [List.length_append, List.length_cons]
  omega

/-- What the start of a pattern asks for at the start of a name. -/
inductive Move where
  /-- The pattern selects whatever the rest of the name is. -/
  | everything
  /-- Directories may be skipped before the rest of the pattern. -/
  | directories (rest : Text)
  /-- Code points may be skipped before the rest of the pattern. -/
  | star (rest : Text)
  /-- One of several patterns follows. -/
  | choice (alternatives : Alternatives)
  /-- A code point of the name is selected; what remains of both follows, and whether it was a
  slash that the pattern spells out. -/
  | selected (rest name : Text) (slash : Bool)
  /-- The name differs from the pattern. -/
  | differs
  /-- The pattern is not well formed. -/
  | malformed

namespace Move

/-- The move for a pattern whose first star was read. `fresh` tells that it begins a segment. -/
def ofStar (fresh : Bool) (t : Text) : Move :=
  if t.head? = some Byte.star then
    -- Two stars are special only as a whole segment; elsewhere they are one star.
    if fresh && t.length == 1 then .everything
    else if fresh && (t.drop 1).head? == some Byte.slash then .directories (t.drop 2)
    else .star (t.drop 1)
  else .star t

/-- The move for a pattern and a name. `fresh` tells that a segment of the pattern begins. -/
def next (fresh : Bool) (pattern name : Text) : Move :=
  match pattern with
  | [] => .differs
  | b :: t =>
    let (code, nameRest) := readRune name
    if b = Byte.star then ofStar fresh t
    else if b = question then
      if code = Byte.slash.toNat then .differs else .selected t nameRest false
    else if b = classOpen then
      match matchClass? code t with
      | none => .malformed
      | some none => .differs
      | some (some rest) => .selected rest nameRest false
    else if b = braceOpen then
      match alternatives? 0 t with
      | none => .malformed
      | some a => .choice a
    else if b = Byte.backslash ∧ t = [] then .malformed
    else
      let (literal, rest) := readMember b t
      if literal = code then .selected rest nameRest (literal == Byte.slash.toNat) else .differs

end Move

/-- What a match has passed since some place: a piece of the pattern and a piece of the name. -/
structure Passed where
  /-- The piece of the pattern. -/
  pattern : Text := []
  /-- The piece of the name. -/
  name : Text := []

namespace Passed

/-- The number of bytes passed. -/
def size (p : Passed) : Nat := p.pattern.length + p.name.length

/-- One piece after another. -/
def append (p q : Passed) : Passed := ⟨p.pattern ++ q.pattern, p.name ++ q.name⟩

/-- The two pieces before what remains. -/
def before (pattern name rest nameRest : Text) : Passed :=
  ⟨pattern.take (pattern.length - rest.length), name.take (name.length - nameRest.length)⟩

/-- Nothing passed has size zero. -/
@[simp] theorem size_nil : ({} : Passed).size = 0 := rfl

/-- The size of two pieces in a row. -/
@[simp] theorem size_append (p q : Passed) : (p.append q).size = p.size + q.size := by
  simp only [size, append, List.length_append]
  omega

/-- What was passed and what remains have the size of the whole. -/
theorem size_before {pattern name rest nameRest : Text} (h : rest.length ≤ pattern.length)
    (h' : nameRest.length ≤ name.length) :
    (before pattern name rest nameRest).size + rest.length + nameRest.length
      = pattern.length + name.length := by
  simp only [size, before, List.length_take]
  omega

end Passed

/-- The state of a match. -/
structure Search where
  /-- Whether a `**/` was passed. -/
  inDirectories : Bool := false
  /-- What was passed between the last `**/`, or the beginning, and the last star. -/
  outer : Passed := {}
  /-- Whether a star was passed since. -/
  inStar : Bool := false
  /-- What was passed since the last star. -/
  inner : Passed := {}
  /-- Whether a segment of the pattern begins. -/
  fresh : Bool := true
  /-- What remains of the pattern. -/
  pattern : Text
  /-- What remains of the name. -/
  name : Text

namespace Search

/-- The number of bytes in front of the match. -/
def ahead (s : Search) : Nat := s.pattern.length + s.name.length

/-- A match that goes on after `**/`. -/
def passDirectories (s : Search) (rest : Text) : Search :=
  { inDirectories := true, pattern := rest, name := s.name }

/-- A match that goes on after a star. -/
def passStar (s : Search) (rest : Text) : Search :=
  { inDirectories := s.inDirectories
    outer := (s.outer.append s.inner).append (.before s.pattern s.name rest s.name)
    inStar := true
    fresh := false
    pattern := rest
    name := s.name }

/-- A match that goes on after a selected code point. -/
def pass (s : Search) (rest nameRest : Text) (slash : Bool) : Search :=
  { s with
    inner := s.inner.append (.before s.pattern s.name rest nameRest)
    fresh := slash
    pattern := rest
    name := nameRest }

/-- A match that goes on with another pattern in place of the one that remains. -/
def replace (s : Search) (pattern : Text) : Search :=
  -- What was passed stays as it is, so a choice that is taken back finds the new pattern again.
  { s with fresh := true, pattern }

/-- A match in which the last star takes one more code point. -/
def extendStar? (s : Search) : Option Search :=
  let name := s.inner.name ++ s.name
  let (code, rest) := readRune name
  if s.inStar && code != Byte.slash.toNat then
    some
      { inDirectories := s.inDirectories
        outer := s.outer.append (.before [] name [] rest)
        inStar := true
        fresh := false
        pattern := s.inner.pattern ++ s.pattern
        name := rest }
  else none

/-- A match in which the last `**/` takes one more directory. -/
def extendDirectories? (s : Search) : Option Search :=
  if s.inDirectories then
    (Text.cut? Byte.slash (s.outer.name ++ s.inner.name ++ s.name)).map fun (_, rest) =>
      { inDirectories := true
        pattern := s.outer.pattern ++ s.inner.pattern ++ s.pattern
        name := rest }
  else none

/-- The match after a difference, if there is a choice to take back. -/
def retry? (s : Search) : Option Search := s.extendStar? <|> s.extendDirectories?

end Search

/-! ## Every move leaves less to try -/

/-- After `**/` the pattern is shorter. -/
theorem Move.length_of_next_directories {fresh : Bool} {pattern name rest : Text}
    (h : Move.next fresh pattern name = .directories rest) : rest.length < pattern.length := by
  unfold Move.next at h
  split at h
  · simp at h
  · simp only at h
    split at h
    · unfold Move.ofStar at h
      grind
    · grind

/-- After a star the pattern is shorter. -/
theorem Move.length_of_next_star {fresh : Bool} {pattern name rest : Text}
    (h : Move.next fresh pattern name = .star rest) : rest.length < pattern.length := by
  unfold Move.next at h
  split at h
  · simp at h
  · simp only at h
    split at h
    · unfold Move.ofStar at h
      grind
    · grind

/-- Alternatives make the pattern shorter. -/
theorem Move.length_of_next_choice {fresh : Bool} {pattern name : Text} {a : Alternatives}
    (h : Move.next fresh pattern name = .choice a) :
    ∀ alt ∈ a.all, alt.length + a.rest.length < pattern.length := by
  unfold Move.next at h
  split at h
  · simp at h
  · next b t =>
    intro alt halt
    have halts : alternatives? 0 t = some a := by
      simp only at h
      split at h
      · unfold Move.ofStar at h
        grind
      · grind
    have := length_lt_of_alternatives? halts alt halt
    simp only [List.length_cons]
    omega

/-- A selected code point makes the pattern shorter and the name no longer. -/
theorem Move.length_of_next_selected {fresh slash : Bool} {pattern name rest nameRest : Text}
    (h : Move.next fresh pattern name = .selected rest nameRest slash) :
    rest.length < pattern.length ∧ nameRest.length ≤ name.length := by
  have hname := length_readRune_le name
  unfold Move.next at h
  split at h
  · simp at h
  · next b t =>
    have hmember := length_readMember_le b t
    simp only at h
    split at h
    · unfold Move.ofStar at h
      grind
    · split at h
      · grind
      · split at h
        · split at h
          · simp at h
          · simp at h
          · next hclass =>
            have := length_le_of_matchClass? hclass
            grind
        · grind

/-- What remains of a text after a byte is shorter than the text. -/
theorem length_lt_of_cut? {sep : UInt8} {t s r : Text} (h : Text.cut? sep t = some (s, r)) :
    r.length < t.length := by
  induction t generalizing s with
  | nil => simp [Text.cut?] at h
  | cons b t ih =>
    simp only [Text.cut?] at h
    split at h
    · simp_all
    · simp only [Option.map_eq_some_iff, Prod.mk.injEq, Prod.exists] at h
      obtain ⟨s', r', h, -, rfl⟩ := h
      exact Nat.lt_succ_of_lt (ih h)

namespace Search

/-- One more code point for the last star leaves less to try since that star. -/
theorem size_of_extendStar? {s s' : Search} (hname : s.name ≠ []) (h : s.extendStar? = some s') :
    s'.outer.size + s'.inner.size + s'.ahead = s.outer.size + s.inner.size + s.ahead ∧
      s'.inner.size + s'.ahead < s.inner.size + s.ahead := by
  have hne : s.inner.name ++ s.name ≠ [] := by simp [hname]
  have hlt := length_readRune_lt hne
  unfold extendStar? at h
  simp only [Option.ite_none_right_eq_some, Option.some.injEq] at h
  obtain ⟨-, rfl⟩ := h
  simp only [ahead, Passed.size, Passed.append, Passed.before, List.length_append,
    List.length_take, List.length_nil] at hlt ⊢
  omega

/-- One more directory for the last `**/` leaves less to try. -/
theorem size_of_extendDirectories? {s s' : Search} (h : s.extendDirectories? = some s') :
    s'.outer.size + s'.inner.size + s'.ahead < s.outer.size + s.inner.size + s.ahead := by
  unfold extendDirectories? at h
  simp only [Option.ite_none_right_eq_some, Option.map_eq_some_iff, Prod.exists] at h
  obtain ⟨-, taken, rest, hcut, rfl⟩ := h
  have := length_lt_of_cut? hcut
  simp only [ahead, Passed.size, List.length_append, List.length_nil] at this ⊢
  omega

/-- How much is left to try: with the last `**/` where it is, with the last star where it is, and
without going back. -/
def remaining (s : Search) : Nat × Nat × Nat :=
  (s.outer.size + s.inner.size + s.ahead, s.inner.size + s.ahead, s.ahead)

/-- A search that has passed more since the same star has less left. -/
theorem smaller_of_ahead_lt {a a' b b' c c' : Nat} (ha : a' = a) (hb : b' = b) (hc : c' < c) :
    Prod.Lex (· < ·) (Prod.Lex (· < ·) (· < ·)) (a', b', c') (a, b, c) := by
  subst ha hb
  exact .right _ (.right _ hc)

/-- A search whose last star is further on has less left. -/
theorem smaller_of_star_lt {a a' b b' c c' : Nat} (ha : a' = a) (hb : b' < b) :
    Prod.Lex (· < ·) (Prod.Lex (· < ·) (· < ·)) (a', b', c') (a, b, c) := by
  subst ha
  exact .right _ (.left _ _ hb)

/-- Taking a choice back leaves less to try. -/
theorem smaller_of_retry? {s s' : Search} (hname : s.name ≠ []) (h : s.retry? = some s') :
    Prod.Lex (· < ·) (Prod.Lex (· < ·) (· < ·)) s'.remaining s.remaining := by
  unfold retry? at h
  rcases hstar : s.extendStar? with _ | t
  -- Without a star that can take more, the whole search is over a shorter name.
  · rw [hstar] at h
    exact .left _ _ (size_of_extendDirectories? h)
  -- With one, the whole search stays as long, and the search since the star is shorter.
  · rw [hstar] at h
    obtain rfl : t = s' := Option.some.inj h
    obtain ⟨houter, hinner⟩ := size_of_extendStar? hname hstar
    exact smaller_of_star_lt houter hinner

/-- Whether the pattern of a match selects its name. -/
def run (s : Search) : Verdict :=
  if _hname : s.name = [] then matchEmpty s.pattern
  else
    match _h : Move.next s.fresh s.pattern s.name with
    | .everything => some true
    | .directories rest => (s.passDirectories rest).run
    | .star rest => (s.passStar rest).run
    | .choice a => firstOf (a.all.attach.map fun ⟨alt, _⟩ => (s.replace (alt ++ a.rest)).run)
    | .selected rest nameRest slash => (s.pass rest nameRest slash).run
    | .differs =>
      match _hretry : s.retry? with
      | none => some false
      | some s' => s'.run
    | .malformed => none
termination_by s.remaining
decreasing_by
  · have := Move.length_of_next_directories _h
    apply Prod.Lex.left
    simp only [passDirectories, ahead, Passed.size, List.length_nil]
    omega
  · have hlt := Move.length_of_next_star _h
    have := Passed.size_before (Nat.le_of_lt hlt) (Nat.le_refl s.name.length)
    apply smaller_of_star_lt
    · simp only [passStar, ahead, Passed.size_append, Passed.size_nil]
      omega
    · simp only [passStar, ahead, Passed.size_nil]
      omega
  · have := Move.length_of_next_choice _h alt (by assumption)
    apply Prod.Lex.left
    simp only [replace, ahead, List.length_append]
    omega
  · obtain ⟨hlt, hle⟩ := Move.length_of_next_selected _h
    have := Passed.size_before (Nat.le_of_lt hlt) hle
    apply smaller_of_ahead_lt
    · simp only [pass, ahead, Passed.size_append]
      omega
    · simp only [pass, ahead, Passed.size_append]
      omega
    · simp only [pass, ahead]
      omega
  · exact smaller_of_retry? _hname _hretry

end Search

/-- Whether a pattern selects a name, if it is well formed where that was looked at. -/
def verdict (pattern name : Text) : Verdict := Search.run { pattern, name }

/-- Whether a pattern selects a name. -/
def selects (pattern name : Text) : Bool := verdict pattern name == some true

end CallConv.Glob
