import Mathlib
import CallConv.Proofs.Declaration.Skip

/-!
# Nested groups

What the readers of groups pass over, as languages of tokens. An element is one token or one whole
group, and what a token may be depends on the scope: angles count in types, and nowhere else. A
reader reads a language before another when it passes over the words of the one wherever a word of
the other follows (`Reads`); the readers of groups and the searches for a token are shown to read
the languages of nested elements, and readers that read one language after the other read their
product.
-/

namespace CallConv

open scoped Computability

/-- Where elements stand, which decides what an angle is. -/
inductive Scope where
  /-- Between brackets and in values, where an angle is a token like any other. -/
  | value
  /-- In types, where an angle that opens begins a group. -/
  | type
  /-- Between angles, where no angle stands alone. -/
  | angles
deriving DecidableEq

namespace Scope

/-- Whether a token of a kind stands on its own. -/
def isPlain (scope : Scope) (kind : TokenKind) : Bool :=
  kind.closing?.isNone && !kind.isClosing &&
    match scope with
    | value => true
    | type => kind != .less
    | angles => kind != .less && kind != .greater

/-- The scope inside of a group that tokens of a kind close. -/
def upTo (closer : TokenKind) : Scope := if closer = .greater then .angles else .value

end Scope

/-- One token, or one group with all that it encloses. -/
inductive Element : Scope → List Token → Prop
  | token {scope : Scope} {t : Token} (h : scope.isPlain t.kind = true) : Element scope [t]
  | group {scope : Scope} {first last : Token} {es : List (List Token)}
      (hlast : first.kind.closing? = some last.kind) (hes : ∀ e ∈ es, Element .value e) :
      Element scope (first :: (es.flatten ++ [last]))
  | angles {scope : Scope} {first last : Token} {es : List (List Token)} (hscope : scope ≠ .value)
      (hfirst : first.kind = .less) (hlast : last.kind = .greater)
      (hes : ∀ e ∈ es, Element .angles e) : Element scope (first :: (es.flatten ++ [last]))

namespace Grammar

/-- The words of one token that satisfies a condition. -/
def one (p : Token → Bool) : Language Token := {ts | ∃ t, ts = [t] ∧ p t = true}

/-- The words of one token of a kind. -/
def ofKind (kind : TokenKind) : Language Token := one fun t => t.kind == kind

/-- The words of one token that is a keyword. -/
def word (text : Text) : Language Token := one fun t => t.isWord text

/-- The elements of a scope. -/
def element (scope : Scope) : Language Token := {e | Element scope e}

/-- The rest of a group behind the token that opens it. -/
def inside (closer : TokenKind) : Language Token := (element (.upTo closer))∗ * ofKind closer

/-- Parentheses with all that they enclose. -/
def parens : Language Token := ofKind .parenLeft * inside .parenRight

/-- Brackets with all that they enclose. -/
def brackets : Language Token := ofKind .bracketLeft * inside .bracketRight

/-- Braces with all that they enclose. -/
def braces : Language Token := ofKind .braceLeft * inside .braceRight

/-- Angles with all that they enclose. -/
def angles : Language Token := ofKind .less * inside .greater

/-- The elements that do not begin with a token at which a search stops. -/
def proper (stop : Token → Bool) (scope : Scope) : Language Token :=
  {e | Element scope e ∧ ∀ t ∈ e.head?, stop t = false}

/-- At least one element, none of which begins with a token at which a search stops. -/
def run (stop : Token → Bool) (scope : Scope) : Language Token :=
  proper stop scope * (proper stop scope)∗

/-- A token that satisfies a condition and what follows it. -/
theorem mem_one_mul {p : Token → Bool} {L : Language Token} {ts : List Token} :
    ts ∈ one p * L ↔ ∃ t rest, ts = t :: rest ∧ p t = true ∧ rest ∈ L := by
  rw [Language.mem_mul]
  constructor
  · rintro ⟨a, ⟨t, rfl, ht⟩, rest, hrest, rfl⟩
    exact ⟨t, rest, rfl, ht, hrest⟩
  · rintro ⟨t, rest, rfl, ht, hrest⟩
    exact ⟨[t], ⟨t, rfl, ht⟩, rest, hrest, rfl⟩

/-- A word of one token of a kind. -/
theorem mem_ofKind_iff {kind : TokenKind} {ts : List Token} :
    ts ∈ ofKind kind ↔ ∃ t, ts = [t] ∧ t.kind = kind := by
  constructor
  · rintro ⟨t, rfl, ht⟩
    exact ⟨t, rfl, by simpa using ht⟩
  · rintro ⟨t, rfl, ht⟩
    exact ⟨t, rfl, by simpa using ht⟩

/-- A token of a kind and what follows it. -/
theorem mem_ofKind_mul {kind : TokenKind} {L : Language Token} {ts : List Token} :
    ts ∈ ofKind kind * L ↔ ∃ t rest, ts = t :: rest ∧ t.kind = kind ∧ rest ∈ L := by
  simp only [ofKind, mem_one_mul, beq_iff_eq]

/-- The rest of a group is what it encloses, and the token that closes it. -/
theorem mem_inside_iff {closer : TokenKind} {body : List Token} :
    body ∈ inside closer ↔ ∃ (es : List (List Token)) (last : Token), body = es.flatten ++ [last] ∧
      last.kind = closer ∧ ∀ e ∈ es, Element (.upTo closer) e := by
  unfold inside
  rw [Language.mem_mul]
  constructor
  · rintro ⟨a, ha, b, hb, rfl⟩
    obtain ⟨es, rfl, hes⟩ := Language.mem_kstar.mp ha
    obtain ⟨last, rfl, hlast⟩ := mem_ofKind_iff.mp hb
    exact ⟨es, last, rfl, hlast, hes⟩
  · rintro ⟨es, last, rfl, hlast, hes⟩
    exact ⟨es.flatten, Language.join_mem_kstar hes, [last], mem_ofKind_iff.mpr ⟨last, rfl, hlast⟩,
      rfl⟩

end Grammar

open Grammar

/-! ## Readers and languages -/

/-- The words of a language are empty or begin with a token that satisfies a condition. -/
def Opens (p : Token → Prop) (L : Language Token) : Prop := ∀ ts ∈ L, ∀ t ∈ ts.head?, p t

/-- The reader passes over words of a language, and over each one that a word of another language
follows. -/
structure Reads (f : List Token → Option (List Token)) (A L : Language Token) : Prop where
  /-- What is passed over is a word of the language. -/
  sound : ∀ ⦃ts rest⦄, f ts = some rest → ∃ taken ∈ A, taken ++ rest = ts
  /-- A word of the language is passed over. -/
  complete : ∀ taken ∈ A, ∀ rest ∈ L, f (taken ++ rest) = some rest

namespace Reads

variable {f g : List Token → Option (List Token)} {A B L : Language Token} {p : Token → Bool}

/-- A reader decides the words of its language with what follows them. -/
theorem mem_mul_iff (h : Reads f A L) {ts : List Token} :
    ts ∈ A * L ↔ ∃ rest ∈ L, f ts = some rest := by
  rw [Language.mem_mul]
  constructor
  · rintro ⟨taken, htaken, rest, hrest, rfl⟩
    exact ⟨rest, hrest, h.complete taken htaken rest hrest⟩
  · rintro ⟨rest, hrest, hread⟩
    obtain ⟨taken, htaken, heq⟩ := h.sound hread
    exact ⟨taken, htaken, rest, hrest, heq⟩

/-- A reader of all tokens decides its language. -/
theorem mem_iff (h : Reads f A 1) {ts : List Token} : ts ∈ A ↔ f ts = some [] := by
  rw [← mul_one A, h.mem_mul_iff]
  simp

/-- Passing over nothing reads nothing. -/
theorem nothing (L : Language Token) : Reads some 1 L where
  sound ts rest h := ⟨[], Language.nil_mem_one, (Option.some.inj h).symm⟩
  complete taken htaken rest _ := by
    rw [(Language.mem_one taken).mp htaken, List.nil_append]

/-- One reader after the other reads one language after the other. -/
theorem mul (hf : Reads f A (B * L)) (hg : Reads g B L) :
    Reads (fun ts => (f ts).bind g) (A * B) L where
  sound ts rest h := by
    obtain ⟨middle, hmiddle, hrest⟩ := Option.bind_eq_some_iff.mp h
    obtain ⟨b, hb, rfl⟩ := hg.sound hrest
    obtain ⟨a, ha, rfl⟩ := hf.sound hmiddle
    exact ⟨a ++ b, Language.append_mem_mul ha hb, List.append_assoc a b rest⟩
  complete taken htaken rest hrest := by
    obtain ⟨a, ha, b, hb, rfl⟩ := Language.mem_mul.mp htaken
    rw [List.append_assoc, hf.complete a ha _ (Language.append_mem_mul hb hrest)]
    exact hg.complete b hb rest hrest

end Reads

/-- A reader of what follows a token that has to be there. -/
def behind (p : Token → Bool) (f : List Token → Option (List Token)) :
    List Token → Option (List Token)
  | [] => none
  | t :: ts => if p t then f ts else none

/-- A reader of a token and what follows it, or of nothing where the token is not. -/
def optionally (p : Token → Bool) (f : List Token → Option (List Token)) :
    List Token → Option (List Token)
  | [] => some []
  | t :: ts => if p t then f ts else some (t :: ts)

section Tokens

variable {f : List Token → Option (List Token)} {A L : Language Token} {p : Token → Bool}

/-- A token that has to be there is read before what follows it. -/
theorem Reads.behind (h : Reads f A L) : Reads (behind p f) (one p * A) L where
  sound ts rest hread := by
    cases ts with
    | nil => simp [CallConv.behind] at hread
    | cons t ts =>
      simp only [CallConv.behind] at hread
      split at hread
      · next ht =>
        obtain ⟨taken, htaken, rfl⟩ := h.sound hread
        exact ⟨t :: taken, mem_one_mul.mpr ⟨t, taken, rfl, ht, htaken⟩, rfl⟩
      · simp at hread
  complete taken htaken rest hrest := by
    obtain ⟨t, us, rfl, ht, hus⟩ := mem_one_mul.mp htaken
    rw [List.cons_append, CallConv.behind, if_pos ht]
    exact h.complete us hus rest hrest

/-- A token that may be absent is read with what follows it, if nothing else begins with it. -/
theorem Reads.optionally (h : Reads f A L) (hL : Opens (fun t => p t = false) L) :
    Reads (optionally p f) (1 + one p * A) L where
  sound ts rest hread := by
    cases ts with
    | nil =>
      obtain rfl : [] = rest := Option.some.inj hread
      exact ⟨[], .inl rfl, rfl⟩
    | cons t ts =>
      simp only [CallConv.optionally] at hread
      split at hread
      · next ht =>
        obtain ⟨taken, htaken, rfl⟩ := h.sound hread
        exact ⟨t :: taken, .inr (mem_one_mul.mpr ⟨t, taken, rfl, ht, htaken⟩), rfl⟩
      · obtain rfl := Option.some.inj hread
        exact ⟨[], .inl rfl, rfl⟩
  complete taken htaken rest hrest := by
    rcases htaken with rfl | htaken
    · cases rest with
      | nil => rfl
      | cons t us =>
        have ht : p t = false := hL _ hrest t rfl
        rw [List.nil_append, CallConv.optionally, if_neg (by simp [ht])]
    · obtain ⟨t, us, rfl, ht, hus⟩ := mem_one_mul.mp htaken
      rw [List.cons_append, CallConv.optionally, if_pos ht]
      exact h.complete us hus rest hrest

end Tokens

/-! ## Groups -/

namespace Group

variable {closer : TokenKind} {outer owed : List TokenKind} {t : Token} {ts rest : List Token}

/-- What closes a bracket is no angle, so that angles do not count up to it. -/
theorem upTo_of_closing? {kind : TokenKind} (h : kind.closing? = some closer) :
    Scope.upTo closer = .value := by
  have hclosing := isClosing_of_closing? h
  unfold Scope.upTo
  rw [if_neg]
  rintro rfl
  simp [TokenKind.isClosing] at hclosing

/-- A step meets the innermost closer, opens a group, or passes over a token of the scope. -/
theorem step_cases (h : step closer outer t = some owed) :
    t.kind = closer ∧ owed = outer ∨
      (∃ inner, t.kind.closing? = some inner ∧ owed = inner :: closer :: outer) ∨
      closer = .greater ∧ t.kind = .less ∧ owed = .greater :: closer :: outer ∨
      (Scope.upTo closer).isPlain t.kind = true ∧ owed = closer :: outer := by
  unfold step at h
  split at h
  · next hkind => exact .inl ⟨hkind, (Option.some.inj h).symm⟩
  · next hkind =>
    split at h
    · simp at h
    · next hclosing =>
      split at h
      · next inner hinner => exact .inr (.inl ⟨inner, hinner, (Option.some.inj h).symm⟩)
      · next hopening =>
        split at h
        · next hangle =>
          exact .inr (.inr (.inl ⟨hangle.1, hangle.2, (Option.some.inj h).symm⟩))
        · next hangle =>
          refine .inr (.inr (.inr ⟨?_, (Option.some.inj h).symm⟩))
          unfold Scope.upTo
          split
          · next hgreater => simp_all [Scope.isPlain]
          · simp_all [Scope.isPlain]

/-- The innermost closer is met. -/
theorem step_closer (h : t.kind = closer) : step closer outer t = some outer := by
  rw [step, if_pos h]

/-- A token that opens a bracket is owed its closer. -/
theorem step_opening {inner : TokenKind} (hcloser : closer.isClosing = true ∨ closer = .greater)
    (h : t.kind.closing? = some inner) :
    step closer outer t = some (inner :: closer :: outer) := by
  have hne : t.kind ≠ closer := by
    rintro rfl
    revert h hcloser
    cases t.kind <;> simp [TokenKind.closing?, TokenKind.isClosing]
  have hopening : t.kind.isClosing = false := by
    revert h
    cases t.kind <;> simp [TokenKind.closing?, TokenKind.isClosing]
  simp [step, hne, hopening, h]

/-- Between angles an angle that opens is owed one that closes. -/
theorem step_less (h : t.kind = .less) :
    step .greater outer t = some (.greater :: .greater :: outer) := by
  simp [step, h, TokenKind.isClosing, TokenKind.closing?]

/-- A token of the scope is passed over. -/
theorem step_plain (hcloser : closer.isClosing = true ∨ closer = .greater)
    (h : (Scope.upTo closer).isPlain t.kind = true) :
    step closer outer t = some (closer :: outer) := by
  unfold Scope.upTo at h
  split at h
  · next hgreater =>
    simp only [Scope.isPlain, Bool.and_eq_true, Option.isNone_iff_eq_none, Bool.not_eq_true',
      bne_iff_ne] at h
    obtain ⟨⟨hopening, hclosing⟩, hless, hne⟩ := h
    simp [step, hgreater, hopening, hclosing, hless, hne]
  · next hgreater =>
    simp only [Scope.isPlain, Bool.and_true, Bool.and_eq_true, Option.isNone_iff_eq_none,
      Bool.not_eq_true'] at h
    obtain ⟨hopening, hclosing⟩ := h
    have hne : t.kind ≠ closer := by
      rintro rfl
      simp [hclosing, hgreater] at hcloser
    simp [step, hgreater, hopening, hclosing, hne]

/-- What is passed over piece by piece is passed over. -/
theorem close_flatten {es : List (List Token)}
    (hes : ∀ e ∈ es, ∀ ts, close (closer :: outer) (e ++ ts) = close (closer :: outer) ts)
    (ts : List Token) :
    close (closer :: outer) (es.flatten ++ ts) = close (closer :: outer) ts := by
  induction es with
  | nil => rfl
  | cons e es ih =>
    rw [List.flatten_cons, List.append_assoc, hes e List.mem_cons_self]
    exact ih fun e he => hes e (List.mem_cons_of_mem _ he)

/-- An element of the scope is passed over. -/
theorem close_element {e : List Token} (hcloser : closer.isClosing = true ∨ closer = .greater)
    (h : Element (.upTo closer) e) (ts : List Token) :
    close (closer :: outer) (e ++ ts) = close (closer :: outer) ts := by
  generalize hscope : Scope.upTo closer = scope at h
  -- What a group encloses stands before one more closer that is owed.
  induction h generalizing closer outer ts with
  | token ht =>
    subst hscope
    simp [close, step_plain hcloser ht]
  | @group scope first last es hlast hes ih =>
    have hinner := isClosing_of_closing? hlast
    rw [List.cons_append, close, step_opening hcloser hlast, Option.bind_some, List.append_assoc,
      close_flatten fun e he ts => ih e he (.inl hinner) ts (upTo_of_closing? hlast)]
    simp [close, step_closer]
  | @angles scope first last es hvalue hfirst hlast hes ih =>
    -- Angles are elements only where the innermost closer is an angle.
    obtain rfl : closer = .greater := by
      by_contra hne
      rw [Scope.upTo, if_neg hne] at hscope
      exact hvalue hscope.symm
    rw [List.cons_append, close, step_less hfirst, Option.bind_some, List.append_assoc,
      close_flatten fun e he ts => ih e he (.inr rfl) ts rfl]
    simp [close, step_closer hlast]

/-- Elements of the scope stand up to the innermost closer, and the others are met behind it. -/
def Fills (closer : TokenKind) (outer : List TokenKind) (ts rest : List Token) : Prop :=
  ∃ (es : List (List Token)) (t : Token) (us : List Token), ts = es.flatten ++ t :: us ∧
    (∀ e ∈ es, Element (.upTo closer) e) ∧ t.kind = closer ∧ close outer us = some rest

/-- One more element of the scope may stand in front. -/
theorem Fills.cons {e : List Token} (h : Fills closer outer ts rest)
    (he : Element (.upTo closer) e) : Fills closer outer (e ++ ts) rest := by
  obtain ⟨es, t, us, rfl, hes, ht, hrest⟩ := h
  exact ⟨e :: es, t, us, by simp, List.forall_mem_cons.mpr ⟨he, hes⟩, ht, hrest⟩

/-- Up to the innermost closer stand elements of the scope. -/
theorem fills_of_close (h : close (closer :: outer) ts = some rest) :
    Fills closer outer ts rest := by
  -- A group inside is closed first, and what follows it is shorter.
  induction hlen : ts.length using Nat.strong_induction_on generalizing closer outer ts with
  | _ n ih =>
    cases ts with
    | nil => simp [close] at h
    | cons t ts =>
      rw [close, Option.bind_eq_some_iff] at h
      obtain ⟨owed, hstep, hclose⟩ := h
      rw [List.length_cons] at hlen
      rcases step_cases hstep with ⟨ht, rfl⟩ | ⟨inner, hinner, rfl⟩ | ⟨rfl, hless, rfl⟩ |
        ⟨hplain, rfl⟩
      · exact ⟨[], t, ts, rfl, by simp, ht, hclose⟩
      · obtain ⟨es, last, us, rfl, hes, rfl, hrest⟩ := ih ts.length (by omega) hclose rfl
        rw [upTo_of_closing? hinner] at hes
        rw [List.length_append, List.length_cons] at hlen
        have hgroup := (ih us.length (by omega) hrest rfl).cons (.group hinner hes)
        simpa using hgroup
      · obtain ⟨es, last, us, rfl, hes, hlast, hrest⟩ := ih ts.length (by omega) hclose rfl
        rw [List.length_append, List.length_cons] at hlen
        have hangles := (ih us.length (by omega) hrest rfl).cons
          (.angles (by decide) hless hlast hes)
        simpa using hangles
      · exact (ih ts.length (by omega) hclose rfl).cons (.token hplain)

/-- The rest of a group is passed over, whatever follows. -/
theorem close_inside {body : List Token} (hcloser : closer.isClosing = true ∨ closer = .greater)
    (h : body ∈ inside closer) (rest : List Token) : close [closer] (body ++ rest) = some rest := by
  obtain ⟨es, last, rfl, hlast, hes⟩ := mem_inside_iff.mp h
  rw [List.append_assoc, close_flatten fun e he => close_element hcloser (hes e he)]
  simp [close, step_closer hlast]

/-- What is passed over up to a closer is the rest of a group. -/
theorem inside_of_close (h : close [closer] ts = some rest) :
    ∃ body ∈ inside closer, body ++ rest = ts := by
  obtain ⟨es, last, us, rfl, hes, hlast, hrest⟩ := fills_of_close h
  rw [close_nil] at hrest
  obtain rfl := Option.some.inj hrest
  exact ⟨es.flatten ++ [last], mem_inside_iff.mpr ⟨es, last, rfl, hlast, hes⟩, by simp⟩

/-- Closing a group reads the rest of it. -/
theorem reads_close (hcloser : closer.isClosing = true ∨ closer = .greater) (L : Language Token) :
    Reads (close [closer]) (inside closer) L where
  sound _ _ := inside_of_close
  complete _ htaken rest _ := close_inside hcloser htaken rest

/-! ## Searches -/

variable {stop : Token → Bool} {angles : Bool} {before after : List Token}

/-- A search passes over the groups that are open, and goes on behind them. -/
theorem splitUntil_eq (stop : Token → Bool) (angles : Bool) (owed : List TokenKind)
    (ts : List Token) :
    splitUntil stop angles owed ts = (close owed ts).bind fun rest =>
      (splitUntil stop angles [] rest).map fun found =>
        (ts.take (ts.length - rest.length) ++ found.1, found.2) := by
  induction ts generalizing owed with
  | nil => cases owed <;> rfl
  | cons t ts ih =>
    cases owed with
    | nil => simp [close]
    | cons closer outer =>
      rw [splitUntil, close, Option.bind_assoc, Option.bind_eq_bind]
      congr
      funext owed
      rw [ih]
      cases hclose : close owed ts with
      | none => rfl
      | some rest =>
        have hle := length_le_of_close hclose
        have htake : (t :: ts).take ((t :: ts).length - rest.length) =
            t :: ts.take (ts.length - rest.length) := by
          rw [List.length_cons, Nat.succ_sub hle, List.take_succ_cons]
        rw [Option.bind_some, Option.bind_some, htake]
        cases splitUntil stop angles [] rest with
        | none => rfl
        | some found => rfl

/-- A search passes over a group whose tokens it has come to the end of. -/
theorem splitUntil_append {taken rest : List Token} (h : close owed (taken ++ rest) = some rest) :
    splitUntil stop angles owed (taken ++ rest) =
      (splitUntil stop angles [] rest).map fun found => (taken ++ found.1, found.2) := by
  rw [splitUntil_eq, h, Option.bind_some]
  simp

end Group

/-- The scope of a search, in which angles count or do not. -/
def Scope.search (angles : Bool) : Scope := if angles then .type else .value

namespace Group

variable {stop : Token → Bool} {angles : Bool} {owed : List TokenKind} {t : Token}
  {ts before after : List Token}

/-- A search meets an element as a token with all that has to be closed behind it. -/
theorem element_search_iff {e : List Token} :
    Element (.search angles) e ↔ ∃ t body owed, e = t :: body ∧ enter angles t = some owed ∧
      ∀ rest, close owed (body ++ rest) = some rest := by
  constructor
  · intro h
    cases h with
    | @token _ t ht =>
      refine ⟨t, [], [], rfl, ?_, fun rest => close_nil rest⟩
      obtain ⟨⟨hopening, hclosing⟩, hless⟩ := by
        simpa only [Scope.isPlain, Bool.and_eq_true, Option.isNone_iff_eq_none,
          Bool.not_eq_true'] using ht
      cases angles <;> simp_all [enter, Scope.search]
    | @group _ first last es hlast hes =>
      refine ⟨first, es.flatten ++ [last], [last.kind], rfl, ?_, fun rest => ?_⟩
      · revert hlast
        simp only [enter]
        cases first.kind <;> simp [TokenKind.closing?, TokenKind.isClosing]
      · rw [← upTo_of_closing? hlast] at hes
        exact close_inside (.inl (isClosing_of_closing? hlast))
          (mem_inside_iff.mpr ⟨es, last, rfl, rfl, hes⟩) rest
    | @angles _ first last es hvalue hfirst hlast hes =>
      refine ⟨first, es.flatten ++ [last], [.greater], rfl, ?_, fun rest => ?_⟩
      · cases angles with
        | false => exact absurd rfl hvalue
        | true => simp [enter, hfirst]
      · exact close_inside (.inr rfl) (mem_inside_iff.mpr ⟨es, last, rfl, hlast, hes⟩) rest
  · rintro ⟨t, body, owed, rfl, henter, hclose⟩
    unfold enter at henter
    split at henter
    · next hangle =>
      obtain rfl := Option.some.inj henter
      obtain ⟨body', hbody, heq⟩ := inside_of_close (hclose [])
      obtain rfl := List.append_cancel_right heq
      obtain ⟨es, last, rfl, hlast, hes⟩ := mem_inside_iff.mp hbody
      exact .angles (by simp [Scope.search, hangle.1]) hangle.2 hlast hes
    · next hangle =>
      split at henter
      · simp at henter
      · next hclosing =>
        obtain rfl := Option.some.inj henter
        cases hopening : t.kind.closing? with
        | none =>
          have hnil : body = [] := by
            simpa [hopening, close_nil] using hclose []
          subst hnil
          refine .token ?_
          cases angles with
          | false => simp [Scope.search, Scope.isPlain, hopening, hclosing]
          | true => simpa [Scope.search, Scope.isPlain, hopening, hclosing] using hangle
        | some closer =>
          rw [hopening] at hclose
          obtain ⟨body', hbody, heq⟩ := inside_of_close (hclose [])
          obtain rfl := List.append_cancel_right heq
          obtain ⟨es, last, rfl, rfl, hes⟩ := mem_inside_iff.mp hbody
          rw [upTo_of_closing? hopening] at hes
          exact .group hopening hes

/-- Some tokens end here or go on with one that stops a search, if their first token does. -/
theorem stops_iff : Stops stop ts ↔ ∀ t ∈ ts.head?, stop t = true := by
  cases ts with
  | nil => simp [Stops]
  | cons t ts => simp [Stops]

/-- A search passes over an element at which it does not stop. -/
theorem splitUntil_element {e : List Token} (h : e ∈ proper stop (.search angles))
    (ts : List Token) : splitUntil stop angles [] (e ++ ts) =
      (splitUntil stop angles [] ts).map fun found => (e ++ found.1, found.2) := by
  obtain ⟨helement, hstop⟩ := h
  obtain ⟨t, body, owed, rfl, henter, hclose⟩ := element_search_iff.mp helement
  have ht : stop t = false := hstop t rfl
  rw [List.cons_append, splitUntil, if_neg (by simp [ht]), henter]
  simp only [Option.bind_eq_bind, Option.bind_some, splitUntil_append (hclose ts)]
  cases splitUntil stop angles [] ts with
  | none => rfl
  | some found => rfl

/-- A search that does not stop at once passes over an element first. -/
theorem exists_element_of_splitUntil
    (h : splitUntil stop angles [] (t :: ts) = some (before, after)) (ht : stop t = false) :
    ∃ e rest before', e ∈ proper stop (.search angles) ∧ e ++ rest = t :: ts ∧
      e ++ before' = before ∧ rest.length ≤ ts.length ∧
      splitUntil stop angles [] rest = some (before', after) := by
  rw [splitUntil, if_neg (by simp [ht])] at h
  simp only [Option.bind_eq_bind, Option.bind_eq_some_iff, Option.some.injEq, Prod.mk.injEq,
    Prod.exists] at h
  obtain ⟨owed, henter, before', after', hsplit, rfl, rfl⟩ := h
  rw [splitUntil_eq] at hsplit
  simp only [Option.bind_eq_some_iff, Option.map_eq_some_iff, Prod.mk.injEq, Prod.exists] at hsplit
  obtain ⟨rest, hclose, before, after, hrest, rfl, rfl⟩ := hsplit
  obtain ⟨body, rfl, -, hsame⟩ := close_spec hclose
  refine ⟨t :: body, rest, before, ⟨element_search_iff.mpr ⟨t, body, owed, rfl, henter, ?_⟩, ?_⟩,
    rfl, by simp, by simp, hrest⟩
  · exact fun rest => hsame body rest (.refl body)
  · simpa using ht

/-- A search passes over elements, up to a token at which it stops. -/
theorem splitUntil_eq_some_iff : splitUntil stop angles [] ts = some (before, after) ↔
    before ++ after = ts ∧ before ∈ (proper stop (.search angles))∗ ∧ Stops stop after := by
  constructor
  · intro h
    -- Behind an element the search goes on with fewer tokens.
    induction hlen : ts.length using Nat.strong_induction_on generalizing ts before with
    | _ n ih =>
      cases ts with
      | nil =>
        obtain ⟨rfl, rfl⟩ : [] = before ∧ [] = after := by simpa [splitUntil] using h
        exact ⟨rfl, Language.nil_mem_kstar _, .inl rfl⟩
      | cons t ts =>
        cases ht : stop t with
        | true =>
          obtain ⟨rfl, rfl⟩ : [] = before ∧ t :: ts = after := by simpa [splitUntil, ht] using h
          exact ⟨rfl, Language.nil_mem_kstar _, .inr ⟨t, ts, rfl, ht⟩⟩
        | false =>
          obtain ⟨e, rest, before', he, heq, rfl, hle, hrest⟩ := exists_element_of_splitUntil h ht
          rw [List.length_cons] at hlen
          obtain ⟨rfl, hbefore, hstops⟩ := ih rest.length (by omega) hrest rfl
          refine ⟨by rw [List.append_assoc, heq], ?_, hstops⟩
          obtain ⟨es, rfl, hes⟩ := Language.mem_kstar.mp hbefore
          exact Language.join_mem_kstar (List.forall_mem_cons.mpr ⟨he, hes⟩)
  · rintro ⟨rfl, hbefore, hstops⟩
    obtain ⟨es, rfl, hes⟩ := Language.mem_kstar.mp hbefore
    induction es with
    | nil =>
      rcases hstops with rfl | ⟨t, rest, rfl, ht⟩
      · rfl
      · simp [splitUntil, ht]
    | cons e es ih =>
      obtain ⟨he, hes⟩ := List.forall_mem_cons.mp hes
      rw [List.flatten_cons, List.append_assoc, splitUntil_element he,
        ih hes (Language.join_mem_kstar hes)]
      rfl

end Group

section Searches

variable {stop : Token → Bool} {angles : Bool} {L : Language Token}

/-- A run of elements is elements in a row that are not nothing. -/
theorem mem_run_iff {scope : Scope} {ts : List Token} :
    ts ∈ run stop scope ↔ ts ∈ (proper stop scope)∗ ∧ ts ≠ [] := by
  have hne : ∀ e ∈ proper stop scope, e ≠ [] := by
    rintro e ⟨he, -⟩ rfl
    cases he
  constructor
  · intro h
    refine ⟨?_, ?_⟩
    · rw [← Language.one_add_self_mul_kstar_eq_kstar]
      exact .inr h
    · obtain ⟨e, he, us, -, rfl⟩ := Language.mem_mul.mp h
      exact List.append_ne_nil_of_left_ne_nil (hne e he) us
  · rintro ⟨h, hts⟩
    rw [← Language.one_add_self_mul_kstar_eq_kstar] at h
    exact h.resolve_left hts

/-- What a search finds up to a token at which it stops, if that is not nothing. -/
theorem mem_run_inf_mul_iff (angles : Bool) (hL : Opens (fun t => stop t = true) L)
    {T : Language Token} {ts : List Token} : ts ∈ (run stop (.search angles) ⊓ T) * L ↔
      ∃ inner after, splitUntil? stop angles ts = some (inner, after) ∧ inner ≠ [] ∧ inner ∈ T ∧
        after ∈ L := by
  rw [Language.mem_mul]
  constructor
  · rintro ⟨inner, ⟨hrun, hinner⟩, after, hafter, heq⟩
    obtain ⟨hstar, hne⟩ := mem_run_iff.mp hrun
    exact ⟨inner, after,
      Group.splitUntil_eq_some_iff.mpr ⟨heq, hstar, Group.stops_iff.mpr (hL after hafter)⟩, hne,
      hinner, hafter⟩
  · rintro ⟨inner, after, hsplit, hne, hinner, hafter⟩
    obtain ⟨heq, hstar, -⟩ := Group.splitUntil_eq_some_iff.mp hsplit
    exact ⟨inner, ⟨mem_run_iff.mpr ⟨hstar, hne⟩, hinner⟩, after, hafter, heq⟩

/-- What a search passes over, which must not be nothing. -/
def skipRun? (stop : Token → Bool) (angles : Bool) (ts : List Token) : Option (List Token) := do
  let (taken, rest) ← splitUntil? stop angles ts
  guard (!taken.isEmpty)
  some rest

/-- A search that has to find something reads a run of elements. -/
theorem reads_skipRun? (hL : Opens (fun t => stop t = true) L) :
    Reads (skipRun? stop angles) (run stop (.search angles)) L where
  sound ts rest h := by
    simp only [skipRun?, Option.bind_eq_bind, Option.bind_eq_some_iff, Option.guard_eq_some',
      Prod.exists] at h
    obtain ⟨before, after, hsplit, ⟨⟩, hne, hrest⟩ := h
    obtain rfl := Option.some.inj hrest
    obtain ⟨heq, hbefore, -⟩ := Group.splitUntil_eq_some_iff.mp hsplit
    exact ⟨before, mem_run_iff.mpr ⟨hbefore, by simpa using hne⟩, heq⟩
  complete taken htaken rest hrest := by
    obtain ⟨hstar, hne⟩ := mem_run_iff.mp htaken
    have hsplit : splitUntil? stop angles (taken ++ rest) = some (taken, rest) :=
      Group.splitUntil_eq_some_iff.mpr ⟨rfl, hstar, Group.stops_iff.mpr (hL rest hrest)⟩
    simp [skipRun?, hsplit, hne]

/-- What follows a token of a kind up to a stop is read as a run of elements. -/
theorem reads_skipBehind? {kind : TokenKind} (hstop : Opens (fun t => stop t = true) L)
    (hkind : Opens (fun t => t.kind ≠ kind) L) :
    Reads (skipBehind? kind stop angles) (1 + ofKind kind * run stop (.search angles)) L := by
  have heq : skipBehind? kind stop angles =
      optionally (fun t => t.kind == kind) (skipRun? stop angles) := by
    funext ts
    cases ts with
    | nil => rfl
    | cons t ts =>
      by_cases ht : t.kind = kind <;> simp [skipBehind?, accept?, optionally, ht, skipRun?]
  rw [heq]
  refine (reads_skipRun? hstop).optionally fun ts hts t ht => ?_
  simpa using hkind ts hts t ht

end Searches

end CallConv
