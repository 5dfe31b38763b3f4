import Mathlib
import CallConv.Proofs.SourceFile.Enclosed

/-!
# Groups by type and by depth

Groups are skipped in two ways. The reader of declarations looks at the tokens that carry meaning
and keeps the closers that are owed, so that every bracket is closed by one of its own type. The
search for attributes looks at all tokens and counts the brackets that are open, whatever their
types. Up to the closer of a properly nested group the two agree: `groupAt_iff_close` says that the
first one ends where such a group ends, and `GroupAt.counts` that the second one does. A group
whose brackets are nested by depth alone is seen by the second one only.
-/

namespace CallConv

open scoped Computability
open Grammar Attribute

namespace Group

variable {closer : TokenKind} {outer owed : List TokenKind} {t : Token}

/-- Trivia closes no group and opens none. -/
theorem step_trivia (hcloser : closer.isClosing = true ∨ closer = .greater)
    (ht : t.isTrivia = true) : step closer outer t = some (closer :: outer) := by
  have hplain (kind : TokenKind) (scope : Scope) :
      kind.isTrivia = true → scope.isPlain kind = true := by
    cases kind <;> cases scope <;> decide
  exact step_plain hcloser (hplain t.kind _ ht)

/-- Owed closers are met by the tokens that carry meaning. -/
theorem close_significant (howed : Owes owed) (ts : List Token) :
    close owed (significant ts) = (close owed ts).map significant := by
  induction ts generalizing owed with
  | nil => cases owed <;> rfl
  | cons t ts ih =>
    cases owed with
    | nil => rw [close_nil, close_nil, Option.map_some]
    | cons closer outer =>
      cases ht : t.isTrivia with
      | true =>
        rw [significant_cons_of_isTrivia ht, ih howed, close,
          step_trivia (howed closer List.mem_cons_self) ht, Option.bind_some]
      | false =>
        rw [significant_cons ht, close, close]
        cases hstep : step closer outer t with
        | none => rfl
        | some owed' => exact ih (howed.step hstep)

end Group

/-- Brackets of one type with all that they enclose. -/
def Grammar.group : Language Token := parens + brackets + braces

/-- A group is an opening bracket and what stands up to its closer. -/
theorem mem_group_iff {ts : List Token} : ts ∈ group ↔
    ∃ t body closer, ts = t :: body ∧ t.kind.closing? = some closer ∧ body ∈ inside closer := by
  have hmem : ts ∈ group ↔ (ts ∈ parens ∨ ts ∈ brackets) ∨ ts ∈ braces := Iff.rfl
  simp only [hmem, parens, brackets, braces, mem_ofKind_mul]
  constructor
  · rintro ((⟨t, body, rfl, ht, hbody⟩ | ⟨t, body, rfl, ht, hbody⟩) | ⟨t, body, rfl, ht, hbody⟩)
    · exact ⟨t, body, _, rfl, by rw [ht]; rfl, hbody⟩
    · exact ⟨t, body, _, rfl, by rw [ht]; rfl, hbody⟩
    · exact ⟨t, body, _, rfl, by rw [ht]; rfl, hbody⟩
  · rintro ⟨t, body, closer, rfl, hcloser, hbody⟩
    cases ht : t.kind <;>
      simp only [ht, TokenKind.closing?, reduceCtorEq, Option.some.injEq] at hcloser
    · exact .inr ⟨t, body, rfl, ht, hcloser ▸ hbody⟩
    · exact .inl (.inr ⟨t, body, rfl, ht, hcloser ▸ hbody⟩)
    · exact .inl (.inl ⟨t, body, rfl, ht, hcloser ▸ hbody⟩)

/-- Properly nested tokens that begin with an opening bracket begin with its group. -/
theorem exists_inside_of_nested {t : Token} {ts : List Token} {closer : TokenKind}
    (h : t :: ts ∈ (element .value)∗) (hcloser : t.kind.closing? = some closer) :
    ∃ body ∈ inside closer, ∃ rest, ts = body ++ rest := by
  obtain ⟨es, hflatten, hes⟩ := Language.mem_kstar.mp h
  rcases es with _ | ⟨e, es⟩
  · simp at hflatten
  have he : Element .value e := hes e List.mem_cons_self
  rw [List.flatten_cons] at hflatten
  cases he with
  | token hplain =>
    obtain ⟨rfl, -⟩ := List.cons.inj hflatten
    simp [Scope.isPlain, hcloser] at hplain
  | @group _ first last inner hlast hinner =>
    obtain ⟨rfl, rfl⟩ := List.cons.inj hflatten
    obtain rfl := Option.some.inj (hcloser.symm.trans hlast)
    refine ⟨inner.flatten ++ [last], mem_inside_iff.mpr ⟨inner, last, rfl, rfl, ?_⟩,
      es.flatten, rfl⟩
    rwa [Group.upTo_of_closing? hlast]
  | angles hscope => exact absurd rfl hscope

/-! ## Groups by their positions -/

variable {ts : List Token} {i j : Nat} {closer : TokenKind}

/-- Some tokens have a group from one position up to another. -/
def GroupAt (ts : List Token) (i j : Nat) : Prop := j ≤ ts.length ∧ ts.extract i j ∈ group

/-- A group is not empty. -/
theorem GroupAt.lt (h : GroupAt ts i j) : i < j := by
  obtain ⟨t, body, closer, heq, -⟩ := mem_group_iff.mp h.2
  by_contra hle
  rw [List.extract_eq_take_drop, Nat.sub_eq_zero_of_le (not_lt.mp hle)] at heq
  simp at heq

/-- What stands in a list from a position on begins with what stands up to another. -/
theorem drop_eq_extract_append {α : Type} (l : List α) (hij : i ≤ j) :
    l.drop i = l.extract i j ++ l.drop j := by
  have hsplit := List.take_append_drop (j - i) (l.drop i)
  rw [List.drop_drop, Nat.add_sub_cancel' hij] at hsplit
  exact hsplit.symm

/-- The tokens from an opening bracket up to a later position. -/
theorem extract_eq_cons (hi : i < ts.length) (hij : i < j) :
    ts.extract i j = ts[i] :: ts.extract (i + 1) j := by
  rw [List.extract_eq_take_drop, List.extract_eq_take_drop, List.drop_eq_getElem_cons hi,
    ← Nat.sub_add_cancel (Nat.sub_pos_of_lt hij), List.take_succ_cons, Nat.sub_sub]

/-- Behind the bracket at a position the closer that is owed is met where its group ends. -/
theorem groupAt_iff_close (hi : i < ts.length) (hcloser : ts[i].kind.closing? = some closer) :
    GroupAt ts i j ↔
      j ≤ ts.length ∧ Group.close [closer] (ts.drop (i + 1)) = some (ts.drop j) := by
  have hclosing := Group.isClosing_of_closing? hcloser
  constructor
  · intro h
    obtain ⟨t, body, closer', heq, ht, hbody⟩ := mem_group_iff.mp h.2
    rw [extract_eq_cons hi h.lt] at heq
    obtain ⟨rfl, rfl⟩ := List.cons.inj heq
    obtain rfl := Option.some.inj (hcloser.symm.trans ht)
    refine ⟨h.1, ?_⟩
    rw [drop_eq_extract_append ts h.lt]
    exact Group.close_inside (.inl hclosing) hbody _
  · rintro ⟨hj, hclose⟩
    obtain ⟨body, hbody, hsplit⟩ := Group.inside_of_close hclose
    -- The tokens up to the position are as many as the group has.
    have hlength := congrArg List.length hsplit
    rw [List.length_append, List.length_drop, List.length_drop] at hlength
    have hij : i + 1 ≤ j := by omega
    rw [drop_eq_extract_append ts hij] at hsplit
    refine ⟨hj, mem_group_iff.mpr ⟨ts[i], body, closer, ?_, hcloser, hbody⟩⟩
    rw [extract_eq_cons hi hij, List.append_cancel_right hsplit]

/-- From an opening bracket on the reader passes over the tokens up to the closer that is owed. -/
theorem skipGroup?_significant (hi : i < ts.length) (hcloser : ts[i].kind.closing? = some closer) :
    skipGroup? (significant (ts.drop i)) =
      (Group.close [closer] (ts.drop (i + 1))).map significant := by
  have hmeaning : ts[i].isTrivia = false := by
    rw [Bool.eq_false_iff]
    intro htrivia
    have hopening := (isOpening_of_isTrivia htrivia).1
    simp [Token.isOpening, hcloser] at hopening
  have howed : Group.Owes [closer] :=
    List.forall_mem_singleton.mpr (.inl (Group.isClosing_of_closing? hcloser))
  rw [List.drop_eq_getElem_cons hi, significant_cons hmeaning, skipGroup?, hcloser,
    Option.bind_some, Group.close_significant howed]

namespace GroupAt

/-- A group ends at one position only. -/
theorem unique {j' : Nat} (hi : i < ts.length) (hopening : ts[i].isOpening = true)
    (h : GroupAt ts i j) (h' : GroupAt ts i j') : j = j' := by
  obtain ⟨closer, hcloser⟩ := Option.isSome_iff_exists.mp hopening
  obtain ⟨hj, hclose⟩ := (groupAt_iff_close hi hcloser).mp h
  obtain ⟨hj', hclose'⟩ := (groupAt_iff_close hi hcloser).mp h'
  have hlength := congrArg List.length (Option.some.inj (hclose.symm.trans hclose'))
  rw [List.length_drop, List.length_drop] at hlength
  omega

/-- The reader passes over a group, and over no more. -/
theorem reads (hi : i < ts.length) (hopening : ts[i].isOpening = true) (h : GroupAt ts i j) :
    skipGroup? (significant (ts.drop i)) = some (significant (ts.drop j)) := by
  obtain ⟨closer, hcloser⟩ := Option.isSome_iff_exists.mp hopening
  rw [skipGroup?_significant hi hcloser, ((groupAt_iff_close hi hcloser).mp h).2, Option.map_some]

/-- Counting brackets ends where a group ends. -/
theorem counts (hi : i < ts.length) (hopening : ts[i].isOpening = true) (h : GroupAt ts i j) :
    skipDepth? 1 (ts.drop (i + 1)) = some (ts.drop j) := by
  obtain ⟨closer, hcloser⟩ := Option.isSome_iff_exists.mp hopening
  obtain ⟨body, hbody, hsplit⟩ :=
    Group.inside_of_close ((groupAt_iff_close hi hcloser).mp h).2
  rw [← hsplit, skipDepth?_inside hbody (Group.isClosing_of_closing? hcloser), skipDepth?_zero]

/-- The last token of a group closes the first one. -/
theorem last (hi : i < ts.length) (h : GroupAt ts i j) :
    ∃ t, ts[j - 1]? = some t ∧ ts[i].kind.closing? = some t.kind := by
  obtain ⟨t, body, closer, heq, hcloser, hbody⟩ := mem_group_iff.mp h.2
  obtain ⟨es, last, rfl, rfl, -⟩ := mem_inside_iff.mp hbody
  have hij := h.lt
  refine ⟨last, ?_, ?_⟩
  · have hlength : (ts.extract i j).length = j - i := by
      rw [List.extract_eq_take_drop, List.length_take, List.length_drop, Nat.min_eq_left]
      exact Nat.sub_le_sub_right h.1 i
    calc ts[j - 1]? = (ts.extract i j)[j - i - 1]? := by
          rw [List.extract_eq_take_drop, List.getElem?_take_of_lt (by omega), List.getElem?_drop]
          congr 1
          omega
      _ = (ts.extract i j).getLast? := by rw [List.getLast?_eq_getElem?, hlength]
      _ = some last := by rw [heq, ← List.cons_append, List.getLast?_concat]
  · rw [extract_eq_cons hi hij] at heq
    rw [(List.cons.inj heq).1]
    exact hcloser

end GroupAt

/-- Where counting ends with brackets that are properly nested, a group ends. -/
theorem groupAt_of_skipDepth? (hi : i < ts.length) (hopening : ts[i].isOpening = true)
    (hj : j ≤ ts.length) (h : skipDepth? 1 (ts.drop (i + 1)) = some (ts.drop j))
    (hnested : ts.extract i j ∈ (element .value)∗) : GroupAt ts i j := by
  obtain ⟨closer, hcloser⟩ := Option.isSome_iff_exists.mp hopening
  have hij : i + 1 ≤ j := by
    obtain ⟨taken, htaken, -⟩ := skipDepth?_spec h
    have hlength := congrArg List.length htaken
    rw [List.length_append, List.length_drop, List.length_drop] at hlength
    omega
  rw [extract_eq_cons hi hij] at hnested
  obtain ⟨body, hbody, rest, heq⟩ := exists_inside_of_nested hnested hcloser
  -- Counting ends with the first group, so that nothing is left of the nested tokens.
  rw [drop_eq_extract_append ts hij, heq, List.append_assoc,
    skipDepth?_inside hbody (Group.isClosing_of_closing? hcloser), skipDepth?_zero] at h
  obtain rfl : rest = [] := List.append_left_eq_self.mp (Option.some.inj h)
  rw [List.append_nil] at heq
  refine ⟨hj, mem_group_iff.mpr ⟨ts[i], body, closer, ?_, hcloser, hbody⟩⟩
  rw [extract_eq_cons hi hij, heq]

/-- The reader and the count of brackets agree on properly nested groups. From an opening bracket on
the reader succeeds if and only if the tokens begin with a properly nested group; there is one such
group at most, the reader passes over just this one, and the count ends behind the same closer.
Conversely, where the count ends and the brackets up to there are properly nested, the reader
succeeds and ends at the same closer. -/
theorem skipGroup?_iff_groupAt (ts : List Token) (i : Nat) (hi : i < ts.length)
    (hopening : ts[i].isOpening = true) :
    ((skipGroup? (significant (ts.drop i))).isSome = true ↔ ∃ j, GroupAt ts i j) ∧
      (∀ j j', GroupAt ts i j → GroupAt ts i j' → j = j') ∧
      (∀ j, GroupAt ts i j →
        significant (ts.drop i) = significant (ts.extract i j) ++ significant (ts.drop j) ∧
        skipGroup? (significant (ts.drop i)) = some (significant (ts.drop j)) ∧
        skipDepth? 1 (ts.drop (i + 1)) = some (ts.drop j) ∧
        ∃ t, ts[j - 1]? = some t ∧ ts[i].kind.closing? = some t.kind) ∧
      ∀ j ≤ ts.length, skipDepth? 1 (ts.drop (i + 1)) = some (ts.drop j) →
        ts.extract i j ∈ (element .value)∗ →
          skipGroup? (significant (ts.drop i)) = some (significant (ts.drop j)) ∧
          ∃ t, ts[j - 1]? = some t ∧ ts[i].kind.closing? = some t.kind := by
  refine ⟨?_, fun j j' => GroupAt.unique hi hopening, fun j h => ?_, fun j hj hskip hnested => ?_⟩
  · obtain ⟨closer, hcloser⟩ := Option.isSome_iff_exists.mp hopening
    constructor
    · intro hread
      rw [skipGroup?_significant hi hcloser, Option.isSome_map] at hread
      obtain ⟨rest, hclose⟩ := Option.isSome_iff_exists.mp hread
      -- What is left behind the closer are the tokens from some position on.
      obtain ⟨body, -, hsplit⟩ := Group.inside_of_close hclose
      have hrest : rest = ts.drop (i + 1 + body.length) := by
        rw [← List.drop_drop, ← hsplit, List.drop_left]
      have hlength := congrArg List.length hsplit
      rw [List.length_append, List.length_drop] at hlength
      exact ⟨_, (groupAt_iff_close hi hcloser).mpr ⟨by omega, hrest ▸ hclose⟩⟩
    · rintro ⟨j, h⟩
      rw [h.reads hi hopening, Option.isSome_some]
  · refine ⟨?_, h.reads hi hopening, h.counts hi hopening, h.last hi⟩
    rw [← significant_append, ← drop_eq_extract_append ts h.lt.le]
  · have h := groupAt_of_skipDepth? hi hopening hj hskip hnested
    exact ⟨h.reads hi hopening, h.last hi⟩

/-- Tokens with a group around another one, and a closing parenthesis in a comment. -/
def groupedTokens : List Token :=
  (tokenize (utf8 "f(a, [b] /* ) */) x") Cursor.start).toOption.getD []

/-- The parenthesis in the comment ends the group for neither of the two. -/
theorem skipGroup?_iff_groupAt_comment :
    (∃ j, GroupAt groupedTokens 1 j) ∧
      skipDepth? 1 (groupedTokens.drop 2) = some (groupedTokens.drop 11) ∧
      skipGroup? (significant (groupedTokens.drop 1)) = some (significant (groupedTokens.drop 11)) ∧
      (significant (groupedTokens.drop 11)).map Token.content = [utf8 "x"] := by
  have hcounts : skipDepth? 1 (groupedTokens.drop 2) = some (groupedTokens.drop 11) := by
    decide +kernel
  have hnested : groupedTokens.extract 1 11 ∈ (element .value)∗ :=
    mem_nested_iff.mpr (by decide +kernel)
  obtain ⟨hsome, -, -, hconverse⟩ :=
    skipGroup?_iff_groupAt groupedTokens 1 (by decide +kernel) (by decide +kernel)
  obtain ⟨hreads, -⟩ := hconverse 11 (by decide +kernel) hcounts hnested
  exact ⟨hsome.mp (by rw [hreads, Option.isSome_some]), hcounts, hreads, by decide +kernel⟩

/-- A bracket of another type ends a group for the count alone. -/
example :
    let ts := (tokenize (utf8 "(a] x") Cursor.start).toOption.getD []
    skipDepth? 1 (ts.drop 1) = some (ts.drop 3) ∧ skipGroup? (significant ts) = none := by
  decide +kernel

end CallConv
