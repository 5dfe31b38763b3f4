import Mathlib
import CallConv.Proofs.SourceFile.Enclosed
import CallConv.Proofs.SourceFile.Moved

/-!
# Files one after the other

The search for attributes reads ahead: over trivia, along a path, to the end of a group and to the
end of an item. Among complete tokens each of these ends before the last token, with one exception:
an item that is nowhere to be found may still be found in what follows. So the search finds the same
whatever follows, unless an attribute lacks its item (`Attribute.search_append`), and by the
recursion of the expansion the failures and the output of some tokens are not changed by what
follows (`expandTokens_append`).

An attribute that does lack its item ends the search. In walled tokens that is certain before
anything behind them is read, and then nothing behind them is looked at
(`errors_expandTokens_append`).
-/

namespace CallConv

open Attribute

variable {depth : Nat} {ts rest : List Token} {t : Token} (us : List Token)

/-! ## Steps of the search -/

/-- Passing over trivia ends before anything that follows. -/
theorem dropTrivia_append (h : dropTrivia ts ≠ []) :
    dropTrivia (ts ++ us) = dropTrivia ts ++ us := by
  rw [dropTrivia, List.dropWhile_append, if_neg (by simpa [dropTrivia] using h)]
  rfl

theorem dropTrivia_append_of_cons (h : dropTrivia ts = t :: rest) :
    dropTrivia (ts ++ us) = t :: (rest ++ us) := by
  rw [dropTrivia_append us (by simp [h]), h, List.cons_append]

/-- Trivia in front of more tokens ends before anything that follows. -/
theorem takeWhile_isTrivia_append (h : dropTrivia ts ≠ []) :
    (ts ++ us).takeWhile Token.isTrivia = ts.takeWhile Token.isTrivia := by
  have happend := takeWhile_append_dropTrivia (ts ++ us)
  rw [dropTrivia_append us h, ← List.append_assoc, List.append_left_inj] at happend
  exact List.append_cancel_right (happend.trans (takeWhile_append_dropTrivia ts).symm)

/-- Trivia in front is passed over with the trivia that follows. -/
theorem dropTrivia_trivia_append (h : dropTrivia ts = []) :
    dropTrivia (ts ++ us) = dropTrivia us := by
  rw [dropTrivia, List.dropWhile_append, if_pos (by simpa [dropTrivia] using h)]
  rfl

/-- What was passed over stays the same. -/
theorem before_append_append (ts rest us : List Token) :
    before (ts ++ us) (rest ++ us) = before ts rest := by
  have hlength : (ts ++ us).length - (rest ++ us).length = ts.length - rest.length := by
    simp only [List.length_append]
    omega
  rw [before, hlength, before, List.take_append_of_le_length (Nat.sub_le _ _)]

namespace Attribute

/-- A path ends before what follows. -/
theorem readPath_append (h : dropTrivia (readPath ts).2 ≠ []) :
    readPath (ts ++ us) = ((readPath ts).1, (readPath ts).2 ++ us) := by
  induction hlen : ts.length using Nat.strong_induction_on generalizing ts with
  | _ n ih =>
    rw [readPath_eq] at h
    rw [readPath_eq (ts ++ us), readPath_eq ts]
    match hts : dropTrivia ts with
    | [] =>
      rw [hts] at h
      exact absurd rfl h
    | t :: rest =>
      rw [dropTrivia_append_of_cons us hts]
      simp only [hts] at h ⊢
      split
      · next hkind =>
        rw [if_pos hkind] at h
        match hrest : dropTrivia rest with
        | [] =>
          rw [hrest] at h
          exact absurd hrest h
        | separator :: rest' =>
          rw [dropTrivia_append_of_cons us hrest]
          simp only [hrest] at h ⊢
          split
          · next hseparator =>
            rw [if_pos hseparator] at h
            have h₁ := length_dropTrivia_le ts
            have h₂ := length_dropTrivia_le rest
            rw [hts, List.length_cons] at h₁
            rw [hrest, List.length_cons] at h₂
            rw [ih rest'.length (by omega) h rfl]
          · rfl
      · rfl

theorem closes_readPath (h : Closes (depth + 1) ts) : Closes (depth + 1) (readPath ts).2 := by
  obtain ⟨taken, heq, -, hpath⟩ := readPath_spec ts
  rw [heq] at h
  refine (Closes.append_plain_iff fun t ht => ?_).mp h
  rcases hpath t ht with htrivia | hkind | hkind
  · obtain ⟨hopening, hclosing, -⟩ := isOpening_of_isTrivia htrivia
    exact ⟨hopening, hclosing⟩
  · rw [Token.isOpening, hkind]
    decide
  · rw [Token.isOpening, hkind]
    decide

/-- Before a closing token the attributes of an item are passed over alike, and the item is read up
to the closing token at most. -/
theorem skipItemAttributes?_append_of_closes (h : Closes 1 ts) :
    skipItemAttributes? (ts ++ us) = (skipItemAttributes? ts).map (· ++ us) ∧
      ∀ body, skipItemAttributes? ts = some body → Closes 1 body := by
  induction hlen : ts.length using Nat.strong_induction_on generalizing ts with
  | _ n ih =>
    obtain ⟨hash, rest, hts, hcloses⟩ := h.exists_dropTrivia
    rw [skipItemAttributes?_eq, skipItemAttributes?_eq ts, dropTrivia_append_of_cons us hts, hts]
    simp only
    split
    · next hkind =>
      obtain ⟨bracket, rest', hrest', hcloses'⟩ := (hcloses.of_hash hkind).exists_dropTrivia
      rw [dropTrivia_append_of_cons us hrest', hrest']
      simp only
      split
      · next hbracket =>
        obtain ⟨after, hskip, hafter⟩ :=
          hcloses'.of_opening (by rw [Token.isOpening, hbracket]; rfl)
        rw [skipDepth?_append hskip, hskip]
        -- The next attribute stands among fewer tokens.
        have h₁ := length_dropTrivia_le ts
        have h₂ := length_dropTrivia_le rest
        have h₃ := length_le_of_skipDepth? hskip
        rw [hts, List.length_cons] at h₁
        rw [hrest', List.length_cons] at h₂
        exact ih after.length (by omega) hafter rfl
      · simp
    · simpa using hcloses

/-- The attributes of an item are passed over alike, if something of the item is left. -/
theorem skipItemAttributes?_append {body : List Token} (h : skipItemAttributes? ts = some body)
    (hne : body ≠ []) : skipItemAttributes? (ts ++ us) = some (body ++ us) := by
  induction hlen : ts.length using Nat.strong_induction_on generalizing ts with
  | _ n ih =>
    rw [skipItemAttributes?_eq] at h ⊢
    match hts : dropTrivia ts with
    | [] => exact absurd (Option.some.inj (by simpa [hts] using h)).symm hne
    | hash :: rest =>
      rw [dropTrivia_append_of_cons us hts]
      simp only [hts] at h ⊢
      split
      · next hkind =>
        rw [if_pos hkind] at h
        match hrest : dropTrivia rest with
        | [] => simp [hrest] at h
        | bracket :: rest' =>
          rw [dropTrivia_append_of_cons us hrest]
          simp only [hrest] at h ⊢
          split
          · next hbracket =>
            rw [if_pos hbracket] at h
            obtain ⟨after, hskip, hafter⟩ := Option.bind_eq_some_iff.mp h
            rw [skipDepth?_append hskip]
            -- The next attribute stands among fewer tokens.
            have h₁ := length_dropTrivia_le ts
            have h₂ := length_dropTrivia_le rest
            have h₃ := length_le_of_skipDepth? hskip
            rw [hts, List.length_cons] at h₁
            rw [hrest, List.length_cons] at h₂
            exact ih after.length (by omega) hafter rfl
          · next hbracket => simp [hbracket] at h
      · next hkind =>
        rw [if_neg hkind] at h
        obtain rfl := Option.some.inj h
        rfl

/-! ## The end of an item -/

/-- Some tokens close a group that is open before them, or are enough of an item. -/
def Bounded (ts : List Token) : Prop :=
  Closes 1 ts ∨ ∃ needed, (skipItemBody? needed 0 ts).isSome = true

namespace Bounded

theorem ne_nil (h : Bounded ts) : ts ≠ [] := by
  rintro rfl
  rcases h with h | ⟨needed, h⟩
  · exact h.ne_nil rfl
  · simp [skipItemBody?] at h

/-- A token that neither opens nor closes a group nor ends an item makes no difference. -/
theorem of_plain (h : Bounded (t :: ts)) (hopening : t.isOpening = false)
    (hclosing : t.kind.isClosing = false) (hsemicolon : t.kind ≠ .semicolon) : Bounded ts := by
  rcases h with h | ⟨needed, h⟩
  · exact .inl ((Closes.cons_plain_iff hopening hclosing).mp h)
  · have hbrace : t.kind ≠ .braceLeft := by
      intro hkind
      rw [Token.isOpening, hkind] at hopening
      exact absurd hopening (by decide)
    refine .inr ⟨needed, ?_⟩
    simpa [skipItemBody?, hopening, hclosing, hsemicolon, hbrace] using h

theorem dropTrivia (h : Bounded ts) : Bounded (dropTrivia ts) := by
  induction ts with
  | nil => exact absurd rfl h.ne_nil
  | cons t ts ih =>
    by_cases ht : t.isTrivia = true
    · obtain ⟨hopening, hclosing, hsemicolon, -⟩ := isOpening_of_isTrivia ht
      rw [CallConv.dropTrivia, List.dropWhile_cons_of_pos ht]
      exact ih (h.of_plain hopening hclosing hsemicolon)
    · rw [CallConv.dropTrivia, List.dropWhile_cons_of_neg ht]
      exact h

/-- A group in parentheses is closed, and the item goes on behind it. -/
theorem of_paren (h : Bounded (t :: ts)) (hkind : t.kind = .parenLeft) :
    ∃ after, skipDepth? 1 ts = some after ∧ Bounded after := by
  have hopening : t.isOpening = true := by rw [Token.isOpening, hkind]; rfl
  rcases h with h | ⟨needed, h⟩
  · obtain ⟨after, hskip, hafter⟩ := h.of_opening hopening
    exact ⟨after, hskip, .inl hafter⟩
  · have hbody : (skipItemBody? needed 1 ts).isSome = true := by
      simpa [skipItemBody?, hkind, hopening] using h
    rw [skipItemBody?_eq_bind] at hbody
    cases hskip : skipDepth? 1 ts with
    | none => simp [hskip] at hbody
    | some after => exact ⟨after, rfl, .inr ⟨needed, by simpa [hskip] using hbody⟩⟩

end Bounded

theorem startsWithWord_append (words : List Text) (h : ts ≠ []) :
    startsWithWord words (ts ++ us) = startsWithWord words ts := by
  obtain ⟨t, ts, rfl⟩ := List.exists_cons_of_ne_nil h
  rfl

/-- A keyword is a token that stands on its own. -/
theorem Bounded.of_startsWithWord {words : List Text} (h : Bounded ts)
    (hword : startsWithWord words ts = true) : Bounded (ts.drop 1) := by
  obtain ⟨t, ts, rfl⟩ := List.exists_cons_of_ne_nil h.ne_nil
  have hkind : t.kind = .identifier := by
    simp only [startsWithWord, List.head?_cons, Option.any_some, Bool.and_eq_true,
      beq_iff_eq] at hword
    exact hword.1
  refine h.of_plain ?_ ?_ ?_
  · rw [Token.isOpening, hkind]
    rfl
  · rw [hkind]
    rfl
  · rw [hkind]
    decide

/-- The visibility of an item ends before what follows. -/
theorem skipItemVisibility?_append (h : Bounded ts) :
    skipItemVisibility? (ts ++ us) = (skipItemVisibility? ts).map (· ++ us) ∧
      ∀ rest, skipItemVisibility? ts = some rest → Bounded rest := by
  have hdrop : (ts ++ us).drop 1 = ts.drop 1 ++ us := by
    obtain ⟨t, ts, rfl⟩ := List.exists_cons_of_ne_nil h.ne_nil
    rfl
  unfold skipItemVisibility?
  rw [startsWithWord_append us _ h.ne_nil, hdrop]
  split
  · next hpub =>
    have hrest := (h.of_startsWithWord hpub).dropTrivia
    obtain ⟨t, rest, heq⟩ := List.exists_cons_of_ne_nil hrest.ne_nil
    rw [dropTrivia_append us hrest.ne_nil]
    rw [heq] at hrest ⊢
    simp only [List.cons_append]
    split
    · next hparen =>
      obtain ⟨after, hskip, hafter⟩ := hrest.of_paren hparen
      rw [skipDepth?_append hskip, hskip, Option.map_some, Option.map_some,
        dropTrivia_append us hafter.dropTrivia.ne_nil]
      exact ⟨rfl, fun rest hrest => Option.some.inj hrest ▸ hafter.dropTrivia⟩
    · exact ⟨rfl, fun rest heq => Option.some.inj heq ▸ hrest⟩
  · exact ⟨rfl, fun rest heq => Option.some.inj heq ▸ h⟩

/-- Whether an item ends at a semicolon is decided before its end. -/
theorem endsAtSemicolon_append (h : Bounded ts) :
    endsAtSemicolon (ts ++ us) = endsAtSemicolon ts := by
  obtain ⟨hvisibility, hbounded⟩ := skipItemVisibility?_append us h
  unfold endsAtSemicolon
  rw [hvisibility]
  cases hskip : skipItemVisibility? ts with
  | none => rfl
  | some rest =>
    have hrest := hbounded rest hskip
    have hdrop : (rest ++ us).drop 1 = rest.drop 1 ++ us := by
      obtain ⟨t, rest, rfl⟩ := List.exists_cons_of_ne_nil hrest.ne_nil
      rfl
    simp only [Option.map_some, startsWithWord_append us _ hrest.ne_nil, hdrop]
    cases hconst : startsWithWord [utf8 "const"] rest with
    | false => rfl
    | true =>
      have hnext := (hrest.of_startsWithWord hconst).dropTrivia
      rw [dropTrivia_append us hnext.ne_nil, startsWithWord_append us _ hnext.ne_nil]

/-- An item that ends, ends there with anything behind it. -/
theorem skipItemBody?_append {needed : Bool} (h : skipItemBody? needed depth ts = some rest) :
    skipItemBody? needed depth (ts ++ us) = some (rest ++ us) := by
  induction ts generalizing depth with
  | nil => cases depth <;> simp [skipItemBody?] at h
  | cons t ts ih =>
    rw [List.cons_append]
    cases depth with
    | zero =>
      simp only [skipItemBody?] at h ⊢
      split_ifs at h ⊢
      · obtain rfl := Option.some.inj h
        rfl
      · exact skipDepth?_append h us
      · exact ih h
      · exact ih h
    | succ depth =>
      simp only [skipItemBody?] at h ⊢
      split_ifs at h ⊢
      · exact ih h
      · exact ih h
      · exact ih h

/-- Tokens that close the groups around them are no item with more behind them, if they are none
on their own. -/
theorem skipItemBody?_append_none {needed : Bool}
    (hcloses : Closes (depth + 1) ts)
    (h : skipItemBody? needed depth ts = none) : skipItemBody? needed depth (ts ++ us) = none := by
  unfold Closes at hcloses
  induction ts generalizing depth with
  | nil => simp [skipDepth?] at hcloses
  | cons t ts ih =>
    rw [List.cons_append]
    cases depth with
    | zero =>
      simp only [skipItemBody?, skipDepth?] at h hcloses ⊢
      by_cases hsemicolon : t.kind = .semicolon
      · simp [hsemicolon] at h
      rw [if_neg hsemicolon] at h ⊢
      by_cases hbrace : t.kind = .braceLeft ∧ (!needed) = true
      · -- Braces that begin here are closed before the group around them is.
        have hopening : t.isOpening = true := by rw [Token.isOpening, hbrace.1]; rfl
        rw [if_pos hopening, skipDepth?_add 1 1] at hcloses
        rw [if_pos hbrace] at h
        simp [h] at hcloses
      rw [if_neg hbrace] at h ⊢
      split_ifs at h hcloses ⊢
      · exact ih hcloses h
      · rfl
      · exact ih hcloses h
    | succ depth =>
      simp only [skipItemBody?, skipDepth?] at h hcloses ⊢
      split_ifs at h hcloses ⊢
      · exact ih hcloses h
      · exact ih hcloses h
      · exact ih hcloses h

/-- An item that is found is found with anything behind it. -/
theorem skipItem?_append (h : skipItem? ts = some rest) :
    skipItem? (ts ++ us) = some (rest ++ us) := by
  obtain ⟨body, hattributes, hbody⟩ := Option.bind_eq_some_iff.mp h
  have hbounded : Bounded body := .inr ⟨_, Option.isSome_of_eq_some hbody⟩
  rw [skipItem?, skipItemAttributes?_append us hattributes hbounded.ne_nil, Option.bind_some,
    endsAtSemicolon_append us hbounded, skipItemBody?_append us hbody]

/-- Before a closing token no item is found with more behind, if none is found without. -/
theorem skipItem?_append_none (hcloses : Closes 1 ts) (h : skipItem? ts = none) :
    skipItem? (ts ++ us) = none := by
  obtain ⟨happend, hbody⟩ := skipItemAttributes?_append_of_closes us hcloses
  rw [skipItem?, happend]
  cases hattributes : skipItemAttributes? ts with
  | none => rfl
  | some body =>
    have hcloses' := hbody body hattributes
    rw [skipItem?, hattributes, Option.bind_some] at h
    rw [Option.map_some, Option.bind_some, endsAtSemicolon_append us (.inl hcloses')]
    exact skipItemBody?_append_none us hcloses' h

end Attribute

/-! ## Findings -/

/-- A finding with more tokens behind those that are left. -/
def Finding.append (us : List Token) : Finding → Finding
  | finished => finished
  | passed e? rest => passed e? (rest ++ us)
  | found a rest => found a (rest ++ us)

/-- A finding is an attribute without an item. -/
def Finding.isMissing : Finding → Bool
  | passed (some (.missingItem _)) _ => true
  | _ => false

namespace Attribute

/-- White space ends before an item with anything behind it. -/
theorem dropWhile_isBlank_append (h : ts.dropWhile Token.isBlank ≠ []) :
    (ts ++ us).dropWhile Token.isBlank = ts.dropWhile Token.isBlank ++ us := by
  rw [List.dropWhile_append, if_neg (by simpa using h)]

/-- White space closes no group. -/
theorem closes_dropWhile_isBlank (h : Closes (depth + 1) ts) :
    Closes (depth + 1) (ts.dropWhile Token.isBlank) := by
  rw [← List.takeWhile_append_dropWhile (p := Token.isBlank) (l := ts)] at h
  refine (Closes.append_plain_iff fun t ht => ?_).mp h
  obtain ⟨hopening, hclosing, -⟩ :=
    isOpening_of_isTrivia (Slot.isTrivia_of_isBlank (List.mem_takeWhile_imp ht))
  exact ⟨hopening, hclosing⟩

/-- Inside of its brackets an attribute is read alike whatever follows. Only an attribute without
an item may have found one further behind, and not even that behind the end of one more group. -/
theorem finish_append (location : Cursor) (h : Closes 1 ts) :
    ¬(finish location ts).isMissing ∧ finish location (ts ++ us) = (finish location ts).append us ∨
      finish location ts = .passed (some (.missingItem location)) [] ∧
        (Closes 2 ts → finish location (ts ++ us) = finish location ts) := by
  obtain ⟨paren, arguments, hparen, hcloses⟩ := h.exists_dropTrivia
  unfold finish
  rw [dropTrivia_append_of_cons us hparen, hparen]
  simp only
  split
  · next hkind =>
    have hopening : paren.isOpening = true := by rw [Token.isOpening, hkind]; rfl
    obtain ⟨afterArguments, hskip, hafter⟩ := hcloses.of_opening hopening
    obtain ⟨bracket, afterAttribute, hbracket, hcloses'⟩ := hafter.exists_dropTrivia
    simp only [skipDepth?_append hskip, hskip, dropTrivia_append_of_cons us hbracket, hbracket]
    split
    · next hclosing =>
      cases hitem : skipItem? (afterAttribute.dropWhile Token.isBlank) with
      | some rest =>
        left
        have hne : afterAttribute.dropWhile Token.isBlank ≠ [] := by
          intro hnil
          rw [hnil] at hitem
          simp [skipItem?, skipItemAttributes?_eq, dropTrivia, skipItemBody?] at hitem
        simp only [dropWhile_isBlank_append us hne, skipItem?_append us hitem,
          before_append_append]
        exact ⟨by simp [Finding.isMissing], rfl⟩
      | none =>
        refine .inr ⟨rfl, fun h₂ => ?_⟩
        -- The group around the attribute is closed behind it, and no item is found before.
        obtain ⟨rest, hskip', hafter₂⟩ := (hparen ▸ h₂.dropTrivia).of_opening hopening
        obtain rfl := Option.some.inj (hskip.symm.trans hskip')
        have hbracket₂ := hbracket ▸ hafter₂.dropTrivia
        have hclosing' : bracket.isOpening = false ∧ bracket.kind.isClosing = true := by
          rw [Token.isOpening, hclosing]
          decide
        have hattribute : Closes 1 afterAttribute := by
          simpa [Closes, skipDepth?, hclosing'] using hbracket₂
        have hblank := closes_dropWhile_isBlank hattribute
        simp only [dropWhile_isBlank_append us hblank.ne_nil, skipItem?_append_none us hblank hitem]
    · exact .inl ⟨by simp [Finding.isMissing], rfl⟩
  · exact .inl ⟨by simp [Finding.isMissing], rfl⟩

/-- Among complete tokens the search finds the same whatever follows. Only an attribute without an
item may have found one further behind, and not even that in walled tokens. -/
theorem search_append_cases (h : Complete ts) (hfinished : search ts ≠ .finished) :
    ¬(search ts).isMissing ∧ search (ts ++ us) = (search ts).append us ∨
      ∃ location, search ts = .passed (some (.missingItem location)) [] ∧
        (Walled ts → search (ts ++ us) = search ts) := by
  obtain ⟨hash, rest, hhash⟩ : ∃ hash rest, dropTrivia ts = hash :: rest := by
    refine List.exists_cons_of_ne_nil fun hnil => hfinished ?_
    unfold search
    rw [hnil]
  have hsuffix : hash :: rest <:+ ts := suffix_of_dropTrivia hhash
  unfold search
  rw [dropTrivia_append_of_cons us hhash, hhash]
  simp only
  split
  · next hkind =>
    obtain ⟨bracket, inner, hbracket⟩ :=
      List.exists_cons_of_ne_nil (h.hash hash rest hsuffix hkind)
    have hinner : bracket :: inner <:+ ts :=
      (suffix_of_dropTrivia hbracket).trans ((List.suffix_cons hash rest).trans hsuffix)
    simp only [dropTrivia_append_of_cons us hbracket, hbracket]
    split
    · next hopens =>
      have hopening : bracket.isOpening = true := by rw [Token.isOpening, hopens]; rfl
      have hpath := closes_readPath (h.closes bracket inner hinner hopening)
      simp only [readPath_append us hpath.dropTrivia.ne_nil]
      split
      · rcases finish_append us hash.location hpath with hsame | ⟨hmissing, hsame⟩
        · exact .inl hsame
        · refine .inr ⟨hash.location, hmissing, fun hwalled => hsame (closes_readPath ?_)⟩
          have hcloses := hwalled _ hinner (List.cons_ne_nil bracket inner)
          rwa [Closes, skipDepth?, if_pos hopening] at hcloses
      · exact .inl ⟨by simp [Finding.isMissing], rfl⟩
    · exact .inl ⟨by simp [Finding.isMissing], rfl⟩
  · exact .inl ⟨by simp [Finding.isMissing], rfl⟩

/-- Unless an attribute lacks its item, the search finds the same whatever follows. -/
theorem search_append (h : Complete ts) (hfinished : search ts ≠ .finished)
    (hmissing : ¬(search ts).isMissing) : search (ts ++ us) = (search ts).append us := by
  rcases search_append_cases us h hfinished with ⟨-, heq⟩ | ⟨location, heq, -⟩
  · exact heq
  · exact absurd (by rw [heq]; rfl) hmissing

/-- An attribute that lacks its item finds none behind walled tokens. -/
theorem search_append_of_missing (h : Walled ts) (hmissing : (search ts).isMissing = true) :
    search (ts ++ us) = search ts := by
  have hfinished : search ts ≠ .finished := fun heq => by simp [heq, Finding.isMissing] at hmissing
  rcases search_append_cases us h.complete hfinished with ⟨hnot, -⟩ | ⟨location, -, heq⟩
  · exact absurd hmissing hnot
  · exact heq h

/-- The search is finished where nothing but trivia is left. -/
theorem search_eq_finished_iff : search ts = .finished ↔ dropTrivia ts = [] := by
  refine ⟨fun h => ?_, fun h => by rw [search, h]⟩
  have hmeaning := meaning_of_finished h
  cases hts : dropTrivia ts with
  | nil => rfl
  | cons t rest => simp [meaning_of_dropTrivia hts] at hmeaning

end Attribute

/-! ## Expansions -/

/-- An expansion is what the parts of a file give one after the other, except that its text does
not count if there is a failure. -/
structure Expansion.Joins (x y z : Expansion) : Prop where
  /-- First come the items of the first part. -/
  items : z.items = x.items ++ y.items
  /-- First come the failures of the first part. -/
  errors : z.errors = x.errors ++ y.errors
  /-- The texts follow each other. -/
  output : z.errors = [] → z.output = x.output ++ y.output

namespace Expansion.Joins

variable {x y z : Expansion}

theorem prepend (h : Joins x y z) (text : Text) : Joins (x.prepend text) y (z.prepend text) :=
  ⟨h.items, h.errors, fun hnone => by
    rw [Expansion.prepend, h.output hnone, Expansion.prepend, List.append_assoc]⟩

theorem fail (h : Joins x y z) (e : ExpandError) : Joins (x.fail e) y (z.fail e) :=
  ⟨h.items, congrArg (e :: ·) h.errors, fun hnone => absurd hnone (List.cons_ne_nil e z.errors)⟩

theorem add (h : Joins x y z) (i : ExpandedItem) : Joins (x.add i) y (z.add i) :=
  ⟨congrArg (i :: ·) h.items, h.errors, h.output⟩

/-- Without a failure in either part there is none at all, and the text counts. -/
theorem eq_mk (h : Joins x y z) (hx : x.errors = []) (hy : y.errors = []) :
    z = ⟨x.items ++ y.items, [], x.output ++ y.output⟩ := by
  have hnone : z.errors = [] := by rw [h.errors, hx, hy, List.append_nil]
  rw [← h.items, ← h.output hnone, ← hnone]

end Expansion.Joins

section Expansions

variable (target : Target)

open Attribute

/-- Trivia in front of a file stays there. -/
theorem expandTokens_trivia_append (h : dropTrivia ts = []) :
    Expansion.Joins ⟨[], [], Token.join ts⟩ (expandTokens target us)
      (expandTokens target (ts ++ us)) := by
  have hsearch : search (ts ++ us) = search us := by
    unfold search
    rw [dropTrivia_trivia_append us h]
  have htrivia : ∀ t ∈ ts, t.isTrivia = true := by simpa [dropTrivia] using h
  rw [expandTokens_eq target (ts ++ us), expandTokens_eq target us, hsearch]
  cases hus : search us with
  | finished => exact ⟨rfl, rfl, fun _ => by simp⟩
  | passed e? rest =>
    cases e? with
    | none =>
      have hrest : rest <:+ us := suffix_of_search (by rw [hus]; rfl)
      obtain ⟨front, rfl⟩ := hrest
      have hbefore : before (ts ++ (front ++ rest)) rest = ts ++ front := by
        rw [← List.append_assoc, before_append]
      refine ⟨rfl, rfl, fun _ => ?_⟩
      simp [Expansion.prepend, before_append, hbefore]
    | some e => exact ⟨rfl, rfl, fun hnone => absurd hnone (List.cons_ne_nil _ _)⟩
  | found a rest =>
    cases hexpand : a.expand target with
    | error e =>
      simp only [hexpand]
      exact ⟨rfl, rfl, fun hnone => absurd hnone (List.cons_ne_nil _ _)⟩
    | ok result =>
      simp only [hexpand]
      refine ⟨rfl, rfl, fun _ => ?_⟩
      rw [List.takeWhile_append_of_pos htrivia]
      simp [Expansion.prepend, Expansion.add]

/-- Complete tokens are expanded alike whatever follows, if none of their attributes lacks an
item. -/
theorem expandTokens_append (h : Complete ts)
    (hmissing : ∀ location, .attr (.missingItem location) ∉ (expandTokens target ts).errors) :
    Expansion.Joins (expandTokens target ts) (expandTokens target us)
      (expandTokens target (ts ++ us)) := by
  fun_induction expandTokens target ts with
  | case1 ts hfinding =>
    exact expandTokens_trivia_append us target (search_eq_finished_iff.mp hfinding)
  | case2 ts rest hfinding ih =>
    have hrest := ih (h.suffix (suffix_of_search (by rw [hfinding]; rfl))) hmissing
    have heq := search_append us h (by simp [hfinding]) (by simp [hfinding, Finding.isMissing])
    rw [expandTokens_eq target (ts ++ us), heq, hfinding]
    simp only [Finding.append, before_append_append]
    exact hrest.prepend _
  | case3 ts e rest hfinding ih =>
    have hrest := ih (h.suffix (suffix_of_search (by rw [hfinding]; rfl))) fun location hmem =>
      hmissing location (List.mem_cons_of_mem _ hmem)
    have hnot : ¬(search ts).isMissing := by
      rw [hfinding]
      cases e with
      | malformed location => simp [Finding.isMissing]
      | missingItem location => exact absurd List.mem_cons_self (hmissing location)
    have heq := search_append us h (by simp [hfinding]) hnot
    rw [expandTokens_eq target (ts ++ us), heq, hfinding]
    exact hrest.fail _
  | case4 ts a rest hfinding e he ih =>
    have hrest := ih (h.suffix (suffix_of_search (by rw [hfinding]; rfl))) fun location hmem =>
      hmissing location (List.mem_cons_of_mem _ hmem)
    have heq := search_append us h (by simp [hfinding]) (by simp [hfinding, Finding.isMissing])
    rw [expandTokens_eq target (ts ++ us), heq, hfinding]
    simp only [Finding.append, he]
    exact hrest.fail _
  | case5 ts a rest hfinding i text hi ih =>
    have hrest := ih (h.suffix (suffix_of_search (by rw [hfinding]; rfl))) hmissing
    have heq := search_append us h (by simp [hfinding]) (by simp [hfinding, Finding.isMissing])
    have hne : dropTrivia ts ≠ [] := fun hnil => by
      simp [search_eq_finished_iff.mpr hnil] at hfinding
    rw [expandTokens_eq target (ts ++ us), heq, hfinding]
    simp only [Finding.append, hi, takeWhile_isTrivia_append us hne]
    exact (hrest.prepend _).add i

/-- The expansion of an attribute does not fail for want of an item. -/
theorem AnnotatedItem.expand_ne_attr (a : AnnotatedItem) (e : AttributeError) :
    a.expand target ≠ .error (.attr e) := by
  unfold expand expandText
  cases Directive.ofTokens a.finish a.arguments with
  | error e => simp
  | ok directive =>
    cases Declaration.classify (Token.join a.item) a.origin with
    | error e => simp
    | ok d => cases happly : d.apply directive target <;> simp [happly]

/-- Behind walled tokens nothing more is found once one of their attributes lacks an item. -/
theorem errors_expandTokens_append (h : Walled ts) {location : Cursor}
    (hmissing : .attr (.missingItem location) ∈ (expandTokens target ts).errors) :
    (expandTokens target (ts ++ us)).errors = (expandTokens target ts).errors := by
  fun_induction expandTokens target ts with
  | case1 ts hfinding => simp at hmissing
  | case2 ts rest hfinding ih =>
    have hrest := ih (h.suffix (suffix_of_search (by rw [hfinding]; rfl))) hmissing
    have heq := search_append us h.complete (by simp [hfinding])
      (by simp [hfinding, Finding.isMissing])
    rw [expandTokens_eq target (ts ++ us), heq, hfinding]
    exact hrest
  | case3 ts e rest hfinding ih =>
    by_cases hlast : (search ts).isMissing = true
    · have heq := search_append_of_missing us h hlast
      rw [expandTokens_eq target (ts ++ us), heq, hfinding]
    · have hrest := ih (h.suffix (suffix_of_search (by rw [hfinding]; rfl))) <| by
        refine (List.mem_cons.mp hmissing).resolve_left fun heq => hlast ?_
        obtain rfl : .missingItem location = e := by simpa using heq
        rw [hfinding]
        rfl
      have heq := search_append us h.complete (by simp [hfinding]) hlast
      rw [expandTokens_eq target (ts ++ us), heq, hfinding]
      exact congrArg (_ :: ·) hrest
  | case4 ts a rest hfinding e he ih =>
    have hrest := ih (h.suffix (suffix_of_search (by rw [hfinding]; rfl))) <| by
      refine (List.mem_cons.mp hmissing).resolve_left fun heq => ?_
      exact a.expand_ne_attr target _ (heq ▸ he)
    have heq := search_append us h.complete (by simp [hfinding])
      (by simp [hfinding, Finding.isMissing])
    rw [expandTokens_eq target (ts ++ us), heq, hfinding]
    simp only [Finding.append, he]
    exact congrArg (_ :: ·) hrest
  | case5 ts a rest hfinding i text hi ih =>
    have hrest := ih (h.suffix (suffix_of_search (by rw [hfinding]; rfl))) hmissing
    have heq := search_append us h.complete (by simp [hfinding])
      (by simp [hfinding, Finding.isMissing])
    rw [expandTokens_eq target (ts ++ us), heq, hfinding]
    simp only [Finding.append, hi]
    exact hrest

/-- Tokens in front among which there is no hash change no failure. -/
theorem errors_expandTokens_of_no_hash (h : ∀ t ∈ ts, t.kind ≠ .hash) :
    (expandTokens target (ts ++ us)).errors = (expandTokens target us).errors := by
  induction ts with
  | nil => rfl
  | cons t ts ih =>
    obtain ⟨ht, hts⟩ := List.forall_mem_cons.mp h
    rw [List.cons_append, ← ih hts]
    by_cases htrivia : t.isTrivia = true
    · have hnone : dropTrivia [t] = [] := by simp [dropTrivia, htrivia]
      exact (expandTokens_trivia_append (ts ++ us) target hnone).errors
    · have hsearch : search (t :: (ts ++ us)) = .passed none (ts ++ us) := by
        simp [search, dropTrivia, htrivia, ht]
      rw [expandTokens_eq, hsearch]
      rfl

end Expansions

end CallConv
