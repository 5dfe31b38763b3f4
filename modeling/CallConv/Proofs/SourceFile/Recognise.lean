import Mathlib
import CallConv.Proofs.SourceFile.Search
import CallConv.Proofs.Token.Lexeme

/-!
# Where the search sees an attribute

The search commits itself to an `abi` attribute at a hash, a bracket and a known path, whatever
follows. `Attribute.occurs` says whether such a beginning stands anywhere among some tokens, and
depends on their significant lexemes only. A beginning does not reach across a lexeme that can
neither go on with a path nor be a bracket, so that the beginnings in two pieces of a file are
those of the one and those of the other (`occursIn_append`).
-/

namespace CallConv

namespace Attribute

/-- Texts that are joined to a text without the separator are one text. -/
theorem eq_singleton_of_join {sep text : Text} {segments : List Text} (hne : text ≠ [])
    (hsep : ¬ sep <:+: text) (h : Text.join sep segments = text) : segments = [text] := by
  match segments, h with
  | [], h => exact absurd h.symm hne
  | [first], h => rw [← h]; rfl
  | first :: second :: rest, h =>
    refine absurd ⟨first, Text.join sep (second :: rest), ?_⟩ hsep
    simpa [Text.join] using h

/-- The known paths are `abi` and `fn_abi::abi`, the separator in the second one being a token of
its own or not. -/
theorem isKnown_iff {segments : List Text} :
    isKnown segments = true ↔
      segments ∈ [[utf8 "abi"], [utf8 "fn_abi", utf8 "abi"], [utf8 "fn_abi::abi"]] := by
  have hnotInfix : ¬ utf8 "::" <:+: utf8 "abi" := by decide
  -- The separator stands at one place of the second path.
  have hplace : ∀ n ≤ (utf8 "fn_abi::abi").length,
      utf8 "::" <+: (utf8 "fn_abi::abi").drop n → n = 6 := by decide
  refine ⟨fun h => ?_, fun h => by fin_cases h <;> rfl⟩
  have hjoin : Text.join (utf8 "::") segments = utf8 "abi" ∨
      Text.join (utf8 "::") segments = utf8 "fn_abi::abi" := by simpa [isKnown, paths] using h
  rcases hjoin with hjoin | hjoin
  · simp [eq_singleton_of_join (by decide) hnotInfix hjoin]
  · match segments, hjoin with
    | [first], hjoin => simp [← hjoin, Text.join]
    | first :: second :: rest, hjoin =>
      have hsplit : first ++ (utf8 "::" ++ Text.join (utf8 "::") (second :: rest)) =
          utf8 "fn_abi" ++ utf8 "::abi" := by
        rw [← List.append_assoc, ← Text.join, hjoin]
        rfl
      have hlength : first.length = 6 := by
        rw [Text.join, List.append_assoc] at hjoin
        refine hplace _ (by simp [← hjoin]) ?_
        rw [← hjoin, List.drop_left]
        exact List.prefix_append _ _
      obtain ⟨hfirst, hrest⟩ := List.append_inj hsplit hlength
      have hrest' : Text.join (utf8 "::") (second :: rest) = utf8 "abi" :=
        List.append_cancel_left hrest
      simp [hfirst, eq_singleton_of_join (by decide) hnotInfix hrest']

end Attribute

namespace Lexeme

/-- The segments of the path that significant lexemes begin with. A separator may end the path. -/
def path : List Lexeme → List Text
  | [] => []
  | [l] => if l.kind = .identifier then [l.content] else []
  | l :: separator :: rest =>
    if l.kind = .identifier then
      if separator.kind = .pathSeparator then l.content :: path rest else [l.content]
    else []

/-- Whether a path that takes up the lexemes goes on behind them. -/
def pathGoesOn : List Lexeme → Bool
  | [] => true
  | [_] => false
  | l :: separator :: rest =>
    l.kind == .identifier && separator.kind == .pathSeparator && pathGoesOn rest

/-- Whether significant lexemes begin with a hash, a bracket and the path of the attribute. -/
def opensAttribute : List Lexeme → Bool
  | hash :: bracket :: inner =>
    hash.kind == .hash && bracket.kind == .bracketLeft && Attribute.isKnown (path inner)
  | _ => false

/-- Whether an attribute begins anywhere among significant lexemes. -/
def occursIn : List Lexeme → Bool
  | [] => false
  | l :: ls => opensAttribute (l :: ls) || occursIn ls

/-- A path is read on behind some lexemes if it takes up all of them. -/
theorem path_append {ls ls' : List Lexeme} (h : ∀ l ∈ ls'.head?, l.kind ≠ .pathSeparator) :
    path (ls ++ ls') = path ls ++ if pathGoesOn ls then path ls' else [] := by
  -- The recursion takes a segment and a separator at a time.
  induction ls using pathGoesOn.induct with
  | case1 => simp [path, pathGoesOn]
  | case2 l =>
    cases ls' with
    | nil => simp [pathGoesOn]
    | cons separator ls' =>
      have hseparator : separator.kind ≠ .pathSeparator := h separator rfl
      simp [path, pathGoesOn, hseparator]
  | case3 l separator rest ih =>
    by_cases hl : l.kind = .identifier
    · by_cases hseparator : separator.kind = .pathSeparator
      · simp [path, pathGoesOn, hl, hseparator, ih]
      · simp [path, pathGoesOn, hl, hseparator]
    · simp [path, pathGoesOn, hl]

/-- Lexemes end every path and every beginning of an attribute before them. -/
def Ends (ls : List Lexeme) : Prop :=
  ∀ l ∈ ls.head?, l.kind ≠ .identifier ∧ l.kind ≠ .pathSeparator ∧ l.kind ≠ .bracketLeft

/-- Lexemes begin with a word that stands in no path of the attribute. -/
def Foreign (ls : List Lexeme) : Prop :=
  ∃ l rest, ls = l :: rest ∧ l.kind = .identifier ∧
    ∀ segments, Attribute.isKnown segments = true → l.content ∉ segments

/-- The first lexeme decides whether an attribute can reach into lexemes. -/
theorem ends_or_foreign_cons {l : Lexeme} {ls ls' : List Lexeme}
    (h : Ends (l :: ls) ∨ Foreign (l :: ls)) : Ends (l :: ls') ∨ Foreign (l :: ls') := by
  rcases h with hends | ⟨l', rest, heq, hl⟩
  · exact .inl fun l' hl' => hends l' hl'
  · obtain ⟨rfl, -⟩ := List.cons.inj heq
    exact .inr ⟨l, ls', rfl, hl⟩

/-- No path goes on with lexemes that end it. -/
theorem Ends.path_eq {ls : List Lexeme} (h : Ends ls) : path ls = [] := by
  rcases ls with _ | ⟨l, _ | ⟨separator, rest⟩⟩
  · rfl
  · have hl := (h l rfl).1
    simp [path, hl]
  · have hl := (h l rfl).1
    simp [path, hl]

/-- A path that goes on with a foreign word has it as a segment. -/
theorem Foreign.isKnown_path {ls ls' : List Lexeme} (h : Foreign ls')
    (hgoes : pathGoesOn ls = true) : Attribute.isKnown (path (ls ++ ls')) = false := by
  obtain ⟨l, rest, rfl, hl, hforeign⟩ := h
  have hhead : ∀ l' ∈ (l :: rest).head?, l'.kind ≠ .pathSeparator := by
    intro l' hl'
    obtain rfl := Option.some.inj hl'
    simp [hl]
  refine Bool.eq_false_iff.mpr fun hknown => hforeign _ hknown ?_
  rw [path_append hhead, if_pos hgoes]
  refine List.mem_append_right _ ?_
  rcases rest with _ | ⟨separator, rest⟩
  · simp [path, hl]
  · by_cases hseparator : separator.kind = .pathSeparator <;> simp [path, hl, hseparator]

section Append

variable {l : Lexeme} {ls ls' ls'' : List Lexeme}

/-- An attribute begins with a hash. -/
theorem occursIn_cons_of_kind (h : l.kind ≠ .hash) : occursIn (l :: ls) = occursIn ls := by
  have hopens : opensAttribute (l :: ls) = false := by
    cases ls with
    | nil => rfl
    | cons l' ls => simp [opensAttribute, h]
  rw [occursIn, hopens, Bool.false_or]

/-- A beginning does not reach across lexemes that end it. -/
theorem opensAttribute_append_of_ends (h : Ends ls') :
    opensAttribute (l :: ls ++ ls') = opensAttribute (l :: ls) := by
  have hhead : ∀ l' ∈ ls'.head?, l'.kind ≠ .pathSeparator := fun l' hl' => (h l' hl').2.1
  cases ls with
  | nil =>
    cases ls' with
    | nil => rfl
    | cons l' ls' =>
      have hl' := (h l' rfl).2.2
      simp [opensAttribute, hl']
  | cons bracket inner =>
    have hpath : path (inner ++ ls') = path inner := by
      rw [path_append hhead, h.path_eq, ite_self, List.append_nil]
    simp [opensAttribute, hpath]

/-- Before a foreign word stands a beginning whose path does not go on with that word. -/
theorem opensAttribute_append_of_foreign (h : Foreign ls') :
    opensAttribute (l :: ls ++ ls') = (opensAttribute (l :: ls) && !pathGoesOn (ls.drop 1)) := by
  cases ls with
  | nil =>
    obtain ⟨l', rest, rfl, hl', -⟩ := h
    simp [opensAttribute, hl']
  | cons bracket inner =>
    cases hgoes : pathGoesOn inner with
    | true => simp [opensAttribute, hgoes, h.isKnown_path hgoes]
    | false =>
      have hpath : path (inner ++ ls') = path inner := by
        obtain ⟨l', rest, rfl, hl', -⟩ := h
        rw [path_append (by simp [hl']), hgoes, if_neg Bool.false_ne_true, List.append_nil]
      simp [opensAttribute, hgoes, hpath]

/-- The beginnings in lexemes and in others that end them are those in the ones and in the
others. -/
theorem occursIn_append (h : Ends ls') : occursIn (ls ++ ls') = (occursIn ls || occursIn ls') := by
  induction ls with
  | nil => rfl
  | cons l ls ih =>
    have hopens : opensAttribute (l :: (ls ++ ls')) = opensAttribute (l :: ls) :=
      opensAttribute_append_of_ends h
    rw [List.cons_append, occursIn, occursIn, hopens, ih, Bool.or_assoc]

/-- Where no attribute begins, none begins in what stands behind. -/
theorem occursIn_of_append (h : occursIn (ls ++ ls') = false) : occursIn ls' = false := by
  induction ls with
  | nil => exact h
  | cons l ls ih =>
    rw [List.cons_append, occursIn, Bool.or_eq_false_iff] at h
    exact ih h.2

/-- Lexemes that begin with foreign words may be put for one another. -/
theorem occursIn_append_congr (h : Foreign ls') (h' : Foreign ls'')
    (heq : occursIn ls' = occursIn ls'') : occursIn (ls ++ ls') = occursIn (ls ++ ls'') := by
  induction ls with
  | nil => exact heq
  | cons l ls ih =>
    have hopens : opensAttribute (l :: (ls ++ ls')) = opensAttribute (l :: (ls ++ ls'')) :=
      (opensAttribute_append_of_foreign h).trans (opensAttribute_append_of_foreign h').symm
    rw [List.cons_append, List.cons_append, occursIn, occursIn, hopens, ih]

/-- Behind lexemes without an attribute, none begins that reaches into what follows. -/
theorem occursIn_append_of_quiet (h : Ends ls' ∨ Foreign ls') (hls : occursIn ls = false) :
    occursIn (ls ++ ls') = occursIn ls' := by
  rcases h with hends | hforeign
  · rw [occursIn_append hends, hls, Bool.false_or]
  · induction ls with
    | nil => rfl
    | cons l ls ih =>
      rw [occursIn, Bool.or_eq_false_iff] at hls
      have hopens : opensAttribute (l :: (ls ++ ls')) = false := by
        calc opensAttribute (l :: ls ++ ls')
          _ = (opensAttribute (l :: ls) && !pathGoesOn (ls.drop 1)) :=
            opensAttribute_append_of_foreign hforeign
          _ = false := by rw [hls.1, Bool.false_and]
      rw [List.cons_append, occursIn, hopens, Bool.false_or]
      exact ih hls.2

/-- The beginnings among lexemes and others behind a closing bracket or a semicolon are those in the
ones and in the others. -/
theorem occursIn_append_of_last (hl : Ends [l]) (hkind : l.kind ≠ .hash) (hlast : [l] <:+ ls) :
    occursIn (ls ++ ls') = (occursIn ls || occursIn ls') := by
  obtain ⟨init, rfl⟩ := hlast
  have hends : Ends (l :: ls') := fun l' hl' => hl l' hl'
  rw [List.append_assoc, List.singleton_append, occursIn_append hends, occursIn_append hl,
    occursIn_cons_of_kind hkind, occursIn_cons_of_kind hkind]
  simp [occursIn]

end Append

end Lexeme

namespace Attribute

/-- The significant lexemes of some tokens. -/
def meaning (ts : List Token) : List Lexeme := Lexeme.significant (ts.map Token.lexeme)

/-- Whether an attribute begins anywhere among some tokens. -/
def occurs (ts : List Token) : Bool := Lexeme.occursIn (meaning ts)

section Meaning

variable {t : Token} {ts us rest : List Token}

@[simp]
theorem meaning_append (ts us : List Token) : meaning (ts ++ us) = meaning ts ++ meaning us := by
  rw [meaning, List.map_append, Lexeme.significant_append]
  rfl

/-- Trivia has no meaning. -/
theorem meaning_of_trivia (h : ∀ t ∈ ts, t.isTrivia = true) : meaning ts = [] := by
  rw [meaning, Lexeme.significant, List.filter_eq_nil_iff]
  intro l hl
  obtain ⟨t, ht, rfl⟩ := List.mem_map.mp hl
  have htrivia : t.lexeme.isTrivia = true := h t ht
  simp [htrivia]

/-- A token that is no trivia stands first in what it and others mean. -/
theorem meaning_cons (h : t.isTrivia = false) : meaning (t :: ts) = t.lexeme :: meaning ts := by
  have htrivia : t.lexeme.isTrivia = false := h
  rw [meaning, List.map_cons, Lexeme.significant, List.filter_cons_of_pos (by simp [htrivia])]
  rfl

/-- Trivia in front does not change what tokens mean. -/
theorem meaning_dropTrivia (ts : List Token) : meaning (dropTrivia ts) = meaning ts := by
  obtain ⟨trivia, heq, htrivia⟩ := exists_of_dropTrivia (@rfl _ (dropTrivia ts))
  conv_rhs => rw [heq, meaning_append, meaning_of_trivia htrivia]
  rfl

/-- The first token behind trivia is none. -/
theorem isTrivia_of_dropTrivia (h : dropTrivia ts = t :: rest) : t.isTrivia = false := by
  have hhead := List.head?_dropWhile_not Token.isTrivia ts
  rw [dropTrivia] at h
  rw [h] at hhead
  simpa using hhead

/-- Tokens mean what stands behind the trivia in front of them. -/
theorem meaning_of_dropTrivia (h : dropTrivia ts = t :: rest) :
    meaning ts = t.lexeme :: meaning rest := by
  rw [← meaning_dropTrivia, h, meaning_cons (isTrivia_of_dropTrivia h)]

/-- The segments of a path are read off the significant lexemes. -/
theorem readPath_fst (ts : List Token) : (readPath ts).1 = Lexeme.path (meaning ts) := by
  fun_induction readPath ts with
  | case1 ts h =>
    rw [← meaning_dropTrivia, h]
    rfl
  | case2 ts t rest h hkind h' =>
    rw [meaning_of_dropTrivia h, ← meaning_dropTrivia rest, h']
    simp [meaning, Lexeme.significant, Lexeme.path, hkind, Token.lexeme]
  | case3 ts t rest h hkind separator rest' h' hseparator segments after hpath ih =>
    rw [hpath] at ih
    rw [meaning_of_dropTrivia h, meaning_of_dropTrivia h']
    simp [Lexeme.path, hkind, hseparator, Token.lexeme, ← ih]
  | case4 ts t rest h hkind separator rest' h' hseparator =>
    rw [meaning_of_dropTrivia h, meaning_of_dropTrivia h']
    simp [Lexeme.path, hkind, hseparator, Token.lexeme]
  | case5 ts t rest h hkind =>
    rw [meaning_of_dropTrivia h]
    cases meaning rest with
    | nil => simp [Lexeme.path, hkind, Token.lexeme]
    | cons l ls => simp [Lexeme.path, hkind, Token.lexeme]

end Meaning

/-- Behind the path of an attribute there is the attribute or a failure. -/
theorem finish_cases (location : Cursor) (ts : List Token) :
    (∃ e rest, finish location ts = .passed (some e) rest) ∨
      ∃ a rest, finish location ts = .found a rest := by
  unfold finish
  split
  · simp
  · split
    · split
      · simp
      · split
        · simp
        · split
          · dsimp only
            split <;> simp
          · simp
    · simp

/-- The search goes on behind a token at which no attribute begins, and leaves out no hash. -/
structure Passes (ts rest : List Token) : Prop where
  /-- No attribute begins here. -/
  not_opens : Lexeme.opensAttribute (meaning ts) = false
  /-- One significant token is passed over, or a hash and a bracket. -/
  taken : ∃ taken l ls, ts = taken ++ rest ∧ meaning taken = l :: ls ∧ ∀ l' ∈ ls, l'.kind ≠ .hash

/-- What the search finds at the first significant token: nothing at the end, no attribute, or the
beginning of one. -/
theorem search_cases (ts : List Token) :
    search ts = .finished ∧ meaning ts = [] ∨
      (∃ rest, search ts = .passed none rest ∧ Passes ts rest) ∨
      Lexeme.opensAttribute (meaning ts) = true ∧
        ((∃ e rest, search ts = .passed (some e) rest) ∨ ∃ a rest, search ts = .found a rest) := by
  unfold search
  split
  · next hnil =>
    refine .inl ⟨rfl, ?_⟩
    rw [← meaning_dropTrivia, hnil]
    rfl
  · next hash rest hhash =>
    obtain ⟨trivia, rfl, htrivia⟩ := exists_of_dropTrivia hhash
    have hsignificant := isTrivia_of_dropTrivia hhash
    have hmeaning := meaning_of_dropTrivia hhash
    -- One token is passed over where no bracket follows.
    have hpasses : Lexeme.opensAttribute (meaning (trivia ++ hash :: rest)) = false →
        Passes (trivia ++ hash :: rest) rest := by
      intro hopens
      refine ⟨hopens, trivia ++ [hash], hash.lexeme, [], by simp, ?_, by simp⟩
      rw [meaning_append, meaning_of_trivia htrivia, meaning_cons hsignificant]
      rfl
    split
    · next hkind =>
      split
      · next bracket inner hbracket =>
        have hinner := meaning_of_dropTrivia hbracket
        split
        · next hkind' =>
          -- The path decides, and is the same in the significant lexemes.
          have hopens : Lexeme.opensAttribute (meaning (trivia ++ hash :: rest)) =
              isKnown (readPath inner).1 := by
            rw [hmeaning, hinner, readPath_fst]
            simp [Lexeme.opensAttribute, Token.lexeme, hkind, hkind']
          dsimp only
          split
          · next hpath =>
            refine .inr (.inr ⟨?_, finish_cases hash.location (readPath inner).2⟩)
            rw [hopens]
            simpa using hpath
          · next hpath =>
            refine .inr (.inl ⟨inner, rfl, ?_, ?_⟩)
            · rw [hopens]
              simpa using hpath
            · obtain ⟨trivia', rfl, htrivia'⟩ := exists_of_dropTrivia hbracket
              refine ⟨trivia ++ hash :: trivia' ++ [bracket], hash.lexeme, [bracket.lexeme],
                by simp, ?_, by simp [Token.lexeme, hkind']⟩
              rw [meaning_append, meaning_append, meaning_of_trivia htrivia,
                meaning_cons hsignificant, meaning_of_trivia htrivia',
                meaning_cons (isTrivia_of_dropTrivia hbracket)]
              rfl
        · next hkind' =>
          refine .inr (.inl ⟨rest, rfl, hpasses ?_⟩)
          rw [hmeaning, hinner]
          simp [Lexeme.opensAttribute, Token.lexeme, hkind']
      · next hnil =>
        refine .inr (.inl ⟨rest, rfl, hpasses ?_⟩)
        rw [hmeaning, ← meaning_dropTrivia rest, hnil]
        rfl
    · next hkind =>
      refine .inr (.inl ⟨rest, rfl, hpasses ?_⟩)
      rw [hmeaning]
      cases meaning rest with
      | nil => rfl
      | cons l ls => simp [Lexeme.opensAttribute, Token.lexeme, hkind]

/-- The search ends where no significant token is left. -/
theorem meaning_of_finished {ts : List Token} (h : search ts = .finished) : meaning ts = [] := by
  rcases search_cases ts with ⟨-, hnil⟩ | ⟨rest, hpassed, -⟩ | ⟨-, ⟨e, rest, heq⟩ | ⟨a, rest, heq⟩⟩
  · exact hnil
  · simp [h] at hpassed
  · simp [h] at heq
  · simp [h] at heq

/-- The search goes on without a failure only where no attribute begins. -/
theorem passes_of_search {ts rest : List Token} (h : search ts = .passed none rest) :
    Passes ts rest := by
  rcases search_cases ts with
    ⟨heq, -⟩ | ⟨rest', heq, hpasses⟩ | ⟨-, ⟨e, rest', heq⟩ | ⟨a, rest', heq⟩⟩
  · simp [h] at heq
  · obtain rfl : rest = rest' := by simpa [h] using heq
    exact hpasses
  · simp [h] at heq
  · simp [h] at heq

/-- An attribute occurs where it begins. -/
theorem occurs_of_opens {ts : List Token} (h : Lexeme.opensAttribute (meaning ts) = true) :
    occurs ts = true := by
  rw [occurs]
  cases hmeaning : meaning ts with
  | nil => simp [hmeaning, Lexeme.opensAttribute] at h
  | cons l ls => rw [Lexeme.occursIn, ← hmeaning, h, Bool.true_or]

/-- An attribute begins where the search neither ends nor goes on without a failure. -/
theorem occurs_of_search {ts : List Token} (h : search ts ≠ .finished)
    (h' : ∀ rest, search ts ≠ .passed none rest) : occurs ts = true := by
  rcases search_cases ts with ⟨heq, -⟩ | ⟨rest, heq, -⟩ | ⟨hopens, -⟩
  · exact absurd heq h
  · exact absurd heq (h' rest)
  · exact occurs_of_opens hopens

/-- What the search passes over up to tokens without an attribute holds none, if what follows these
ends every beginning. -/
theorem Passes.occurs_append {taken gap behind : List Token}
    (h : Passes (taken ++ (gap ++ behind)) (gap ++ behind))
    (hbehind : Lexeme.Ends (meaning behind)) (hgap : occurs gap = false) :
    occurs (taken ++ gap) = false := by
  obtain ⟨taken', l, ls, heq, hmeaning, hls⟩ := h.taken
  obtain rfl := List.append_cancel_right heq
  have hopens : Lexeme.opensAttribute (l :: (ls ++ meaning gap)) = false := by
    have hall := h.not_opens
    rw [meaning_append, meaning_append, hmeaning] at hall
    rw [← Lexeme.opensAttribute_append_of_ends hbehind]
    simpa using hall
  have hrest : Lexeme.occursIn (ls ++ meaning gap) = false := by
    clear hmeaning hopens
    induction ls with
    | nil => exact hgap
    | cons l' ls ih =>
      obtain ⟨hl', hls⟩ := List.forall_mem_cons.mp hls
      rw [List.cons_append, Lexeme.occursIn_cons_of_kind hl']
      exact ih hls
  rw [occurs, meaning_append, hmeaning, List.cons_append, Lexeme.occursIn, hopens, hrest]
  rfl

/-- An attribute ends every beginning before it. -/
theorem Written.ends {location : Cursor} {attr : List Token} (h : Written location attr)
    (behind : List Token) : Lexeme.Ends (meaning (attr ++ behind)) := by
  obtain ⟨hash, bracket, paren, closing, trivia, path, enclosed, trivia', segments, rfl, hkind,
    -⟩ := h
  have hsignificant : hash.isTrivia = false := by
    rw [Token.isTrivia, hkind]
    rfl
  intro l hl
  simp only [List.cons_append, meaning_cons hsignificant, List.head?_cons,
    Option.mem_def, Option.some.injEq] at hl
  subst hl
  simp [Token.lexeme, hkind]

end Attribute

end CallConv
