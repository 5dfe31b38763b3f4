import Mathlib
import CallConv.Proofs.Token.Lexeme

/-!
# Readers of tokens

The readers of the grammar look at the lexemes of the tokens that they pass over, and at the first
token of what they leave. `Steady` states this of a reader that passes over some tokens: on other
tokens with the same lexemes, followed by anything that begins alike, it leaves what follows.
-/

namespace CallConv

/-- Two lists of tokens have the same lexemes. -/
def Alike (ts ts' : List Token) : Prop := ts.map Token.lexeme = ts'.map Token.lexeme

namespace Alike

variable {ts ts' us us' : List Token} {t t' : Token}

/-- Tokens have their own lexemes. -/
theorem refl (ts : List Token) : Alike ts ts := rfl

@[simp]
theorem nil_iff : Alike [] ts' ↔ ts' = [] := by
  simp [Alike, eq_comm]

/-- Tokens with the same lexemes have them one by one. -/
theorem cons_iff : Alike (t :: ts) ts' ↔
    ∃ t' us', ts' = t' :: us' ∧ t.lexeme = t'.lexeme ∧ Alike ts us' := by
  simp only [Alike, List.map_cons]
  rw [eq_comm, List.map_eq_cons_iff]
  simp only [eq_comm]

/-- Tokens with the lexemes of two lists are two lists with these lexemes. -/
theorem append_iff : Alike (ts ++ us) ts' ↔
    ∃ us₁ us₂, ts' = us₁ ++ us₂ ∧ Alike ts us₁ ∧ Alike us us₂ := by
  simp only [Alike, List.map_append]
  rw [eq_comm, List.map_eq_append_iff]
  simp only [eq_comm]

/-- Lists with the same lexemes may be put together. -/
theorem append (h : Alike ts ts') (h' : Alike us us') : Alike (ts ++ us) (ts' ++ us') :=
  append_iff.mpr ⟨ts', us', rfl, h, h'⟩

/-- Lists with the same lexemes are empty together. -/
theorem isEmpty_eq (h : Alike ts ts') : ts.isEmpty = ts'.isEmpty := by
  cases ts with
  | nil => rw [nil_iff.mp h]
  | cons t ts =>
    obtain ⟨t', us', rfl, -, -⟩ := cons_iff.mp h
    rfl

end Alike

/-- Tokens with the same lexeme have the same kind. -/
theorem kind_eq_of_lexeme {t t' : Token} (h : t.lexeme = t'.lexeme) : t.kind = t'.kind :=
  congrArg Lexeme.kind h

/-- Tokens with the same lexeme have the same text. -/
theorem content_eq_of_lexeme {t t' : Token} (h : t.lexeme = t'.lexeme) : t.content = t'.content :=
  congrArg Lexeme.content h

/-- Tokens with the same lexeme are the same keyword. -/
theorem isWord_eq_of_lexeme {t t' : Token} (h : t.lexeme = t'.lexeme) (word : Text) :
    t.isWord word = t'.isWord word := by
  rw [Token.isWord, Token.isWord, kind_eq_of_lexeme h, content_eq_of_lexeme h]

namespace Group

variable {closer : TokenKind} {outer owed owed' : List TokenKind} {t t' : Token}
  {ts rest : List Token}

/-- A step depends on the kind of the token only. -/
theorem step_eq_of_lexeme (h : t.lexeme = t'.lexeme) (closer : TokenKind)
    (outer : List TokenKind) : step closer outer t = step closer outer t' := by
  simp only [step, kind_eq_of_lexeme h]

/-- A step meets the last owed closer, or the outermost closer is still owed. -/
theorem getLast?_of_step (h : step closer outer t = some owed) :
    owed = [] ∧ outer = [] ∧ t.kind = closer ∨
      owed ≠ [] ∧ owed.getLast? = (closer :: outer).getLast? := by
  unfold step at h
  split at h
  · next hkind =>
    obtain rfl := Option.some.inj h
    cases outer with
    | nil => exact .inl ⟨rfl, rfl, hkind⟩
    | cons inner outer => exact .inr ⟨List.cons_ne_nil _ _, by simp⟩
  · right
    split at h
    · simp at h
    · split at h
      · obtain rfl := Option.some.inj h
        exact ⟨List.cons_ne_nil _ _, by simp⟩
      · split at h
        · obtain rfl := Option.some.inj h
          exact ⟨List.cons_ne_nil _ _, by simp⟩
        · obtain rfl := Option.some.inj h
          exact ⟨List.cons_ne_nil _ _, rfl⟩

/-- Nothing is taken where nothing is owed. -/
@[simp]
theorem close_nil (ts : List Token) : close [] ts = some ts := by
  cases ts <;> rfl

/-- Closing what is owed takes tokens up to one that closes the outermost group, and depends on
their lexemes only. -/
theorem close_spec (h : close owed ts = some rest) :
    ∃ taken, ts = taken ++ rest ∧
      (∀ closer ∈ owed.getLast?, ∃ t, [t] <:+ taken ∧ t.kind = closer) ∧
      ∀ taken' rest', Alike taken taken' → close owed (taken' ++ rest') = some rest' := by
  induction ts generalizing owed with
  | nil =>
    cases owed with
    | nil =>
      obtain rfl := Option.some.inj h
      refine ⟨[], rfl, by simp, fun taken' rest' halike => ?_⟩
      rw [Alike.nil_iff.mp halike, List.nil_append, close_nil]
    | cons closer outer => simp [close] at h
  | cons t ts ih =>
    cases owed with
    | nil =>
      obtain rfl := Option.some.inj h
      refine ⟨[], rfl, by simp, fun taken' rest' halike => ?_⟩
      rw [Alike.nil_iff.mp halike, List.nil_append, close_nil]
    | cons closer outer =>
      rw [close, Option.bind_eq_some_iff] at h
      obtain ⟨owed', hstep, hclose⟩ := h
      obtain ⟨taken, rfl, hlast, hsame⟩ := ih hclose
      refine ⟨t :: taken, rfl, fun c hc => ?_, fun taken' rest' halike => ?_⟩
      · rcases getLast?_of_step hstep with ⟨rfl, rfl, hkind⟩ | ⟨-, hgetLast⟩
        · -- The token meets the last closer, so nothing more is taken.
          rw [close_nil, Option.some.injEq, List.append_left_eq_self] at hclose
          obtain rfl : closer = c := by simpa using hc
          exact ⟨t, by rw [hclose], hkind⟩
        · rw [← hgetLast] at hc
          obtain ⟨t', hsuffix, hkind⟩ := hlast c hc
          exact ⟨t', hsuffix.trans (List.suffix_cons t taken), hkind⟩
      · obtain ⟨t', us', rfl, hlexeme, halike⟩ := Alike.cons_iff.mp halike
        rw [List.cons_append, close, ← step_eq_of_lexeme hlexeme, hstep]
        exact hsame us' rest' halike

/-- Entering a group depends on the kind of the token only. -/
theorem enter_eq_of_lexeme (angles : Bool) (h : t.lexeme = t'.lexeme) :
    enter angles t = enter angles t' := by
  simp only [enter, kind_eq_of_lexeme h]

/-- Some tokens end here, or go on with one that stops a search. -/
def Stops (stop : Token → Bool) (ts : List Token) : Prop :=
  ts = [] ∨ ∃ t rest, ts = t :: rest ∧ stop t = true

/-- A search for a token outside of every group takes the tokens before it, and depends on their
lexemes only. -/
theorem splitUntil_spec {stop : Token → Bool} {angles : Bool} {before after : List Token}
    (h : splitUntil stop angles owed ts = some (before, after)) :
    ts = before ++ after ∧ Stops stop after ∧
      ((∀ t t' : Token, t.lexeme = t'.lexeme → stop t = stop t') →
        ∀ before' after', Alike before before' → Stops stop after' →
          splitUntil stop angles owed (before' ++ after') = some (before', after')) := by
  induction ts generalizing owed before with
  | nil =>
    cases owed with
    | nil =>
      simp only [splitUntil, Option.some.injEq, Prod.mk.injEq] at h
      obtain ⟨rfl, rfl⟩ := h
      refine ⟨rfl, .inl rfl, fun _ before' after' halike hstops => ?_⟩
      rw [Alike.nil_iff.mp halike]
      rcases hstops with rfl | ⟨t, rest, rfl, ht⟩
      · rfl
      · simp [splitUntil, ht]
    | cons closer outer => simp [splitUntil] at h
  | cons t ts ih =>
    cases owed with
    | nil =>
      -- Outside of every group the search may stop, or enter a group.
      simp only [splitUntil] at h
      split at h
      · next hstop =>
        simp only [Option.some.injEq, Prod.mk.injEq] at h
        obtain ⟨rfl, rfl⟩ := h
        refine ⟨rfl, .inr ⟨t, ts, rfl, hstop⟩, fun _ before' after' halike hstops => ?_⟩
        rw [Alike.nil_iff.mp halike]
        rcases hstops with rfl | ⟨t, rest, rfl, ht⟩
        · rfl
        · simp [splitUntil, ht]
      · next hstop =>
        simp only [Option.bind_eq_bind, Option.bind_eq_some_iff, Option.some.injEq,
          Prod.mk.injEq, Prod.exists] at h
        obtain ⟨owed', henter, before₀, after₀, hsplit, rfl, rfl⟩ := h
        obtain ⟨rfl, hstops, hsame⟩ := ih hsplit
        refine ⟨rfl, hstops, fun hstop' before' after' halike hstops' => ?_⟩
        obtain ⟨t', us', rfl, hlexeme, halike⟩ := Alike.cons_iff.mp halike
        rw [List.cons_append, splitUntil, ← hstop' t t' hlexeme, if_neg hstop,
          ← enter_eq_of_lexeme angles hlexeme, henter]
        simp [hsame hstop' us' after' halike hstops']
    | cons closer outer =>
      -- Inside of a group nothing stops the search.
      simp only [splitUntil, Option.bind_eq_bind, Option.bind_eq_some_iff, Option.some.injEq,
        Prod.mk.injEq, Prod.exists] at h
      obtain ⟨owed', hstep, before₀, after₀, hsplit, rfl, rfl⟩ := h
      obtain ⟨rfl, hstops, hsame⟩ := ih hsplit
      refine ⟨rfl, hstops, fun hstop' before' after' halike hstops' => ?_⟩
      obtain ⟨t', us', rfl, hlexeme, halike⟩ := Alike.cons_iff.mp halike
      rw [List.cons_append, splitUntil, ← step_eq_of_lexeme hlexeme, hstep]
      simp [hsame hstop' us' after' halike hstops']

/-- A token that neither stops a search nor has to do with groups. -/
def Neutral (stop : Token → Bool) (t : Token) : Prop :=
  stop t = false ∧ t.kind.closing? = none ∧ t.kind.isClosing = false ∧ t.kind ≠ .less ∧
    t.kind ≠ .greater

/-- The closers that are owed are those of brackets and angles. -/
def Owes (owed : List TokenKind) : Prop :=
  ∀ closer ∈ owed, closer.isClosing = true ∨ closer = .greater

/-- What closes a group closes one. -/
theorem isClosing_of_closing? {kind closer : TokenKind} (h : kind.closing? = some closer) :
    closer.isClosing = true := by
  unfold TokenKind.closing? at h
  split at h
  all_goals first
    | obtain rfl := Option.some.inj h
      rfl
    | simp at h

/-- What is owed after a step are closers. -/
theorem Owes.step (h : Owes (closer :: outer)) (hstep : step closer outer t = some owed) :
    Owes owed := by
  have houter : Owes outer := fun c hc => h c (List.mem_cons_of_mem closer hc)
  unfold Group.step at hstep
  split at hstep
  · obtain rfl := Option.some.inj hstep
    exact houter
  · split at hstep
    · simp at hstep
    · split at hstep
      · next inner hinner =>
        obtain rfl := Option.some.inj hstep
        exact List.forall_mem_cons.mpr ⟨.inl (isClosing_of_closing? hinner), h⟩
      · split at hstep
        · obtain rfl := Option.some.inj hstep
          exact List.forall_mem_cons.mpr ⟨.inr rfl, h⟩
        · obtain rfl := Option.some.inj hstep
          exact h

/-- What is owed after a token outside of every group are closers. -/
theorem Owes.enter {angles : Bool} (henter : enter angles t = some owed) : Owes owed := by
  unfold Group.enter at henter
  split at henter
  · obtain rfl := Option.some.inj henter
    exact List.forall_mem_singleton.mpr (.inr rfl)
  · split at henter
    · simp at henter
    · obtain rfl := Option.some.inj henter
      intro closer hcloser
      exact .inl (isClosing_of_closing? (Option.mem_toList.mp hcloser))

/-- A search passes over neutral tokens. -/
theorem splitUntil_neutral {stop : Token → Bool} {angles : Bool} {ts' : List Token}
    (howes : Owes owed)
    (hneutral : ∀ t ∈ ts', Neutral stop t) :
    splitUntil stop angles owed (ts' ++ ts) =
      (splitUntil stop angles owed ts).map fun (before, after) => (ts' ++ before, after) := by
  induction ts' with
  | nil => simp
  | cons t ts' ih =>
    obtain ⟨hstop, hopening, hclosing, hless, hgreater⟩ := hneutral t List.mem_cons_self
    have ih := ih fun t' ht' => hneutral t' (List.mem_cons_of_mem t ht')
    cases owed with
    | nil =>
      have henter : enter angles t = some [] := by simp [enter, hless, hclosing, hopening]
      rw [List.cons_append, splitUntil, hstop, henter]
      simp only [Bool.false_eq_true, if_false, Option.bind_eq_bind, Option.bind_some, ih]
      cases splitUntil stop angles [] ts <;> rfl
    | cons closer outer =>
      -- What is owed is a closer, and a neutral token is none.
      have hcloser : t.kind ≠ closer := by
        intro heq
        rcases howes closer List.mem_cons_self with h | h
        · rw [← heq, hclosing] at h
          exact absurd h (by decide)
        · exact hgreater (heq.trans h)
      have hstep : step closer outer t = some (closer :: outer) := by
        simp [step, hcloser, hclosing, hopening, hless]
      rw [List.cons_append, splitUntil, hstep]
      simp only [Option.bind_eq_bind, Option.bind_some, ih]
      cases splitUntil stop angles (closer :: outer) ts <;> rfl

/-- Neutral tokens in the middle of what a search takes may be replaced by others. -/
theorem splitUntil_replace {stop : Token → Bool} {angles : Bool}
    {before ms ms' qs rs after : List Token}
    (howes : Owes owed) (hms : ∀ t ∈ ms, Neutral stop t) (hms' : ∀ t ∈ ms', Neutral stop t)
    (h : splitUntil stop angles owed (before ++ (ms ++ qs)) = some (before ++ (ms ++ rs), after)) :
    splitUntil stop angles owed (before ++ (ms' ++ qs)) = some (before ++ (ms' ++ rs), after) := by
  induction before generalizing owed with
  | nil =>
    -- Here the tokens to be replaced begin, and the search passes over either.
    rw [List.nil_append, List.nil_append, splitUntil_neutral howes hms,
      Option.map_eq_some_iff] at h
    obtain ⟨⟨rs', after'⟩, hsplit, heq⟩ := h
    simp only [Prod.mk.injEq, List.append_cancel_left_eq] at heq
    obtain ⟨rfl, rfl⟩ := heq
    rw [List.nil_append, List.nil_append, splitUntil_neutral howes hms', hsplit]
    rfl
  | cons t before ih =>
    rw [List.cons_append, List.cons_append] at h ⊢
    cases owed with
    | nil =>
      simp only [splitUntil] at h ⊢
      split at h
      · simp at h
      · next hstop =>
        simp only [Option.bind_eq_bind, Option.bind_eq_some_iff, Option.some.injEq,
          Prod.mk.injEq, Prod.exists] at h
        obtain ⟨owed', henter, before₀, after₀, hsplit, heq, rfl⟩ := h
        obtain rfl := (List.cons.inj heq).2
        rw [if_neg hstop, henter]
        simp [ih (Owes.enter henter) hsplit]
    | cons closer outer =>
      simp only [splitUntil, Option.bind_eq_bind, Option.bind_eq_some_iff, Option.some.injEq,
        Prod.mk.injEq, Prod.exists] at h ⊢
      obtain ⟨owed', hstep, before₀, after₀, hsplit, heq, rfl⟩ := h
      obtain rfl := (List.cons.inj heq).2
      exact ⟨owed', hstep, _, _, ih (howes.step hstep) hsplit, rfl, rfl⟩

end Group

/-! ## Readers that pass over tokens -/

/-- The keywords that a marker and what follows it begin with. -/
def markWords : List Text := [utf8 "extern", utf8 "fn"]

/-- Two lists of tokens look the same to a reader that stops before them: they have the same
lexemes, or they begin with tokens of the same kind, which open no attribute, and with the same
text or both with a keyword that a marker can stand at. -/
def Follows (ts ts' : List Token) : Prop :=
  Alike ts ts' ∨ ∃ t us t' us', ts = t :: us ∧ ts' = t' :: us' ∧ t.kind = t'.kind ∧
    t'.kind ≠ .hash ∧ (t.content = t'.content ∨ t.content ∈ markWords ∧ t'.content ∈ markWords)

namespace Follows

variable {ts ts' : List Token}

/-- Tokens that look the same begin with tokens of the same kind. -/
theorem head_kind (h : Follows ts ts') :
    ts.head?.map Token.kind = ts'.head?.map Token.kind := by
  rcases h with halike | ⟨t, us, t', us', rfl, rfl, hkind, -⟩
  · cases ts with
    | nil => rw [Alike.nil_iff.mp halike]
    | cons t ts =>
      obtain ⟨t', us', rfl, hlexeme, -⟩ := Alike.cons_iff.mp halike
      simp [kind_eq_of_lexeme hlexeme]
  · simp [hkind]

/-- Tokens that look the same begin with the same keyword, if it is not one at a marker. -/
theorem isNone_acceptWord? (h : Follows ts ts') {word : Text} (hword : word ∉ markWords)
    (hnone : acceptWord? word ts = none) : acceptWord? word ts' = none := by
  rcases h with halike | ⟨t, us, t', us', rfl, rfl, hkind, -, hcontent⟩
  · cases ts with
    | nil =>
      rw [Alike.nil_iff.mp halike]
      rfl
    | cons t ts =>
      obtain ⟨t', us', rfl, hlexeme, -⟩ := Alike.cons_iff.mp halike
      simp only [acceptWord?, isWord_eq_of_lexeme hlexeme] at hnone ⊢
      split at hnone
      · simp at hnone
      · next hne => rw [if_neg hne]
  · rcases hcontent with heq | ⟨-, hmem⟩
    · have hsame : t.isWord word = t'.isWord word := by rw [Token.isWord, Token.isWord, hkind, heq]
      simp only [acceptWord?, hsame] at hnone ⊢
      split at hnone
      · simp at hnone
      · next hne => rw [if_neg hne]
    · have hne : t'.content ≠ word := fun heq => hword (heq ▸ hmem)
      simp [acceptWord?, Token.isWord, hne]

/-- Tokens that begin with the same lexeme look the same, if it opens no attribute. -/
theorem cons {t t' : Token} (h : t.lexeme = t'.lexeme) (hkind : t.kind ≠ .hash) :
    Follows (t :: ts) (t' :: ts') :=
  .inr ⟨t, ts, t', ts', rfl, rfl, kind_eq_of_lexeme h, kind_eq_of_lexeme h ▸ hkind,
    .inl (content_eq_of_lexeme h)⟩

end Follows

/-- The keyword in front of tokens is the first of them. -/
theorem acceptWord?_eq_some_iff {word : Text} {ts rest : List Token} {t : Token} :
    acceptWord? word ts = some (t, rest) ↔ ts = t :: rest ∧ t.isWord word = true := by
  cases ts with
  | nil => simp [acceptWord?]
  | cons u us =>
    simp only [acceptWord?, List.cons.injEq]
    split
    · next h =>
      simp only [Option.some.injEq, Prod.mk.injEq]
      constructor
      · rintro ⟨rfl, rfl⟩
        exact ⟨⟨rfl, rfl⟩, h⟩
      · exact fun h => h.1
    · next h =>
      simp only [reduceCtorEq, false_iff, not_and]
      rintro ⟨rfl, rfl⟩
      exact h

/-- The token of a kind in front of tokens is the first of them. -/
theorem accept?_eq_some_iff {kind : TokenKind} {ts rest : List Token} {t : Token} :
    accept? kind ts = some (t, rest) ↔ ts = t :: rest ∧ t.kind = kind := by
  cases ts with
  | nil => simp [accept?]
  | cons u us =>
    simp only [accept?, List.cons.injEq]
    split
    · next h =>
      simp only [Option.some.injEq, Prod.mk.injEq]
      constructor
      · rintro ⟨rfl, rfl⟩
        exact ⟨⟨rfl, rfl⟩, h⟩
      · exact fun h => h.1
    · next h =>
      simp only [reduceCtorEq, false_iff, not_and]
      rintro ⟨rfl, rfl⟩
      exact h

/-- There is no token of a kind in front when the first token is not one. -/
theorem accept?_eq_none_iff {kind : TokenKind} {ts : List Token} :
    accept? kind ts = none ↔ ts.head?.map Token.kind ≠ some kind := by
  cases ts with
  | nil => simp [accept?]
  | cons t ts => simp [accept?]

/-- The reader passes over tokens by their lexemes, and by the look of what it leaves. -/
def Steady (f : List Token → Option (List Token)) : Prop :=
  ∀ ⦃ts rest⦄, f ts = some rest → ∃ taken, ts = taken ++ rest ∧
    ∀ taken' rest', Alike taken taken' → Follows rest rest' → f (taken' ++ rest') = some rest'

namespace Steady

variable {f g : List Token → Option (List Token)} {ts ts' rest : List Token}

/-- A reader passes over tokens with the same lexemes alike. -/
theorem natural (hf : Steady f) (h : f ts = some rest) (halike : Alike ts ts') :
    ∃ rest', f ts' = some rest' ∧ Alike rest rest' := by
  obtain ⟨taken, rfl, hsame⟩ := hf h
  obtain ⟨taken', rest', rfl, htaken, hrest⟩ := Alike.append_iff.mp halike
  exact ⟨rest', hsame taken' rest' htaken (.inl hrest), hrest⟩

end Steady

/-- What a reader passes over is nothing, or begins with a word. -/
def Wordy (f : List Token → Option (List Token)) : Prop :=
  ∀ ⦃taken rest⦄, f (taken ++ rest) = some rest →
    taken = [] ∨ ∃ t us, taken = t :: us ∧ t.kind = .identifier

/-- A reader before one that passes over words is steady if both are. -/
theorem Steady.bind {f g : List Token → Option (List Token)} (hf : Steady f) (hg : Steady g)
    (hwordy : Wordy g) : Steady fun ts => (f ts).bind g := by
  intro ts rest h
  obtain ⟨middle, hmiddle, hrest⟩ := Option.bind_eq_some_iff.mp h
  obtain ⟨taken₁, rfl, hsame₁⟩ := hf hmiddle
  obtain ⟨taken₂, rfl, hsame₂⟩ := hg hrest
  refine ⟨taken₁ ++ taken₂, by rw [List.append_assoc], fun taken' rest' halike hfollows => ?_⟩
  obtain ⟨taken₁', taken₂', rfl, halike₁, halike₂⟩ := Alike.append_iff.mp halike
  have hlook : Follows (taken₂ ++ rest) (taken₂' ++ rest') := by
    rcases hwordy hrest with rfl | ⟨t, us, rfl, ht⟩
    · rw [Alike.nil_iff.mp halike₂]
      exact hfollows
    · obtain ⟨t', us', rfl, hlexeme, -⟩ := Alike.cons_iff.mp halike₂
      exact Follows.cons hlexeme (by rw [ht]; decide)
  show (f (taken₁' ++ taken₂' ++ rest')).bind g = some rest'
  rw [List.append_assoc, hsame₁ taken₁' _ halike₁ hlook]
  exact hsame₂ taken₂' rest' halike₂ hfollows

end CallConv
