import Mathlib
import CallConv.Declaration.Classify
import CallConv.Proofs.Token.Steady

/-!
# What the readers of declarations pass over

All readers that make up the grammar of declarations are steady. Those that stand before a marker
also leave off behind a token that the keyword of a marker can follow directly.
-/

namespace CallConv

/-- Whether the keyword of a marker can stand directly behind tokens of a kind. -/
def TokenKind.leads : TokenKind → Bool
  | identifier | bracketRight | parenRight | braceRight | greater | colon | equal => true
  | _ => false

/-- Some tokens are none, or end with one that the keyword of a marker can follow. -/
def Led (ts : List Token) : Prop := ts = [] ∨ ∃ t, [t] <:+ ts ∧ t.kind.leads = true

/-- Tokens may stand before others that a marker can follow. -/
theorem Led.append {ts ts' : List Token} (h : Led ts) (h' : Led ts') : Led (ts ++ ts') := by
  rcases h' with rfl | ⟨t, hsuffix, ht⟩
  · rw [List.append_nil]
    exact h
  · exact .inr ⟨t, hsuffix.trans (List.suffix_append ts ts'), ht⟩

/-- What a reader passes over can be followed by a marker. -/
def Leads (f : List Token → Option (List Token)) : Prop :=
  ∀ ⦃taken rest⦄, f (taken ++ rest) = some rest → Led taken

/-- One reader after the other leaves off where a marker can follow if both do. -/
theorem Leads.bind {f g : List Token → Option (List Token)} (hf : Leads f) (hg : Leads g)
    (hsf : Steady f) (hsg : Steady g) : Leads fun ts => (f ts).bind g := by
  intro taken rest h
  obtain ⟨middle, hmiddle, hrest⟩ := Option.bind_eq_some_iff.mp h
  obtain ⟨taken₂, rfl, -⟩ := hsg hrest
  obtain ⟨taken₁, heq, -⟩ := hsf hmiddle
  rw [← List.append_assoc] at heq
  obtain rfl := List.append_cancel_right heq
  rw [List.append_assoc] at hmiddle
  exact (hf hmiddle).append (hg hrest)

/-! ## Groups -/

/-- A group begins with the token that opens it. -/
theorem skipGroup?_eq_some_iff {ts rest : List Token} :
    skipGroup? ts = some rest ↔ ∃ t body closer, ts = t :: body ∧ t.kind.closing? = some closer ∧
      Group.close [closer] body = some rest := by
  cases ts with
  | nil => simp [skipGroup?]
  | cons t ts =>
    simp only [skipGroup?, Option.bind_eq_some_iff, List.cons.injEq]
    constructor
    · rintro ⟨closer, hcloser, hclose⟩
      exact ⟨t, ts, closer, ⟨rfl, rfl⟩, hcloser, hclose⟩
    · rintro ⟨t', body, closer, ⟨rfl, rfl⟩, hcloser, hclose⟩
      exact ⟨closer, hcloser, hclose⟩

/-- A group of angles begins with the token that opens it. -/
theorem skipAngles?_eq_some_iff {ts rest : List Token} :
    skipAngles? ts = some rest ↔ ∃ t body, ts = t :: body ∧ t.kind = .less ∧
      Group.close [.greater] body = some rest := by
  cases ts with
  | nil => simp [skipAngles?]
  | cons t ts =>
    simp only [skipAngles?, List.cons.injEq]
    constructor
    · intro h
      split at h
      · next ht => exact ⟨t, ts, ⟨rfl, rfl⟩, ht, h⟩
      · simp at h
    · rintro ⟨t', body, ⟨rfl, rfl⟩, ht, hclose⟩
      rw [if_pos ht]
      exact hclose

/-- A group is passed over by its lexemes. -/
theorem steady_skipGroup? : Steady skipGroup? := by
  intro ts rest h
  obtain ⟨t, body, closer, rfl, hcloser, hclose⟩ := skipGroup?_eq_some_iff.mp h
  obtain ⟨taken, rfl, -, hsame⟩ := Group.close_spec hclose
  refine ⟨t :: taken, rfl, fun taken' rest' halike _ => ?_⟩
  obtain ⟨t', us', rfl, hlexeme, halike⟩ := Alike.cons_iff.mp halike
  refine skipGroup?_eq_some_iff.mpr ⟨t', us' ++ rest', closer, rfl, ?_, hsame us' rest' halike⟩
  rw [← kind_eq_of_lexeme hlexeme]
  exact hcloser

/-- A group of angles is passed over by its lexemes. -/
theorem steady_skipAngles? : Steady skipAngles? := by
  intro ts rest h
  obtain ⟨t, body, rfl, ht, hclose⟩ := skipAngles?_eq_some_iff.mp h
  obtain ⟨taken, rfl, -, hsame⟩ := Group.close_spec hclose
  refine ⟨t :: taken, rfl, fun taken' rest' halike _ => ?_⟩
  obtain ⟨t', us', rfl, hlexeme, halike⟩ := Alike.cons_iff.mp halike
  refine skipAngles?_eq_some_iff.mpr ⟨t', us' ++ rest', rfl, ?_, hsame us' rest' halike⟩
  rw [← kind_eq_of_lexeme hlexeme]
  exact ht

/-- A group ends with the token that closes it. -/
theorem leads_skipGroup? : Leads skipGroup? := by
  intro taken rest h
  obtain ⟨t, body, closer, heq, hcloser, hclose⟩ := skipGroup?_eq_some_iff.mp h
  obtain ⟨taken', rfl, hlast, -⟩ := Group.close_spec hclose
  obtain ⟨last, hsuffix, hkind⟩ := hlast closer rfl
  rw [← List.cons_append] at heq
  obtain rfl := List.append_cancel_right heq
  refine .inr ⟨last, hsuffix.trans (List.suffix_cons t taken'), ?_⟩
  have hclosing := Group.isClosing_of_closing? hcloser
  rw [hkind]
  revert hclosing
  cases closer <;> decide

/-- A group of angles ends with the token that closes it. -/
theorem leads_skipAngles? : Leads skipAngles? := by
  intro taken rest h
  obtain ⟨t, body, heq, ht, hclose⟩ := skipAngles?_eq_some_iff.mp h
  obtain ⟨taken', rfl, hlast, -⟩ := Group.close_spec hclose
  obtain ⟨last, hsuffix, hkind⟩ := hlast .greater rfl
  rw [← List.cons_append] at heq
  obtain rfl := List.append_cancel_right heq
  refine .inr ⟨last, hsuffix.trans (List.suffix_cons t taken'), ?_⟩
  rw [hkind]
  rfl

/-- Angles that may be absent are passed over by their lexemes. -/
theorem steady_skipOptionalAngles? : Steady skipOptionalAngles? := by
  intro ts rest h
  unfold skipOptionalAngles? at h
  split at h
  · next hless =>
    obtain ⟨taken, rfl, hsame⟩ := steady_skipAngles? h
    refine ⟨taken, rfl, fun taken' rest' halike hfollows => ?_⟩
    have hangles := hsame taken' rest' halike hfollows
    obtain ⟨t, body, heq, ht, -⟩ := skipAngles?_eq_some_iff.mp hangles
    unfold skipOptionalAngles?
    rw [if_pos (by rw [heq, List.head?_cons, Option.map_some, ht])]
    exact hangles
  · next hless =>
    obtain rfl := Option.some.inj h
    refine ⟨[], rfl, fun taken' rest' halike hfollows => ?_⟩
    rw [Alike.nil_iff.mp halike, List.nil_append, skipOptionalAngles?,
      if_neg (by rw [← hfollows.head_kind]; exact hless)]

/-! ## The head of an item -/

/-- Some tokens begin with an attribute. -/
def StartsAttribute (ts : List Token) : Prop :=
  ∃ hash bracket body, ts = hash :: bracket :: body ∧ hash.kind = .hash ∧
    bracket.kind = .bracketLeft

/-- An attribute is a group in brackets behind a hash. -/
theorem skipAttributes?_attribute {hash bracket : Token} (body : List Token)
    (hhash : hash.kind = .hash) (hbracket : bracket.kind = .bracketLeft) :
    skipAttributes? (hash :: bracket :: body) =
      (Group.close [.bracketRight] body).bind skipAttributes? := by
  rw [skipAttributes?, if_pos ⟨hhash, hbracket⟩]
  split
  · next rest h => rw [h]; rfl
  · next h => rw [h]; rfl

/-- Tokens that begin with no attribute are left as they are. -/
theorem skipAttributes?_of_not {ts : List Token} (h : ¬ StartsAttribute ts) :
    skipAttributes? ts = some ts := by
  rcases ts with _ | ⟨hash, _ | ⟨bracket, body⟩⟩
  · rw [skipAttributes?]
    simp
  · rw [skipAttributes?]
    simp
  · rw [skipAttributes?, if_neg fun hkinds => h ⟨hash, bracket, body, rfl, hkinds.1, hkinds.2⟩]

/-- Tokens that look the same begin with an attribute alike. -/
theorem StartsAttribute.of_follows {ts ts' : List Token} (h : StartsAttribute ts')
    (hfollows : Follows ts ts') : StartsAttribute ts := by
  obtain ⟨hash, bracket, body, rfl, hhash, hbracket⟩ := h
  rcases hfollows with halike | ⟨t, us, t', us', rfl, heq, -, hne, -⟩
  · obtain ⟨t, us, rfl, hlexeme, halike⟩ := Alike.cons_iff.mp halike.symm
    obtain ⟨t', us', rfl, hlexeme', -⟩ := Alike.cons_iff.mp halike
    exact ⟨t, t', us', rfl, kind_eq_of_lexeme hlexeme ▸ hhash,
      kind_eq_of_lexeme hlexeme' ▸ hbracket⟩
  · obtain ⟨rfl, -⟩ := List.cons.inj heq
    exact absurd hhash hne

/-- Attributes are passed over by their lexemes, up to a bracket. -/
theorem skipAttributes?_spec {ts rest : List Token} (h : skipAttributes? ts = some rest) :
    ∃ taken, ts = taken ++ rest ∧ (taken = [] ∨ ∃ t, [t] <:+ taken ∧ t.kind = .bracketRight) ∧
      ∀ taken' rest', Alike taken taken' → Follows rest rest' →
        skipAttributes? (taken' ++ rest') = some rest' := by
  -- One attribute after the other leaves fewer tokens.
  induction hlen : ts.length using Nat.strong_induction_on generalizing ts with
  | _ n ih =>
    by_cases hattr : StartsAttribute ts
    · obtain ⟨hash, bracket, body, rfl, hhash, hbracket⟩ := hattr
      rw [skipAttributes?_attribute body hhash hbracket, Option.bind_eq_some_iff] at h
      obtain ⟨middle, hclose, hmiddle⟩ := h
      have hle := Group.length_le_of_close hclose
      simp only [List.length_cons] at hlen
      obtain ⟨taken₂, rfl, hlast₂, hsame₂⟩ := ih middle.length (by omega) hmiddle rfl
      obtain ⟨taken₁, rfl, hlast₁, hsame₁⟩ := Group.close_spec hclose
      refine ⟨hash :: bracket :: (taken₁ ++ taken₂), by simp, .inr ?_, ?_⟩
      · rcases hlast₂ with rfl | ⟨t, hsuffix, ht⟩
        · obtain ⟨t, hsuffix, ht⟩ := hlast₁ .bracketRight rfl
          refine ⟨t, ?_, ht⟩
          rw [List.append_nil]
          exact hsuffix.trans ⟨[hash, bracket], rfl⟩
        · exact ⟨t, hsuffix.trans ⟨hash :: bracket :: taken₁, rfl⟩, ht⟩
      · intro taken' rest' halike hfollows
        obtain ⟨hash', us, rfl, hlexeme, halike⟩ := Alike.cons_iff.mp halike
        obtain ⟨bracket', us', rfl, hlexeme', halike⟩ := Alike.cons_iff.mp halike
        obtain ⟨taken₁', taken₂', rfl, halike₁, halike₂⟩ := Alike.append_iff.mp halike
        rw [List.cons_append, List.cons_append, List.append_assoc,
          skipAttributes?_attribute _ (kind_eq_of_lexeme hlexeme ▸ hhash)
            (kind_eq_of_lexeme hlexeme' ▸ hbracket), hsame₁ _ _ halike₁]
        exact hsame₂ taken₂' rest' halike₂ hfollows
    · rw [skipAttributes?_of_not hattr] at h
      obtain rfl := Option.some.inj h
      refine ⟨[], rfl, .inl rfl, fun taken' rest' halike hfollows => ?_⟩
      rw [Alike.nil_iff.mp halike]
      exact skipAttributes?_of_not fun hattr' => hattr (hattr'.of_follows hfollows)

/-- Attributes are passed over by their lexemes. -/
theorem steady_skipAttributes? : Steady skipAttributes? := by
  intro ts rest h
  obtain ⟨taken, heq, -, hsame⟩ := skipAttributes?_spec h
  exact ⟨taken, heq, hsame⟩

/-- Attributes end with a bracket. -/
theorem leads_skipAttributes? : Leads skipAttributes? := by
  intro taken rest h
  obtain ⟨taken', heq, hlast, -⟩ := skipAttributes?_spec h
  obtain rfl := List.append_cancel_right heq
  rcases hlast with rfl | ⟨t, hsuffix, ht⟩
  · exact .inl rfl
  · exact .inr ⟨t, hsuffix, by rw [ht]; rfl⟩

/-- The token of a keyword is an identifier. -/
theorem kind_of_isWord {t : Token} {word : Text} (h : t.isWord word = true) :
    t.kind = .identifier := by
  simp only [Token.isWord, Bool.and_eq_true, beq_iff_eq] at h
  exact h.1

/-- The token of a keyword has its text. -/
theorem content_of_isWord {t : Token} {word : Text} (h : t.isWord word = true) :
    t.content = word := by
  simp only [Token.isWord, Bool.and_eq_true, beq_iff_eq] at h
  exact h.2

/-- A reader that passes over a keyword with what belongs to it, and otherwise over nothing. -/
def afterWord (word : Text) (f : List Token → Option (List Token)) (ts : List Token) :
    Option (List Token) :=
  match acceptWord? word ts with
  | some (_, rest) => f rest
  | none => some ts

/-- What belongs to a keyword is passed over behind it. -/
theorem afterWord_cons {word : Text} {f : List Token → Option (List Token)} {t : Token}
    (ts : List Token) (ht : t.isWord word = true) : afterWord word f (t :: ts) = f ts := by
  simp [afterWord, acceptWord?, ht]

/-- Without the keyword nothing is passed over. -/
theorem afterWord_of_none {word : Text} {f : List Token → Option (List Token)} {ts : List Token}
    (h : acceptWord? word ts = none) : afterWord word f ts = some ts := by
  simp [afterWord, h]

/-- A keyword with what belongs to it is passed over by its lexemes. -/
theorem Steady.afterWord {word : Text} {f : List Token → Option (List Token)}
    (hword : word ∉ markWords) (hf : Steady f) : Steady (afterWord word f) := by
  intro ts rest h
  cases haccept : acceptWord? word ts with
  | none =>
    rw [afterWord_of_none haccept] at h
    obtain rfl := Option.some.inj h
    refine ⟨[], rfl, fun taken' rest' halike hfollows => ?_⟩
    rw [Alike.nil_iff.mp halike]
    exact afterWord_of_none (hfollows.isNone_acceptWord? hword haccept)
  | some found =>
    obtain ⟨t, us⟩ := found
    obtain ⟨rfl, ht⟩ := acceptWord?_eq_some_iff.mp haccept
    rw [afterWord_cons us ht] at h
    obtain ⟨taken, rfl, hsame⟩ := hf h
    refine ⟨t :: taken, rfl, fun taken' rest' halike hfollows => ?_⟩
    obtain ⟨t', us', rfl, hlexeme, halike⟩ := Alike.cons_iff.mp halike
    rw [List.cons_append, afterWord_cons _ (by rw [← isWord_eq_of_lexeme hlexeme]; exact ht)]
    exact hsame us' rest' halike hfollows

/-- What is passed over begins with the keyword. -/
theorem wordy_afterWord {word : Text} {f : List Token → Option (List Token)} (hf : Steady f) :
    Wordy (afterWord word f) := by
  intro taken rest h
  cases haccept : acceptWord? word (taken ++ rest) with
  | none =>
    rw [afterWord_of_none haccept, Option.some.injEq, List.append_left_eq_self] at h
    exact .inl h
  | some found =>
    obtain ⟨t, us⟩ := found
    obtain ⟨heq, ht⟩ := acceptWord?_eq_some_iff.mp haccept
    rw [heq, afterWord_cons us ht] at h
    obtain ⟨taken', rfl, -⟩ := hf h
    rw [← List.cons_append] at heq
    obtain rfl := List.append_cancel_right heq
    exact .inr ⟨t, taken', rfl, kind_of_isWord ht⟩

/-- A marker can follow a keyword with what belongs to it. -/
theorem Leads.afterWord {word : Text} {f : List Token → Option (List Token)} (hf : Leads f)
    (hsteady : Steady f) : Leads (afterWord word f) := by
  intro taken rest h
  cases haccept : acceptWord? word (taken ++ rest) with
  | none =>
    rw [afterWord_of_none haccept, Option.some.injEq, List.append_left_eq_self] at h
    exact .inl h
  | some found =>
    obtain ⟨t, us⟩ := found
    obtain ⟨heq, ht⟩ := acceptWord?_eq_some_iff.mp haccept
    rw [heq, afterWord_cons us ht] at h
    obtain ⟨taken', rfl, -⟩ := hsteady h
    rw [← List.cons_append] at heq
    obtain rfl := List.append_cancel_right heq
    have hled : Led [t] := .inr ⟨t, List.suffix_rfl, by rw [kind_of_isWord ht]; rfl⟩
    exact hled.append (hf h)

/-- Passing over nothing is steady. -/
theorem steady_some : Steady some := by
  intro ts rest h
  obtain rfl := Option.some.inj h
  refine ⟨[], rfl, fun taken' rest' halike _ => ?_⟩
  rw [Alike.nil_iff.mp halike, List.nil_append]

/-- A marker can follow nothing. -/
theorem leads_some : Leads some := by
  intro taken rest h
  rw [Option.some.injEq, List.append_left_eq_self] at h
  exact .inl h

/-- A keyword that may stand in front is passed over with nothing that belongs to it. -/
theorem some_skipWord (word : Text) (ts : List Token) :
    some (skipWord word ts) = afterWord word some ts := by
  unfold skipWord afterWord
  split <;> simp_all

/-- A group in parentheses, if one follows. -/
def skipOptionalParens? (ts : List Token) : Option (List Token) :=
  if startsWithKind .parenLeft ts then skipGroup? ts else some ts

/-- A visibility is a keyword and a group in parentheses, if one follows. -/
theorem skipVisibility?_eq : skipVisibility? = afterWord (utf8 "pub") skipOptionalParens? := by
  funext ts
  unfold skipVisibility? afterWord
  split <;> simp_all [skipOptionalParens?]

/-- Parentheses that may be absent are passed over by their lexemes. -/
theorem steady_skipOptionalParens? : Steady skipOptionalParens? := by
  intro ts rest h
  unfold skipOptionalParens? startsWithKind at h
  split at h
  · next hparen =>
    obtain ⟨taken, rfl, hsame⟩ := steady_skipGroup? h
    refine ⟨taken, rfl, fun taken' rest' halike hfollows => ?_⟩
    -- The parenthesis is among what is passed over, so that it is alike on the other side.
    have hne : taken ≠ [] := by
      rintro rfl
      obtain ⟨t, body, closer, heq, -, hclose⟩ := skipGroup?_eq_some_iff.mp h
      have := Group.length_le_of_close hclose
      rw [List.nil_append] at heq
      rw [heq, List.length_cons] at this
      omega
    obtain ⟨t, us, rfl⟩ := List.exists_cons_of_ne_nil hne
    obtain ⟨t', us', rfl, hlexeme, -⟩ := Alike.cons_iff.mp halike
    unfold skipOptionalParens? startsWithKind
    rw [if_pos (by simpa [kind_eq_of_lexeme hlexeme] using hparen)]
    exact hsame (t' :: us') rest' halike hfollows
  · next hparen =>
    obtain rfl := Option.some.inj h
    refine ⟨[], rfl, fun taken' rest' halike hfollows => ?_⟩
    rw [Alike.nil_iff.mp halike, List.nil_append]
    unfold skipOptionalParens? startsWithKind
    rw [if_neg (by rw [← hfollows.head_kind]; exact hparen)]

/-- A marker can follow parentheses. -/
theorem leads_skipOptionalParens? : Leads skipOptionalParens? := by
  intro taken rest h
  unfold skipOptionalParens? at h
  split at h
  · exact leads_skipGroup? h
  · exact leads_some h

/-- A reader that passes over what leads to a marker. -/
structure IsHead (f : List Token → Option (List Token)) : Prop where
  /-- It passes over tokens by their lexemes. -/
  steady : Steady f
  /-- A marker can follow what it passes over. -/
  leads : Leads f

/-- What leads to a marker may end with a keyword and what belongs to it. -/
theorem IsHead.bind {f g : List Token → Option (List Token)} {word : Text} (hf : IsHead f)
    (hg : IsHead g) (hword : word ∉ markWords) :
    IsHead fun ts => (f ts).bind (afterWord word g) where
  steady := hf.steady.bind (hg.steady.afterWord hword) (wordy_afterWord hg.steady)
  leads := hf.leads.bind (hg.leads.afterWord hg.steady) hf.steady (hg.steady.afterWord hword)

/-- Nothing leads to a marker at the start. -/
theorem isHead_some : IsHead some := ⟨steady_some, leads_some⟩

/-- What leads to a marker may end with a keyword. -/
theorem IsHead.word {f : List Token → Option (List Token)} {word : Text} (hf : IsHead f)
    (hword : word ∉ markWords) : IsHead fun ts => (f ts).bind (afterWord word some) :=
  hf.bind isHead_some hword

/-- Attributes lead to a marker. -/
theorem isHead_skipAttributes? : IsHead skipAttributes? :=
  ⟨steady_skipAttributes?, leads_skipAttributes?⟩

/-- The head of an item leads to a marker. -/
theorem isHead_skipItemHead? : IsHead Shape.skipItemHead? := by
  unfold Shape.skipItemHead?
  rw [skipVisibility?_eq]
  exact isHead_skipAttributes?.bind ⟨steady_skipOptionalParens?, leads_skipOptionalParens?⟩
    (by decide)

/-- The lifetimes of a function pointer type are a keyword with angles. -/
theorem skipForAngles?_eq : Shape.skipForAngles? = afterWord (utf8 "for") skipAngles? := by
  funext ts
  unfold Shape.skipForAngles? afterWord
  split <;> simp_all

/-! ## Readers that search for a token -/

/-- A search for a token outside of every group treats tokens with the same lexemes alike. -/
theorem splitUntil?_natural {stop : Token → Bool} {angles : Bool}
    {ts ts' before after : List Token}
    (hstop : ∀ t t' : Token, t.lexeme = t'.lexeme → stop t = stop t')
    (h : splitUntil? stop angles ts = some (before, after)) (halike : Alike ts ts') :
    ∃ before' after', splitUntil? stop angles ts' = some (before', after') ∧
      Alike before before' ∧ Alike after after' := by
  obtain ⟨rfl, hstops, hsame⟩ := Group.splitUntil_spec h
  obtain ⟨before', after', rfl, hbefore, hafter⟩ := Alike.append_iff.mp halike
  refine ⟨before', after', hsame hstop before' after' hbefore ?_, hbefore, hafter⟩
  rcases hstops with rfl | ⟨t, rest, rfl, ht⟩
  · exact .inl (Alike.nil_iff.mp hafter)
  · obtain ⟨t', us', rfl, hlexeme, -⟩ := Alike.cons_iff.mp hafter
    exact .inr ⟨t', us', rfl, hstop t t' hlexeme ▸ ht⟩

/-- What follows a token of a kind up to a stop, which may be absent but not empty. -/
def skipBehind? (kind : TokenKind) (stop : Token → Bool) (angles : Bool) (ts : List Token) :
    Option (List Token) :=
  match accept? kind ts with
  | none => some ts
  | some (_, rest) => do
    let (taken, rest) ← splitUntil? stop angles rest
    guard (!taken.isEmpty)
    some rest

/-! ## Lists of tokens that look the same -/

/-- The reader treats related lists of tokens alike. -/
def Respects (R : List Token → List Token → Prop) (f : List Token → Option (List Token)) : Prop :=
  ∀ ⦃ts rest ts'⦄, f ts = some rest → R ts ts' → ∃ rest', f ts' = some rest' ∧ R rest rest'

/-- Related lists of tokens look the same to the readers: they begin with the same lexeme, and the
tokens behind it, behind a group and behind a search are related again. -/
structure Likeness (R : List Token → List Token → Prop) : Prop where
  /-- The first tokens have the same lexeme. -/
  head : ∀ ⦃ts ts'⦄, R ts ts' → ts.head?.map Token.lexeme = ts'.head?.map Token.lexeme
  /-- The tokens behind the first ones are related, unless these open brackets. -/
  tail : ∀ ⦃t t' ts ts'⦄, R (t :: ts) (t' :: ts') → t.kind.closing? = none → R ts ts'
  /-- The tokens behind brackets are related. -/
  group : Respects R skipGroup?
  /-- The tokens behind angles are related. -/
  angles : Respects R skipAngles?
  /-- The tokens before and behind the end of a search are related. -/
  search : ∀ {stop : Token → Bool} {angles : Bool} {ts ts' before after : List Token},
    (∀ t t' : Token, t.lexeme = t'.lexeme → stop t = stop t') →
    splitUntil? stop angles ts = some (before, after) → R ts ts' →
    ∃ before' after', splitUntil? stop angles ts' = some (before', after') ∧
      R before before' ∧ R after after'

/-- Tokens with the same lexemes look the same. -/
theorem likeness_alike : Likeness Alike where
  head ts ts' h := by
    rw [← List.head?_map, ← List.head?_map, h]
  tail t t' ts ts' h _ := (List.cons.inj h).2
  group _ _ _ h halike := steady_skipGroup?.natural h halike
  angles _ _ _ h halike := steady_skipAngles?.natural h halike
  search := splitUntil?_natural

namespace Likeness

variable {R : List Token → List Token → Prop} {ts ts' rest : List Token} {t : Token}
  {kind : TokenKind} {word : Text} {stop : Token → Bool} {angles : Bool}

/-- Related tokens begin with tokens of the same kind. -/
theorem head_kind (hR : Likeness R) (h : R ts ts') :
    ts.head?.map Token.kind = ts'.head?.map Token.kind := by
  have hkind := congrArg (Option.map Lexeme.kind) (hR.head h)
  rwa [Option.map_map, Option.map_map] at hkind

/-- Behind a first token stand related tokens, behind a token with the same lexeme. -/
theorem cons (hR : Likeness R) (h : R (t :: rest) ts') :
    ∃ t' rest', ts' = t' :: rest' ∧ t.lexeme = t'.lexeme ∧
      (t.kind.closing? = none → R rest rest') := by
  cases ts' with
  | nil => simpa using hR.head h
  | cons t' rest' => exact ⟨t', rest', rfl, by simpa using hR.head h, hR.tail h⟩

/-- Related lists of tokens are empty together. -/
theorem isEmpty_eq (hR : Likeness R) (h : R ts ts') : ts.isEmpty = ts'.isEmpty := by
  have hkind := hR.head_kind h
  cases ts <;> cases ts' <;> simp_all

/-- Related tokens begin with a token of a kind alike. -/
theorem startsWithKind_eq (hR : Likeness R) (h : R ts ts') :
    startsWithKind kind ts = startsWithKind kind ts' := by
  rw [startsWithKind, startsWithKind, hR.head_kind h]

/-- A first token of a kind is one in related tokens. -/
theorem accept? (hR : Likeness R) (hkind : kind.closing? = none)
    (h : accept? kind ts = some (t, rest)) (hts : R ts ts') :
    ∃ t' rest', CallConv.accept? kind ts' = some (t', rest') ∧ t.lexeme = t'.lexeme ∧
      R rest rest' := by
  obtain ⟨rfl, ht⟩ := accept?_eq_some_iff.mp h
  obtain ⟨t', rest', rfl, hlexeme, hrest⟩ := hR.cons hts
  exact ⟨t', rest', accept?_eq_some_iff.mpr ⟨rfl, kind_eq_of_lexeme hlexeme ▸ ht⟩, hlexeme,
    hrest (ht ▸ hkind)⟩

/-- A first keyword is one in related tokens. -/
theorem acceptWord? (hR : Likeness R) (h : acceptWord? word ts = some (t, rest))
    (hts : R ts ts') :
    ∃ t' rest', CallConv.acceptWord? word ts' = some (t', rest') ∧ R rest rest' := by
  obtain ⟨rfl, ht⟩ := acceptWord?_eq_some_iff.mp h
  obtain ⟨t', rest', rfl, hlexeme, hrest⟩ := hR.cons hts
  exact ⟨t', rest',
    acceptWord?_eq_some_iff.mpr ⟨rfl, isWord_eq_of_lexeme hlexeme word ▸ ht⟩,
    hrest (by rw [kind_of_isWord ht]; rfl)⟩

/-- Related tokens lack a first token of a kind alike. -/
theorem accept?_eq_none (hR : Likeness R) (h : CallConv.accept? kind ts = none) (hts : R ts ts') :
    CallConv.accept? kind ts' = none := by
  rw [accept?_eq_none_iff] at h ⊢
  rw [← hR.head_kind hts]
  exact h

/-- What follows a token of a kind is read of related tokens alike. -/
theorem skipBehind? (hR : Likeness R) (hkind : kind.closing? = none)
    (hstop : ∀ t t' : Token, t.lexeme = t'.lexeme → stop t = stop t') :
    Respects R (skipBehind? kind stop angles) := by
  intro ts rest ts' h hts
  unfold CallConv.skipBehind? at h ⊢
  split at h
  · next hnone =>
    obtain rfl := Option.some.inj h
    rw [hR.accept?_eq_none hnone hts]
    exact ⟨ts', rfl, hts⟩
  · next t us hsome =>
    simp only [Option.bind_eq_bind, Option.bind_eq_some_iff, Prod.exists] at h
    obtain ⟨taken, after, hsplit, ⟨⟩, hguard, hrest⟩ := h
    obtain rfl := Option.some.inj hrest
    obtain ⟨t', us', hsome', -, hus⟩ := hR.accept? hkind hsome hts
    obtain ⟨taken', after', hsplit', htaken, hafter⟩ := hR.search hstop hsplit hus
    rw [hsome']
    refine ⟨after', ?_, hafter⟩
    simp only [hsplit', Option.bind_eq_bind, Option.bind_some, ← hR.isEmpty_eq htaken, hguard]

/-- The return type of a function pointer type is read of related tokens alike. -/
theorem skipReturnType? (hR : Likeness R) : Respects R Shape.skipReturnType? := by
  show Respects R (CallConv.skipBehind? .arrow (fun _ => false) true)
  exact hR.skipBehind? rfl fun _ _ _ => rfl

/-- The value of a constant or static is read of related tokens alike. -/
theorem skipValue? (hR : Likeness R) : Respects R Shape.skipValue? := by
  show Respects R (CallConv.skipBehind? .equal Shape.isSemicolon false)
  exact hR.skipBehind? rfl fun _ _ h => congrArg (fun l : Lexeme => l.kind == .semicolon) h

end Likeness

end CallConv
