import Mathlib
import CallConv.Proofs.Declaration.Flatten
import CallConv.Proofs.Declaration.Likeness

/-!
# Tokens outside of brackets

What stands inside of brackets matters to no reader of declarations as long as it is balanced.
`SameOutside` relates tokens that have the same lexemes outside of brackets, and tokens that are
related by it look the same (`likeness_sameOutside`). Among balanced tokens, others that have to do
with no bracket stand between balanced tokens or inside of brackets (`mem_elements_or_encloses`),
and inside of brackets they may be replaced by any others (`SameOutside.of_encloses`).
-/

namespace CallConv

open scoped Computability
open Grammar

/-- Two lists of tokens have the same lexemes outside of brackets, and balanced tokens inside. -/
inductive SameOutside : List Token → List Token → Prop
  | nil : SameOutside [] []
  | token {t t' : Token} {ts ts' : List Token} (hlexeme : t.lexeme = t'.lexeme)
      (hplain : Scope.value.isPlain t.kind = true) (h : SameOutside ts ts') :
      SameOutside (t :: ts) (t' :: ts')
  | group {first first' last last' : Token} {body body' ts ts' : List Token}
      (hfirst : first.lexeme = first'.lexeme) (hlast : last.lexeme = last'.lexeme)
      (hclosing : first.kind.closing? = some last.kind) (hbody : body ∈ (element .value)∗)
      (hbody' : body' ∈ (element .value)∗) (h : SameOutside ts ts') :
      SameOutside (first :: (body ++ last :: ts)) (first' :: (body' ++ last' :: ts'))

namespace SameOutside

variable {ts ts' us us' rest : List Token} {t t' : Token}

/-- The first tokens have the same lexeme. -/
theorem head (h : SameOutside ts ts') :
    ts.head?.map Token.lexeme = ts'.head?.map Token.lexeme := by
  cases h with
  | nil => rfl
  | token hlexeme => exact congrArg some hlexeme
  | group hfirst => exact congrArg some hfirst

/-- The tokens behind the first ones are the same outside of brackets, unless these open
brackets. -/
theorem tail (h : SameOutside (t :: ts) (t' :: ts')) (ht : t.kind.closing? = none) :
    SameOutside ts ts' := by
  cases h with
  | token _ _ h => exact h
  | group _ _ hclosing => simp [ht] at hclosing

/-- A group around balanced tokens is an element of every scope. -/
theorem element_group {first last : Token} {body : List Token}
    (hclosing : first.kind.closing? = some last.kind) (hbody : body ∈ (element .value)∗)
    (scope : Scope) : Element scope (first :: (body ++ [last])) := by
  obtain ⟨es, rfl, hes⟩ := Language.mem_kstar.mp hbody
  exact .group hclosing hes

/-- Behind a group the tokens are the same outside of brackets. -/
theorem respects_skipGroup? : Respects SameOutside skipGroup? := by
  intro ts rest ts' h hts
  cases hts with
  | nil => simp [skipGroup?] at h
  | token hlexeme hplain _ =>
    simp only [Scope.isPlain, Bool.and_eq_true, Option.isNone_iff_eq_none] at hplain
    simp [skipGroup?, hplain.1.1] at h
  | @group first first' last last' body body' us us' hfirst hlast hclosing hbody hbody' hus =>
    have hskip : ∀ {first last : Token} {body us : List Token},
        first.kind.closing? = some last.kind → body ∈ (element .value)∗ →
        skipGroup? (first :: (body ++ last :: us)) = some us := by
      intro first last body us hclosing hbody
      obtain ⟨es, rfl, hes⟩ := Language.mem_kstar.mp hbody
      rw [← Group.upTo_of_closing? hclosing] at hes
      rw [skipGroup?, hclosing, Option.bind_some, List.append_cons]
      exact Group.close_inside (.inl (Group.isClosing_of_closing? hclosing))
        (mem_inside_iff.mpr ⟨es, last, rfl, rfl, hes⟩) us
    rw [hskip hclosing hbody] at h
    obtain rfl := Option.some.inj h
    rw [kind_eq_of_lexeme hfirst, kind_eq_of_lexeme hlast] at hclosing
    exact ⟨us', hskip hclosing hbody', hus⟩

/-- Between angles a token of a value leaves only angles to be closed. -/
theorem eq_greater_of_step {outer owed : List TokenKind}
    (houter : ∀ closer ∈ outer, closer = .greater)
    (ht : Scope.value.isPlain t.kind = true) (h : Group.step .greater outer t = some owed) :
    ∀ closer ∈ owed, closer = .greater := by
  simp only [Scope.isPlain, Bool.and_eq_true, Option.isNone_iff_eq_none] at ht
  rcases Group.step_cases h with ⟨-, rfl⟩ | ⟨inner, hinner, -⟩ | ⟨-, -, rfl⟩ | ⟨-, rfl⟩
  · exact houter
  · simp [ht.1.1] at hinner
  · simpa using houter
  · simpa using houter

/-- A token of a value opens nothing but angles. -/
theorem eq_greater_of_enter {angles : Bool} {owed : List TokenKind}
    (ht : Scope.value.isPlain t.kind = true) (h : Group.enter angles t = some owed) :
    ∀ closer ∈ owed, closer = .greater := by
  simp only [Scope.isPlain, Bool.and_eq_true, Option.isNone_iff_eq_none] at ht
  unfold Group.enter at h
  split at h
  · obtain rfl := Option.some.inj h
    simp
  · split at h
    · simp at h
    · obtain rfl := Option.some.inj h
      simp [ht.1.1]

/-- Where only angles have to be closed, a group is passed over. -/
theorem close_group {first last : Token} {body us : List Token} {outer : List TokenKind}
    (hclosing : first.kind.closing? = some last.kind) (hbody : body ∈ (element .value)∗) :
    Group.close (.greater :: outer) (first :: (body ++ last :: us)) =
      Group.close (.greater :: outer) us := by
  have hpass : Group.close (.greater :: outer) (first :: (body ++ [last]) ++ us) =
      Group.close (.greater :: outer) us :=
    Group.close_element (.inr rfl) (element_group hclosing hbody (.upTo .greater)) us
  simpa using hpass

/-- Angles are closed at the same place. -/
theorem exists_close {owed : List TokenKind} (howed : ∀ closer ∈ owed, closer = .greater)
    (h : Group.close owed ts = some rest) (hts : SameOutside ts ts') :
    ∃ rest', Group.close owed ts' = some rest' ∧ SameOutside rest rest' := by
  induction hts generalizing owed with
  | nil =>
    cases owed with
    | nil =>
      obtain rfl := Option.some.inj h
      exact ⟨[], rfl, .nil⟩
    | cons closer outer => simp [Group.close] at h
  | @token t t' ts ts' hlexeme hplain hts ih =>
    cases owed with
    | nil =>
      obtain rfl := Option.some.inj h
      exact ⟨t' :: ts', rfl, .token hlexeme hplain hts⟩
    | cons closer outer =>
      obtain ⟨rfl, houter⟩ := List.forall_mem_cons.mp howed
      rw [Group.close, Option.bind_eq_some_iff] at h
      obtain ⟨owed, hstep, hclose⟩ := h
      obtain ⟨rest', hclose', hrest⟩ := ih (eq_greater_of_step houter hplain hstep) hclose
      exact ⟨rest', by rw [Group.close, ← Group.step_eq_of_lexeme hlexeme, hstep]; exact hclose',
        hrest⟩
  | @group first first' last last' body body' ts ts' hfirst hlast hclosing hbody hbody' hts ih =>
    cases owed with
    | nil =>
      obtain rfl := Option.some.inj h
      exact ⟨_, rfl, .group hfirst hlast hclosing hbody hbody' hts⟩
    | cons closer outer =>
      obtain ⟨rfl, -⟩ := List.forall_mem_cons.mp howed
      rw [close_group hclosing hbody] at h
      rw [kind_eq_of_lexeme hfirst, kind_eq_of_lexeme hlast] at hclosing
      rw [close_group hclosing hbody']
      exact ih howed h

/-- A search passes over a group unless it stops at once. -/
theorem splitUntil_group {stop : Token → Bool} {angles : Bool} {owed : List TokenKind}
    {first last : Token} {body : List Token} (us : List Token)
    (howed : ∀ closer ∈ owed, closer = .greater) (hstop : owed = [] → stop first = false)
    (hclosing : first.kind.closing? = some last.kind) (hbody : body ∈ (element .value)∗) :
    Group.splitUntil stop angles owed (first :: (body ++ last :: us)) =
      (Group.splitUntil stop angles owed us).map fun found =>
        (first :: (body ++ last :: found.1), found.2) := by
  cases owed with
  | nil =>
    have hproper : first :: (body ++ [last]) ∈ proper stop (.search angles) :=
      ⟨element_group hclosing hbody _, by simpa using hstop⟩
    simpa using Group.splitUntil_element hproper us
  | cons closer outer =>
    obtain ⟨rfl, -⟩ := List.forall_mem_cons.mp howed
    rw [Group.splitUntil_eq, close_group hclosing hbody, Group.splitUntil_eq stop angles _ us]
    cases hclose : Group.close (.greater :: outer) us with
    | none => rfl
    | some rest =>
      have hle := Group.length_le_of_close hclose
      have htake : (first :: (body ++ last :: us)).take
          ((first :: (body ++ last :: us)).length - rest.length) =
          first :: (body ++ last :: us.take (us.length - rest.length)) := by
        have hlength : (first :: (body ++ last :: us)).length - rest.length =
            (first :: (body ++ [last])).length + (us.length - rest.length) := by
          simp only [List.length_cons, List.length_append, List.length_nil]
          omega
        have happend : first :: (body ++ last :: us) = first :: (body ++ [last]) ++ us := by simp
        rw [hlength, happend, List.take_length_add_append]
        simp
      rw [Option.bind_some, Option.bind_some, htake, Option.map_map]
      congr 1
      funext found
      simp

/-- The tokens before and behind the end of a search are the same outside of brackets. -/
theorem exists_splitUntil {stop : Token → Bool} {angles : Bool} {owed : List TokenKind}
    {before after : List Token}
    (hstop : ∀ t t' : Token, t.lexeme = t'.lexeme → stop t = stop t')
    (howed : ∀ closer ∈ owed, closer = .greater)
    (h : Group.splitUntil stop angles owed ts = some (before, after)) (hts : SameOutside ts ts') :
    ∃ before' after', Group.splitUntil stop angles owed ts' = some (before', after') ∧
      SameOutside before before' ∧ SameOutside after after' := by
  induction hts generalizing owed before with
  | nil =>
    cases owed with
    | nil =>
      obtain ⟨rfl, rfl⟩ : [] = before ∧ [] = after := by simpa [Group.splitUntil] using h
      exact ⟨[], [], rfl, .nil, .nil⟩
    | cons closer outer => simp [Group.splitUntil] at h
  | @token t t' ts ts' hlexeme hplain hts ih =>
    -- Behind the token the search goes on with what has to be closed then.
    cases owed with
    | nil =>
      rw [Group.splitUntil, hstop t t' hlexeme] at h
      rw [Group.splitUntil]
      split at h
      · next ht =>
        obtain ⟨rfl, rfl⟩ := Prod.mk.inj (Option.some.inj h)
        rw [if_pos ht]
        exact ⟨[], t' :: ts', rfl, .nil, .token hlexeme hplain hts⟩
      · next ht =>
        simp only [Option.bind_eq_bind, Option.bind_eq_some_iff, Option.some.injEq, Prod.mk.injEq,
          Prod.exists] at h
        obtain ⟨owed, henter, before, after, hsplit, rfl, rfl⟩ := h
        obtain ⟨before', after', hsplit', hbefore, hafter⟩ :=
          ih (eq_greater_of_enter hplain henter) hsplit
        rw [if_neg ht, ← Group.enter_eq_of_lexeme angles hlexeme, henter]
        exact ⟨t' :: before', after', by simp [hsplit'], .token hlexeme hplain hbefore, hafter⟩
    | cons closer outer =>
      obtain ⟨rfl, houter⟩ := List.forall_mem_cons.mp howed
      simp only [Group.splitUntil, Option.bind_eq_bind, Option.bind_eq_some_iff,
        Option.some.injEq, Prod.mk.injEq, Prod.exists] at h
      obtain ⟨owed, hstep, before, after, hsplit, rfl, rfl⟩ := h
      obtain ⟨before', after', hsplit', hbefore, hafter⟩ :=
        ih (eq_greater_of_step houter hplain hstep) hsplit
      rw [Group.splitUntil, ← Group.step_eq_of_lexeme hlexeme, hstep]
      exact ⟨t' :: before', after', by simp [hsplit'], .token hlexeme hplain hbefore, hafter⟩
  | @group first first' last last' body body' ts ts' hfirst hlast hclosing hbody hbody' hts ih =>
    have hclosing' : first'.kind.closing? = some last'.kind := by
      rw [← kind_eq_of_lexeme hfirst, ← kind_eq_of_lexeme hlast]
      exact hclosing
    by_cases hends : owed = [] ∧ stop first = true
    · obtain ⟨rfl, hfirstStop⟩ := hends
      obtain ⟨rfl, rfl⟩ : [] = before ∧ first :: (body ++ last :: ts) = after := by
        simpa [Group.splitUntil, hfirstStop] using h
      rw [hstop first first' hfirst] at hfirstStop
      refine ⟨[], _, by rw [Group.splitUntil, if_pos hfirstStop], .nil, ?_⟩
      exact .group hfirst hlast hclosing hbody hbody' hts
    · have hgoes : owed = [] → stop first = false := fun hnil => by simpa [hnil] using hends
      rw [splitUntil_group ts howed hgoes hclosing hbody, Option.map_eq_some_iff] at h
      obtain ⟨⟨before₀, after₀⟩, hsplit, heq⟩ := h
      obtain ⟨rfl, rfl⟩ := Prod.mk.inj heq
      obtain ⟨before', after', hsplit', hbefore, hafter⟩ := ih howed hsplit
      rw [hstop first first' hfirst] at hgoes
      refine ⟨first' :: (body' ++ last' :: before'), after', ?_,
        .group hfirst hlast hclosing hbody hbody' hbefore, hafter⟩
      rw [splitUntil_group ts' howed hgoes hclosing' hbody', hsplit', Option.map_some]

end SameOutside

/-- Tokens that are the same outside of brackets look the same. -/
theorem likeness_sameOutside : Likeness SameOutside where
  head _ _ := SameOutside.head
  tail _ _ _ _ := SameOutside.tail
  group := SameOutside.respects_skipGroup?
  angles := by
    intro ts rest ts' h hts
    obtain ⟨t, us, rfl, ht, hclose⟩ := skipAngles?_eq_some_iff.mp h
    cases hts with
    | @token _ t' _ us' hlexeme _ hus =>
      obtain ⟨rest', hclose', hrest⟩ := SameOutside.exists_close (by simp) hclose hus
      rw [kind_eq_of_lexeme hlexeme] at ht
      exact ⟨rest', skipAngles?_eq_some_iff.mpr ⟨t', us', rfl, ht, hclose'⟩, hrest⟩
    | group _ _ hclosing => simp [ht, TokenKind.closing?] at hclosing
  search hstop h hts := SameOutside.exists_splitUntil hstop (by simp) h hts

/-! ## Balanced tokens -/

namespace Grammar

variable {ts ts' us b m : List Token} {t : Token}

/-- What a search passes over is what it takes when nothing else is there. -/
theorem mem_passed_iff {stop : Token → Bool} :
    ts ∈ passed stop ↔ splitUntil? stop false ts = some (ts, []) := by
  rw [splitUntil?, Group.splitUntil_eq_some_iff]
  exact ⟨fun h => ⟨List.append_nil ts, h, .inl rfl⟩, fun h => h.2.1⟩

/-- Tokens with the lexemes of those that a search passes over are passed over as well. -/
theorem mem_passed_of_alike {stop : Token → Bool}
    (hstop : ∀ t t' : Token, t.lexeme = t'.lexeme → stop t = stop t') (h : ts ∈ passed stop)
    (halike : Alike ts ts') : ts' ∈ passed stop := by
  rw [mem_passed_iff] at h
  obtain ⟨before, after, hsplit, -, hafter⟩ := splitUntil?_natural hstop h halike
  obtain rfl := Alike.nil_iff.mp hafter
  obtain ⟨rfl, -, -⟩ := Group.splitUntil_spec hsplit
  rw [List.append_nil] at hsplit ⊢
  exact mem_passed_iff.mpr hsplit

/-- Where a search passes over balanced tokens and others, it passes over both of them. -/
theorem mem_passed_of_append {stop : Token → Bool} (hts : ts ∈ (element .value)∗)
    (h : ts ++ us ∈ passed stop) : ts ∈ passed stop ∧ us ∈ passed stop := by
  obtain ⟨es, rfl, hes⟩ := Language.mem_kstar.mp hts
  induction es with
  | nil => exact ⟨Language.nil_mem_kstar _, h⟩
  | cons e es ih =>
    obtain ⟨he, hmore⟩ := List.forall_mem_cons.mp hes
    rw [List.flatten_cons, List.append_assoc, mem_passed_iff] at h
    -- The search does not stop at the first token, so it passes over the first element.
    have hproper : e ∈ proper stop (.search false) := by
      refine ⟨he, fun t ht => ?_⟩
      cases hstop : stop t with
      | false => rfl
      | true =>
        obtain ⟨e', rfl⟩ := List.head?_eq_some_iff.mp ht
        simp [splitUntil?, Group.splitUntil, hstop] at h
    rw [splitUntil?, Group.splitUntil_element hproper, Option.map_eq_some_iff] at h
    obtain ⟨⟨before, after⟩, hsplit, heq⟩ := h
    obtain ⟨hbefore, rfl⟩ := Prod.mk.inj heq
    obtain rfl := List.append_cancel_left hbefore
    obtain ⟨hstar, hus⟩ := ih hmore (Language.join_mem_kstar hmore) (mem_passed_iff.mpr hsplit)
    rw [List.flatten_cons]
    exact ⟨append_mem_kstar ((le_kstar : proper stop .value ≤ _) hproper) hstar, hus⟩

/-- Tokens with the lexemes of balanced ones are balanced. -/
theorem mem_elements_of_alike (h : ts ∈ (element .value)∗) (halike : Alike ts ts') :
    ts' ∈ (element .value)∗ := by
  rw [← passed_never] at h ⊢
  exact mem_passed_of_alike (fun _ _ _ => rfl) h halike

/-- Tokens that have to do with no bracket are passed over by a search that stops at none of
them. -/
theorem mem_passed_of_plain {stop : Token → Bool}
    (h : ∀ t ∈ ts, Scope.value.isPlain t.kind = true ∧ stop t = false) : ts ∈ passed stop := by
  induction ts with
  | nil => exact Language.nil_mem_kstar _
  | cons t ts ih =>
    obtain ⟨⟨hplain, hstop⟩, hts⟩ := List.forall_mem_cons.mp h
    have hone : [t] ∈ passed stop := mem_passed_of_element (.token hplain) (by simpa using hstop)
    exact append_mem_kstar hone (ih hts)

/-- Tokens that have to do with no bracket are balanced. -/
theorem mem_elements_of_plain (h : ∀ t ∈ ts, Scope.value.isPlain t.kind = true) :
    ts ∈ (element .value)∗ := by
  rw [← passed_never]
  exact mem_passed_of_plain fun t ht => ⟨h t ht, rfl⟩

/-- Balanced tokens stay balanced without one in front that has to do with no bracket. -/
theorem mem_elements_of_cons (ht : Scope.value.isPlain t.kind = true)
    (h : t :: ts ∈ (element .value)∗) : ts ∈ (element .value)∗ := by
  obtain ⟨es, hflatten, hes⟩ := Language.mem_kstar.mp h
  rcases es with _ | ⟨e, es⟩
  · simp at hflatten
  obtain ⟨he, hmore⟩ := List.forall_mem_cons.mp hes
  have he : Element .value e := he
  rw [List.flatten_cons] at hflatten
  cases he with
  | token =>
    obtain ⟨-, rfl⟩ := List.cons.inj hflatten
    exact Language.join_mem_kstar hmore
  | group hclosing =>
    obtain ⟨rfl, -⟩ := List.cons.inj hflatten
    simp [Scope.isPlain, hclosing] at ht
  | angles hscope => exact absurd rfl hscope

/-- Balanced tokens stay balanced without some in front that have to do with no bracket. -/
theorem mem_elements_of_append (hm : ∀ t ∈ m, Scope.value.isPlain t.kind = true)
    (h : m ++ ts ∈ (element .value)∗) : ts ∈ (element .value)∗ := by
  induction m with
  | nil => exact h
  | cons t m ih =>
    obtain ⟨ht, hm⟩ := List.forall_mem_cons.mp hm
    exact ih hm (mem_elements_of_cons ht h)

/-- Some tokens stand between others inside of brackets: the brackets are opened before them and
closed behind them, and what they enclose is balanced, as is what stands around them. -/
def Encloses (a m b : List Token) : Prop :=
  ∃ outer first inner rest last after, a = outer ++ first :: inner ∧ b = rest ++ last :: after ∧
    first.kind.closing? = some last.kind ∧ outer ∈ (element .value)∗ ∧
    inner ++ (m ++ rest) ∈ (element .value)∗ ∧ after ∈ (element .value)∗

/-- Balanced tokens in front change nothing in what stands inside of brackets. -/
theorem Encloses.append_left {a : List Token} (hts : ts ∈ (element .value)∗)
    (h : Encloses a m b) : Encloses (ts ++ a) m b := by
  obtain ⟨outer, first, inner, rest, last, after, rfl, rfl, hclosing, houter, hinner, hafter⟩ := h
  exact ⟨ts ++ outer, first, inner, rest, last, after, by simp, rfl, hclosing,
    append_mem_kstar hts houter, hinner, hafter⟩

/-- Tokens that have to do with no bracket stand among balanced tokens between balanced tokens, or
inside of brackets. -/
theorem mem_elements_or_encloses {a : List Token}
    (hm : ∀ t ∈ m, Scope.value.isPlain t.kind = true) (h : a ++ (m ++ b) ∈ (element .value)∗) :
    (a ∈ (element .value)∗ ∧ b ∈ (element .value)∗) ∨ Encloses a m b := by
  obtain ⟨es, hflatten, hes⟩ := Language.mem_kstar.mp h
  induction es generalizing a with
  | nil =>
    obtain ⟨rfl, -⟩ := List.append_eq_nil_iff.mp hflatten
    exact .inl ⟨Language.nil_mem_kstar _, mem_elements_of_append hm h⟩
  | cons e es ih =>
    obtain ⟨he, hmore⟩ := List.forall_mem_cons.mp hes
    have hone : e ∈ (element .value)∗ := (le_kstar : element .value ≤ _) he
    have hstar := Language.join_mem_kstar hmore
    rw [List.flatten_cons] at hflatten
    rcases List.append_eq_append_iff.mp hflatten with ⟨c, rfl, heq⟩ | ⟨c, rfl, heq⟩
    · rcases a with _ | ⟨first, inner⟩
      · exact .inl ⟨Language.nil_mem_kstar _, mem_elements_of_append hm h⟩
      rcases List.eq_nil_or_concat' c with rfl | ⟨c, last, rfl⟩
      · rw [List.append_nil] at hone
        rw [List.nil_append] at heq
        exact .inl ⟨hone, mem_elements_of_append hm (heq ▸ hstar)⟩
      right
      -- Between the first and the last token of a group the others stand.
      obtain ⟨hclosing, hbody⟩ : first.kind.closing? = some last.kind ∧
          inner ++ c ∈ (element .value)∗ := by
        have he : Element .value (first :: inner ++ (c ++ [last])) := he
        generalize hwhole : first :: inner ++ (c ++ [last]) = e at he
        cases he with
        | token => simpa using congrArg List.length hwhole
        | @group _ first' last' es' hclosing hes' =>
          obtain ⟨rfl, hbody⟩ := List.cons.inj hwhole
          rw [List.append_eq, ← List.append_assoc] at hbody
          obtain ⟨hinner, hlast⟩ := List.append_inj' hbody rfl
          obtain rfl := List.singleton_inj.mp hlast
          exact ⟨hclosing, hinner ▸ Language.join_mem_kstar hes'⟩
        | angles hscope => exact absurd rfl hscope
      obtain ⟨rest, rfl⟩ : m <+: c := by
        have hprefix : c ++ [last] <+: m ++ b := ⟨es.flatten, heq.symm⟩
        by_contra hnot
        have hlt : c.length < m.length := by
          by_contra hle
          exact hnot (List.prefix_of_prefix_length_le (List.prefix_append m b)
            ((List.prefix_append c [last]).trans hprefix) (not_lt.mp hle))
        have hover : c ++ [last] <+: m :=
          List.prefix_of_prefix_length_le hprefix (List.prefix_append m b) (by simpa using hlt)
        -- What closes a group has to do with brackets.
        have hplain := hm last (hover.subset (by simp))
        simp [Scope.isPlain, Group.isClosing_of_closing? hclosing] at hplain
      rw [List.append_assoc, List.append_assoc, List.append_right_inj] at heq
      exact ⟨[], first, inner, rest, last, es.flatten, rfl, heq, hclosing,
        Language.nil_mem_kstar _, hbody, hstar⟩
    · rcases ih (by rw [← heq]; exact hstar) heq.symm hmore with ⟨hc, hb⟩ | hencloses
      · exact .inl ⟨append_mem_kstar hone hc, hb⟩
      · exact .inr (hencloses.append_left hone)

/-- Tokens that have to do with no bracket may be replaced by others among balanced tokens. -/
theorem mem_elements_replace {a a' m' b' : List Token}
    (hm : ∀ t ∈ m, Scope.value.isPlain t.kind = true)
    (hm' : ∀ t ∈ m', Scope.value.isPlain t.kind = true) (ha : Alike a a') (hb : Alike b b')
    (h : a ++ (m ++ b) ∈ (element .value)∗) : a' ++ (m' ++ b') ∈ (element .value)∗ := by
  induction hlen : a.length using Nat.strong_induction_on generalizing a a' b b' with
  | _ n ih =>
    rcases mem_elements_or_encloses hm h with ⟨ha₁, hb₁⟩ |
      ⟨outer, first, inner, rest, last, after, rfl, rfl, hclosing, houter, hinner, hafter⟩
    · exact append_mem_kstar (mem_elements_of_alike ha₁ ha)
        (append_mem_kstar (mem_elements_of_plain hm') (mem_elements_of_alike hb₁ hb))
    · -- The tokens inside of the brackets are fewer.
      obtain ⟨outer', us, rfl, houter', ha⟩ := Alike.append_iff.mp ha
      obtain ⟨first', inner', rfl, hfirst, hinner'⟩ := Alike.cons_iff.mp ha
      obtain ⟨rest', us, rfl, hrest', hb⟩ := Alike.append_iff.mp hb
      obtain ⟨last', after', rfl, hlast, hafter'⟩ := Alike.cons_iff.mp hb
      simp only [List.length_append, List.length_cons] at hlen
      have hbody := ih inner.length (by omega) hinner' hrest' hinner rfl
      rw [kind_eq_of_lexeme hfirst, kind_eq_of_lexeme hlast] at hclosing
      have hgroup : first' :: (inner' ++ (m' ++ rest') ++ [last']) ∈ (element .value)∗ :=
        (le_kstar : element .value ≤ _) (SameOutside.element_group hclosing hbody .value)
      have hwhole := append_mem_kstar (mem_elements_of_alike houter houter')
        (append_mem_kstar hgroup (mem_elements_of_alike hafter hafter'))
      simpa using hwhole

end Grammar

namespace SameOutside

variable {ts ts' us us' a a' m m' b b' : List Token}

/-- Lists that are the same outside of brackets may be put together. -/
theorem append (h : SameOutside ts ts') (h' : SameOutside us us') :
    SameOutside (ts ++ us) (ts' ++ us') := by
  induction h with
  | nil => exact h'
  | token hlexeme hplain _ ih => exact .token hlexeme hplain ih
  | group hfirst hlast hclosing hbody hbody' _ ih =>
    have hgroup := SameOutside.group hfirst hlast hclosing hbody hbody' ih
    simpa using hgroup

/-- Balanced tokens with the same lexemes are the same outside of brackets. -/
theorem of_alike (h : ts ∈ (element .value)∗) (halike : Alike ts ts') : SameOutside ts ts' := by
  obtain ⟨es, rfl, hes⟩ := Language.mem_kstar.mp h
  induction es generalizing ts' with
  | nil =>
    rw [Alike.nil_iff.mp halike]
    exact .nil
  | cons e es ih =>
    obtain ⟨he, hmore⟩ := List.forall_mem_cons.mp hes
    obtain ⟨us₁, us₂, rfl, halike₁, halike₂⟩ := Alike.append_iff.mp halike
    refine append ?_ (ih hmore (Language.join_mem_kstar hmore) halike₂)
    have he : Element .value e := he
    cases he with
    | token hplain =>
      obtain ⟨t', us, rfl, hlexeme, halike⟩ := Alike.cons_iff.mp halike₁
      rw [Alike.nil_iff.mp halike]
      exact .token hlexeme hplain .nil
    | group hclosing hes' =>
      obtain ⟨first', us, rfl, hfirst, halike⟩ := Alike.cons_iff.mp halike₁
      obtain ⟨body', us, rfl, hbody, halike⟩ := Alike.append_iff.mp halike
      obtain ⟨last', us, rfl, hlast, halike⟩ := Alike.cons_iff.mp halike
      rw [Alike.nil_iff.mp halike]
      have hstar := Language.join_mem_kstar hes'
      exact .group hfirst hlast hclosing hstar (mem_elements_of_alike hstar hbody) .nil
    | angles hscope => exact absurd rfl hscope

/-- Tokens inside of brackets that have to do with none may be replaced by others. -/
theorem of_encloses (hm : ∀ t ∈ m, Scope.value.isPlain t.kind = true)
    (hm' : ∀ t ∈ m', Scope.value.isPlain t.kind = true) (ha : Alike a a') (hb : Alike b b')
    (h : Encloses a m b) : SameOutside (a ++ (m ++ b)) (a' ++ (m' ++ b')) := by
  obtain ⟨outer, first, inner, rest, last, after, rfl, rfl, hclosing, houter, hinner, hafter⟩ := h
  obtain ⟨outer', us, rfl, houter', ha⟩ := Alike.append_iff.mp ha
  obtain ⟨first', inner', rfl, hfirst, hinner'⟩ := Alike.cons_iff.mp ha
  obtain ⟨rest', us, rfl, hrest', hb⟩ := Alike.append_iff.mp hb
  obtain ⟨last', after', rfl, hlast, hafter'⟩ := Alike.cons_iff.mp hb
  have hgroup := SameOutside.group hfirst hlast hclosing hinner
    (mem_elements_replace hm hm' hinner' hrest' hinner) (of_alike hafter hafter')
  have hwhole := (of_alike houter houter').append hgroup
  simpa using hwhole

end SameOutside

end CallConv
