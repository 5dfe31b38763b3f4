import Mathlib
import CallConv.Proofs.SourceFile.ItemEnd

/-!
# Tokens that close their groups

What the search for attributes needs in order not to look behind some tokens: every group that is
opened among them is closed among them, and the last of them that carries meaning is no hash
(`Complete`). Properly nested tokens have the first property. With one more closing token behind
them they are `Walled`: from every point of them on a group that is open there is closed.
-/

namespace CallConv

open scoped Computability
open Grammar Attribute

variable {depth : Nat} {ts us rest : List Token} {t : Token}

/-! ## Passing over groups -/

/-- Groups are passed over in two goes. -/
theorem skipDepth?_add (depth outer : Nat) (ts : List Token) :
    skipDepth? (depth + outer) ts = (skipDepth? depth ts).bind (skipDepth? outer) := by
  induction ts generalizing depth with
  | nil =>
    cases depth with
    | zero => rw [Nat.zero_add, skipDepth?_zero, Option.bind_some]
    | succ depth => rw [Nat.succ_add]; rfl
  | cons t ts ih =>
    cases depth with
    | zero => rw [Nat.zero_add, skipDepth?_zero, Option.bind_some]
    | succ depth =>
      have hinner : depth + outer + 2 = depth + 2 + outer := Nat.add_right_comm depth outer 2
      have hsame : depth + outer + 1 = depth + 1 + outer := Nat.add_right_comm depth outer 1
      rw [Nat.succ_add, skipDepth?, skipDepth?, hinner, hsame, ih, ih, ih]
      split_ifs <;> rfl

/-- What closes the open groups does so with anything behind it. -/
theorem skipDepth?_append (h : skipDepth? depth ts = some rest) (us : List Token) :
    skipDepth? depth (ts ++ us) = some (rest ++ us) := by
  induction ts generalizing depth with
  | nil =>
    cases depth with
    | zero =>
      obtain rfl := Option.some.inj h
      exact skipDepth?_zero _
    | succ depth => simp [skipDepth?] at h
  | cons t ts ih =>
    cases depth with
    | zero =>
      obtain rfl := Option.some.inj h
      rfl
    | succ depth =>
      rw [List.cons_append]
      simp only [skipDepth?] at h ⊢
      split_ifs at h ⊢
      · exact ih h
      · exact ih h
      · exact ih h

/-- Some tokens close groups that are open before them, as many as `depth`. -/
def Closes (depth : Nat) (ts : List Token) : Prop := (skipDepth? depth ts).isSome = true

namespace Closes

theorem ne_nil (h : Closes (depth + 1) ts) : ts ≠ [] := by
  rintro rfl
  simp [Closes, skipDepth?] at h

/-- A token that neither opens nor closes a group makes no difference. -/
theorem cons_plain_iff (hopening : t.isOpening = false) (hclosing : t.kind.isClosing = false) :
    Closes (depth + 1) (t :: ts) ↔ Closes (depth + 1) ts := by
  rw [Closes, skipDepth?]
  simp [hopening, hclosing, Closes]

/-- A hash closes no group. -/
theorem of_hash (h : Closes (depth + 1) (t :: ts)) (hkind : t.kind = .hash) :
    Closes (depth + 1) ts := by
  have hplain : t.isOpening = false ∧ t.kind.isClosing = false := by
    rw [Token.isOpening, hkind]
    decide
  exact (cons_plain_iff hplain.1 hplain.2).mp h

/-- Tokens that neither open nor close a group make no difference. -/
theorem append_plain_iff {taken : List Token}
    (h : ∀ t ∈ taken, t.isOpening = false ∧ t.kind.isClosing = false) :
    Closes (depth + 1) (taken ++ ts) ↔ Closes (depth + 1) ts := by
  induction taken with
  | nil => rfl
  | cons t taken ih =>
    obtain ⟨⟨hopening, hclosing⟩, hrest⟩ := List.forall_mem_cons.mp h
    rw [List.cons_append, cons_plain_iff hopening hclosing, ih hrest]

/-- A group that is opened inside of others is closed before them. -/
theorem of_opening (h : Closes (depth + 1) (t :: ts)) (hopening : t.isOpening = true) :
    ∃ rest, skipDepth? 1 ts = some rest ∧ Closes (depth + 1) rest := by
  rw [Closes, skipDepth?, if_pos hopening, Nat.add_comm depth 2, Nat.add_assoc 1 1 depth,
    skipDepth?_add 1 (1 + depth), Nat.add_comm 1 depth] at h
  cases hskip : skipDepth? 1 ts with
  | none => simp [hskip] at h
  | some rest => exact ⟨rest, rfl, by rwa [hskip, Option.bind_some] at h⟩

/-- What closes a group carries meaning. -/
theorem dropTrivia (h : Closes (depth + 1) ts) : Closes (depth + 1) (dropTrivia ts) := by
  rw [← takeWhile_append_dropTrivia ts] at h
  refine (append_plain_iff fun t ht => ?_).mp h
  obtain ⟨hopening, hclosing, -⟩ := isOpening_of_isTrivia (List.mem_takeWhile_imp ht)
  exact ⟨hopening, hclosing⟩

theorem exists_dropTrivia (h : Closes (depth + 1) ts) :
    ∃ t rest, CallConv.dropTrivia ts = t :: rest ∧ Closes (depth + 1) (t :: rest) := by
  obtain ⟨t, rest, heq⟩ := List.exists_cons_of_ne_nil h.dropTrivia.ne_nil
  exact ⟨t, rest, heq, heq ▸ h.dropTrivia⟩

end Closes

/-! ## Nested tokens -/

/-- Tokens are nested if and only if a search that never stops passes over all of them. -/
theorem mem_nested_iff : ts ∈ (element .value)∗ ↔
    Group.splitUntil (fun _ => false) false [] ts = some (ts, []) := by
  rw [← passed_never, Group.splitUntil_eq_some_iff, List.append_nil]
  exact ⟨fun h => ⟨rfl, h, .inl rfl⟩, fun h => h.2.1⟩

/-- A group that is closed behind some tokens is closed with them in front, too. -/
def Sinks (ts : List Token) : Prop :=
  ∀ depth us, Closes (depth + 1) us → Closes (depth + 1) (ts ++ us)

theorem Sinks.nil : Sinks [] := fun _ _ h => h

theorem Sinks.append (hts : Sinks ts) (hus : Sinks us) : Sinks (ts ++ us) := by
  intro depth vs h
  rw [List.append_assoc]
  exact hts depth _ (hus depth vs h)

/-- A token that opens no group sinks. -/
theorem sinks_singleton (h : t.isOpening = false) : Sinks [t] := by
  intro depth us hus
  rw [Closes, List.singleton_append, skipDepth?, if_neg (by simp [h])]
  split
  · -- With one group less to close, the others are closed all the more.
    rw [Closes, skipDepth?_add depth 1] at hus
    exact Option.isSome_of_isSome_bind hus
  · exact hus

/-- The last tokens of two rows are among those of the second, or are all of them and the last ones
of the first. -/
theorem suffix_append_cases (h : us <:+ ts ++ rest) :
    us <:+ rest ∨ ∃ vs, us = vs ++ rest ∧ vs <:+ ts := by
  obtain ⟨front, heq⟩ := h
  rcases List.append_eq_append_iff.mp heq with ⟨vs, rfl, rfl⟩ | ⟨vs, rfl, rfl⟩
  · exact .inr ⟨vs, rfl, List.suffix_append _ _⟩
  · exact .inl (List.suffix_append _ _)

theorem sinks_of_suffix_flatten {es : List (List Token)}
    (hes : ∀ e ∈ es, ∀ us, us <:+ e → Sinks us) (h : us <:+ es.flatten) : Sinks us := by
  induction es generalizing us with
  | nil =>
    rw [List.suffix_nil.mp h]
    exact Sinks.nil
  | cons e es ih =>
    have htail {vs : List Token} (hvs : vs <:+ es.flatten) : Sinks vs :=
      ih (fun e he => hes e (List.mem_cons_of_mem _ he)) hvs
    rcases suffix_append_cases h with hlast | ⟨vs, rfl, hvs⟩
    · exact htail hlast
    · exact (hes e List.mem_cons_self vs hvs).append (htail List.suffix_rfl)

/-- From every point of a group on no more groups are opened than closed. -/
theorem sinks_of_suffix_group {first last : Token} {es : List (List Token)}
    (hwhole : Sinks (first :: (es.flatten ++ [last]))) (hlast : last.isOpening = false)
    (hes : ∀ e ∈ es, ∀ us, us <:+ e → Sinks us) (h : us <:+ first :: (es.flatten ++ [last])) :
    Sinks us := by
  rcases List.suffix_cons_iff.mp h with rfl | hinner
  · exact hwhole
  rcases suffix_append_cases hinner with hsingle | ⟨vs, rfl, hvs⟩
  · rcases List.suffix_cons_iff.mp hsingle with rfl | hnil
    · exact sinks_singleton hlast
    · rw [List.suffix_nil.mp hnil]
      exact Sinks.nil
  · exact (sinks_of_suffix_flatten hes hvs).append (sinks_singleton hlast)

/-- From every point of an element on no more groups are opened than closed. -/
theorem sinks_of_suffix_element {scope : Scope} {e : List Token} (he : Element scope e) :
    ∀ us, us <:+ e → Sinks us := by
  have hwhole {scope : Scope} {e : List Token} (he : Element scope e) : Sinks e :=
    fun depth us hus => by
      rw [Closes, skipDepth?_element he]
      exact hus
  induction he with
  | @token scope t hplain =>
    intro us h
    rcases List.suffix_cons_iff.mp h with rfl | hnil
    · exact hwhole (.token hplain)
    · rw [List.suffix_nil.mp hnil]
      exact Sinks.nil
  | @group scope first last es hlast hes ih =>
    have hgroup : Element scope (first :: (es.flatten ++ [last])) := .group hlast hes
    exact fun us => sinks_of_suffix_group (hwhole hgroup)
      (isOpening_of_isClosing (Group.isClosing_of_closing? hlast)) ih
  | @angles scope first last es hscope hfirst hlast hes ih =>
    have hopening : last.isOpening = false := by rw [Token.isOpening, hlast]; rfl
    exact fun us => sinks_of_suffix_group (hwhole (.angles hscope hfirst hlast hes)) hopening ih

/-- From every point of nested tokens on no more groups are opened than closed. -/
theorem sinks_of_suffix (h : ts ∈ (element .value)∗) (hus : us <:+ ts) : Sinks us := by
  obtain ⟨es, rfl, hes⟩ := Language.mem_kstar.mp h
  exact sinks_of_suffix_flatten (fun e he => sinks_of_suffix_element (hes e he)) hus

/-! ## Walled and complete tokens -/

/-- From every point of some tokens on a group is closed that is open there. -/
def Walled (ts : List Token) : Prop := ∀ us, us <:+ ts → us ≠ [] → Closes 1 us

theorem Walled.suffix (h : Walled ts) (hus : us <:+ ts) : Walled us :=
  fun vs hvs => h vs (hvs.trans hus)

/-- Nested tokens are walled by a closing token behind them. -/
theorem walled_concat (h : ts ∈ (element .value)∗) (ht : t.kind.isClosing = true) :
    Walled (ts ++ [t]) := by
  have hclosing : Closes 1 [t] := by
    simp [Closes, skipDepth?, isOpening_of_isClosing ht, ht]
  intro us hus hne
  rcases suffix_append_cases hus with hsingle | ⟨vs, rfl, hvs⟩
  · rcases List.suffix_cons_iff.mp hsingle with rfl | hnil
    · exact hclosing
    · exact absurd (List.suffix_nil.mp hnil) hne
  · exact sinks_of_suffix h hvs 0 [t] hclosing

/-- Every group that is opened among some tokens is closed among them, and the last of them that
carries meaning is no hash. -/
structure Complete (ts : List Token) : Prop where
  /-- Groups are closed. -/
  closes : ∀ t us, t :: us <:+ ts → t.isOpening = true → Closes 1 us
  /-- Something follows a hash. -/
  hash : ∀ t us, t :: us <:+ ts → t.kind = .hash → dropTrivia us ≠ []

theorem Complete.suffix (h : Complete ts) (hus : us <:+ ts) : Complete us :=
  ⟨fun t vs hvs => h.closes t vs (hvs.trans hus), fun t vs hvs => h.hash t vs (hvs.trans hus)⟩

/-- Walled tokens are complete. -/
theorem Walled.complete (h : Walled ts) : Complete ts where
  closes t us hus hopening := by
    obtain ⟨rest, hskip, -⟩ := (h _ hus (List.cons_ne_nil t us)).of_opening hopening
    rw [Closes, hskip]
    rfl
  hash t us hus hkind := ((h _ hus (List.cons_ne_nil t us)).of_hash hkind).dropTrivia.ne_nil

/-- Of two groups that are closed with one more token the inner one is closed without it. -/
theorem closes_of_concat (h : Closes (depth + 2) (ts ++ [t])) : Closes (depth + 1) ts := by
  unfold Closes at h ⊢
  induction ts generalizing depth with
  | nil =>
    simp only [List.nil_append, skipDepth?] at h
    split_ifs at h <;> simp at h
  | cons u ts ih =>
    simp only [List.cons_append, skipDepth?] at h ⊢
    split_ifs at h ⊢ with hopening hclosing
    · exact ih h
    · cases depth with
      | zero => rw [skipDepth?_zero]; rfl
      | succ depth => exact ih h
    · exact ih h

/-- Nested tokens are complete, if the last one that carries meaning is no hash. -/
theorem complete_of_nested (h : ts ∈ (element .value)∗)
    (hhash : ∀ t ∈ (significant ts).getLast?, t.kind ≠ .hash) : Complete ts where
  closes t us hus hopening := by
    -- A wall behind the tokens closes one group more than they do.
    let wall : Token := ⟨.braceRight, Cursor.start, []⟩
    have hsuffix : t :: us ++ [wall] <:+ ts ++ [wall] := by
      obtain ⟨front, rfl⟩ := hus
      exact ⟨front, by simp⟩
    have hwall := walled_concat h (t := wall) rfl _ hsuffix (List.cons_ne_nil _ _)
    rw [Closes, List.cons_append, skipDepth?, if_pos hopening] at hwall
    exact closes_of_concat hwall
  hash t us hus hkind hnone := by
    obtain ⟨front, rfl⟩ := hus
    obtain ⟨trivia, rfl, htrivia⟩ := exists_of_dropTrivia hnone
    have htrivial : t.isTrivia = false := by rw [Token.isTrivia, hkind]; rfl
    have hnone : significant (trivia ++ []) = [] := by
      rw [significant, List.filter_eq_nil_iff]
      exact fun u hu => by simp [htrivia u (by simpa using hu)]
    refine hhash t ?_ hkind
    rw [significant_append, significant_cons htrivial, hnone]
    simp

end CallConv
