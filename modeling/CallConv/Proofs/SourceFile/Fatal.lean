import Mathlib
import CallConv.Proofs.Directive.Sound
import CallConv.Proofs.SourceFile.Frame

/-!
# Failures that end a run

Some failures are no answer to a file but faults: an empty table, an unknown shortcut, a change of
a marker that changes the kind of a declaration, or a cut outside of a text. Reading a directive
rules the first two out and all cuts lie within their texts, which leaves the change of the kind.
It happens exactly to the items whose text, with the marker changed, is that of another kind of
declaration, and these all have a stray apostrophe directly before a backslash: a literal that is
put in can turn it into the start of a character literal, which swallows the end of an attribute.
-/

namespace CallConv

/-! ## Cuts -/

/-- An edit lies within a text that begins at `origin`. -/
structure Edit.InRange (e : Edit) (source : Text) (origin : Cursor) : Prop where
  /-- It does not begin before the text. -/
  start_le : origin.offset ≤ e.first
  /-- It does not end before it begins. -/
  first_le : e.first ≤ e.last
  /-- It does not end behind the text. -/
  last_le : e.last ≤ origin.offset + source.length

/-- The cuts that take the name out of a literal lie within its text. -/
def Abi.Cuttable (t : Token) : Prop :=
  if t.kind = .rawString then
    2 * ((t.content.drop 1).takeWhile (· == Byte.hash)).length + 3 ≤ t.content.length
  else 2 ≤ t.content.length

/-- The name of every literal that a text falls into can be taken out of it. -/
theorem Abi.cuttable_of_begins {t : Token} {r : Text} (hliteral : Abi.isLiteral t = true)
    (h : Begins t.kind t.content r) : Abi.Cuttable t := by
  obtain ⟨kind, location, content⟩ := t
  unfold Abi.Cuttable
  cases kind
  case string =>
    obtain ⟨mark, u, -, heq, hsuffix⟩ := h.string_ends
    have hpos := hsuffix.length_le
    simp only at heq ⊢
    rw [heq]
    simp only [reduceCtorEq, if_false, List.length_append, List.length_cons] at hpos ⊢
    omega
  case rawString =>
    have hsize : Rule.rawStringSize? content = some content.length :=
      h.size?_self (by simp [Rule.all])
    obtain ⟨mark, hashes, rest, k, hmark, heq, -, hlen⟩ :=
      Rule.rawStringSize?_eq_some_iff.mp hsize
    simp only [if_true]
    -- A byte string names no convention, so that the hashes stand right behind the first byte.
    rcases hmark with rfl | rfl
    · have hhashes : (content.drop 1).takeWhile (· == Byte.hash) =
          List.replicate hashes Byte.hash := by
        rw [heq, Rule.rawOpening, List.nil_append, List.cons_append, List.drop_one, List.tail_cons,
          List.append_assoc, List.takeWhile_append_of_pos (by simp), List.singleton_append,
          List.takeWhile_cons_of_neg (by decide), List.append_nil]
      rw [hhashes, List.length_replicate, hlen, Rule.length_rawOpening, Rule.rawClosing,
        List.length_cons, List.length_replicate]
      omega
    · rw [heq] at hliteral
      exact absurd hliteral (by simp [Abi.isLiteral, Rule.rawOpening])
  all_goals exact absurd hliteral (by simp [Abi.isLiteral, TokenKind.isStringLiteral])

namespace Declaration

variable {source : Text} {origin : Cursor} {ts : List Token} {d : Declaration} {abi : Text}

/-- The change of a marker lies within the declaration. -/
theorem edit_inRange (htokens : tokenize source origin = .ok ts)
    (hd : classify source origin = .ok d) (abi : Text) :
    (d.shape.site.edit abi).InRange source origin := by
  obtain ⟨before, lead, after, ⟨rfl, hfits, -⟩, -⟩ :=
    Shape.exists_found (outline?_of_classify htokens hd).1
  obtain ⟨hfirst, hlast⟩ := hfits.edit_bounds abi htokens
  have hlength : source.length = (Token.join before).length +
      (Token.join d.shape.site.removed).length + (Token.join after).length := by
    rw [← join_of_tokenize htokens]
    simp only [Token.join_append, List.length_append]
  rw [List.length_append] at hlast
  push_cast at hlast
  constructor <;> omega

/-- The aliased type lies within the alias. -/
theorem alias_inRange {aliased : PointerType} (htokens : tokenize source origin = .ok ts)
    (h : Shape.Aliased ts aliased) (text : Text) :
    Edit.InRange ⟨aliased.origin.offset, aliased.origin.offset + aliased.source.length, text⟩
      source origin := by
  obtain ⟨front, first, middle, back, rfl, horigin, hsource, -⟩ := h
  have hoffset : aliased.origin.offset = origin.offset + (Token.join front).length := by
    rw [horigin]
    rw [List.append_assoc] at htokens
    exact location_offset_eq htokens
  have hlength : source.length = (Token.join front).length + aliased.source.length +
      (Token.join back).length := by
    rw [hsource, ← join_of_tokenize htokens]
    simp only [Token.join_append, List.length_append]
  constructor <;> simp only <;> omega

/-- Only a text that falls into tokens is a declaration. -/
theorem exists_tokens (hd : classify source origin = .ok d) :
    ∃ ts, tokenize source origin = .ok ts := by
  cases htokens : tokenize source origin with
  | error e => simp [classify, htokens] at hd
  | ok ts => exact ⟨ts, rfl⟩

/-! ## Changes of the kind -/

/-- With its marker changed, the text is a declaration of another kind. -/
def Flips (d : Declaration) (abi : Text) : Prop :=
  ∃ d', classify ((d.shape.site.edit abi).apply d.source d.origin) d.origin = .ok d' ∧
    d'.kind ≠ d.kind

/-- Setting a convention comes upon a declaration of another kind. -/
inductive Turns (abi : Text) (d : Declaration) : Prop
  /-- The declaration itself is turned into one; in an alias, the aliased type was changed first. -/
  | whole (haliased : ∀ name aliased, d.shape = .typeAlias name aliased →
      ∃ changed, (ofPointerType aliased).splice (aliased.site.edit abi) = .ok changed)
    (h : d.Flips abi)
  /-- The aliased type is turned into one already. -/
  | inner {name : Text} {aliased : PointerType} (hshape : d.shape = .typeAlias name aliased)
    (h : (ofPointerType aliased).Flips abi)

/-- A change of a marker ends the run exactly if it changes the kind. -/
theorem splice_isFatal_iff :
    (∃ e, d.splice (d.shape.site.edit abi) = .error e ∧ e.isFatal = true) ↔ d.Flips abi := by
  constructor
  · rintro ⟨e, he, hfatal⟩
    unfold splice at he
    simp only at he
    split at he
    · obtain rfl := Except.error.inj he
      simp [EditError.isFatal] at hfatal
    · next d' hclassify =>
      split at he
      · simp at he
      · next hkind => exact ⟨d', hclassify, hkind⟩
  · rintro ⟨d', hclassify, hkind⟩
    refine ⟨.kindChanged d.kind d'.kind ((d.shape.site.edit abi).apply d.source d.origin), ?_, rfl⟩
    simp only [splice, hclassify, if_neg hkind]

/-- Setting a convention ends the run exactly if it comes upon another kind. -/
theorem setAbi_isFatal_iff (hd : classify source origin = .ok d) (habi : abi ≠ []) :
    (∃ e, d.setAbi abi = .error e ∧ e.isFatal = true) ↔ d.Turns abi := by
  obtain ⟨ts, htokens⟩ := exists_tokens hd
  rw [setAbi, if_neg habi]
  split
  · next name aliased hshape =>
    have hsame : ∀ name' aliased', d.shape = .typeAlias name' aliased' → aliased' = aliased := by
      intro name' aliased' hshape'
      rw [hshape] at hshape'
      exact (Shape.typeAlias.inj hshape').2.symm
    have hinner : (∃ e, (ofPointerType aliased).splice (aliased.site.edit abi) = .error e ∧
        e.isFatal = true) ↔ (ofPointerType aliased).Flips abi := splice_isFatal_iff
    cases hchanged : (ofPointerType aliased).splice (aliased.site.edit abi) with
    | error e =>
      -- The alias is not reached, so that only the aliased type can be turned.
      rw [hchanged] at hinner
      refine hinner.trans ⟨.inner hshape, ?_⟩
      rintro (⟨haliased, -⟩ | ⟨hshape', h⟩)
      · obtain ⟨changed, hok⟩ := haliased name aliased hshape
        simp [hchanged] at hok
      · exact hsame _ _ hshape' ▸ h
    | ok changed =>
      simp only
      rw [splice_aliased htokens hd hshape hchanged, splice_isFatal_iff]
      constructor
      · refine .whole fun name' aliased' hshape' => ?_
        rw [hsame _ _ hshape']
        exact ⟨changed, hchanged⟩
      · rintro (⟨-, h⟩ | ⟨hshape', h⟩)
        · exact h
        · rw [hsame _ _ hshape', ← hinner, hchanged] at h
          simp at h
  · next hshape =>
    rw [splice_isFatal_iff]
    constructor
    · exact .whole fun name aliased h => absurd h (hshape name aliased)
    · rintro (⟨-, h⟩ | ⟨h, -⟩)
      · exact h
      · exact absurd h (hshape _ _)

/-- In calm tokens no convention comes upon another kind. -/
theorem Turns.not_calm (htokens : tokenize source origin = .ok ts)
    (hd : classify source origin = .ok d) (h : d.Turns abi) : ¬ Calm (ts.map Token.lexeme) := by
  intro hcalm
  -- Calm tokens keep the kind in each of the two texts that are read again.
  cases h with
  | whole _ h =>
    obtain ⟨d', hsplice, -⟩ := splice_edit htokens hcalm hd abi
    obtain ⟨e, he, -⟩ := splice_isFatal_iff.mpr h
    simp [hsplice] at he
  | @inner name aliased hshape h =>
    have haliased := (outline?_of_classify htokens hd).2 name aliased hshape
    obtain ⟨inner, hinner, hpart, hclassify⟩ := classify_aliased htokens haliased
    obtain ⟨d', hsplice, -⟩ :=
      splice_edit hinner (hcalm.part (hpart.map Token.lexeme)) hclassify abi
    obtain ⟨e, he, -⟩ := splice_isFatal_iff.mpr h
    simp [hsplice] at he

/-- Applying a directive that was read ends the run exactly if the convention that it puts in comes
upon another kind. -/
theorem apply_isFatal_iff {directive : Directive} {target : Target} (hsound : directive.Sound)
    (hd : classify source origin = .ok d) :
    (∃ e, d.apply directive target = .error e ∧ e.isFatal = true) ↔
      ∃ r, directive.resolve target d.marker = .ok r ∧ r.changed = true ∧ d.Turns r.abi := by
  unfold apply
  cases hresolve : directive.resolve target d.marker with
  | error e =>
    have hreported := hsound.resolve_error hresolve
    simp [ApplyError.isFatal, hreported]
  | ok r =>
    by_cases hchanged : r.changed = true
    · simp only [hchanged, if_true, Except.ok.injEq, exists_eq_left', true_and]
      rw [← setAbi_isFatal_iff hd (hsound.abi_ne_nil hresolve hchanged)]
      cases d.setAbi r.abi <;> simp [ApplyError.isFatal]
    · simp [hchanged]

/-- The only fault of applying a directive that was read is a change of the kind: its table is not
empty and its shortcuts are known. -/
theorem kindChanged_of_apply {directive : Directive} {target : Target} {e : ApplyError}
    (hsound : directive.Sound) (h : d.apply directive target = .error e)
    (hfatal : e.isFatal = true) :
    ∃ before after text, e = .edit (.kindChanged before after text) := by
  unfold apply at h
  split at h
  · next resolveError hresolve =>
    obtain rfl := Except.error.inj h
    simp [ApplyError.isFatal, hsound.resolve_error hresolve] at hfatal
  · split at h
    · split at h
      · next editError _ =>
        obtain rfl := Except.error.inj h
        cases editError with
        | emptyName origin => simp [ApplyError.isFatal, EditError.isFatal] at hfatal
        | unreadable e => simp [ApplyError.isFatal, EditError.isFatal] at hfatal
        | kindChanged before after text => exact ⟨before, after, text, rfl⟩
      · simp at h
    · simp at h

end Declaration

/-! ## The run over a file -/

/-- The convention that an attribute chooses for its item comes upon another kind. -/
def AnnotatedItem.Turns (a : AnnotatedItem) (target : Target) : Prop :=
  ∃ directive d r, Directive.ofTokens a.finish a.arguments = .ok directive ∧
    Declaration.classify (Token.join a.item) a.origin = .ok d ∧
    directive.resolve target d.marker = .ok r ∧ r.changed = true ∧ d.Turns r.abi

/-- Expanding an item ends the run exactly if its convention comes upon another kind. -/
theorem AnnotatedItem.expand_isFatal_iff {a : AnnotatedItem} {target : Target} :
    (∃ e, a.expand target = .error e ∧ e.isFatal = true) ↔ a.Turns target := by
  unfold expand expandText Turns
  cases hdirective : Directive.ofTokens a.finish a.arguments with
  | error e => simp [ExpandError.isFatal]
  | ok directive =>
    simp only
    cases hd : Declaration.classify (Token.join a.item) a.origin with
    | error e => simp [ExpandError.isFatal]
    | ok d =>
      simp only [Except.ok.injEq, exists_and_left, exists_eq_left']
      rw [← Declaration.apply_isFatal_iff (Directive.sound_of_ofTokens hdirective) hd]
      cases d.apply directive target <;> simp [ExpandError.isFatal]

/-- The only fault of expanding an item is a change of the kind. -/
theorem AnnotatedItem.kindChanged_of_expand {a : AnnotatedItem} {target : Target} {e : ExpandError}
    (h : a.expand target = .error e) (hfatal : e.isFatal = true) :
    ∃ before after text, e = .apply (.edit (.kindChanged before after text)) := by
  unfold expand expandText at h
  split at h
  · obtain rfl := Except.error.inj h
    simp [ExpandError.isFatal] at hfatal
  · next directive hdirective =>
    split at h
    · obtain rfl := Except.error.inj h
      simp [ExpandError.isFatal] at hfatal
    · split at h
      · next applyError happly =>
        obtain rfl := Except.error.inj h
        obtain ⟨before, after, text, rfl⟩ := Declaration.kindChanged_of_apply
          (Directive.sound_of_ofTokens hdirective) happly hfatal
        exact ⟨before, after, text, rfl⟩
      · simp at h

namespace Attribute

/-- An item that the search comes to, from some tokens on. -/
inductive Reaches (a : AnnotatedItem) : List Token → Prop
  | found {ts rest : List Token} : search ts = .found a rest → Reaches a ts
  | later {ts rest : List Token} : (search ts).rest? = some rest → Reaches a rest → Reaches a ts

/-- A finished search comes to no item. -/
theorem not_reaches_of_finished {a : AnnotatedItem} {ts : List Token}
    (hsearch : search ts = .finished) : ¬ Reaches a ts := by
  rintro (h | ⟨h, -⟩)
  · simp [hsearch] at h
  · simp [hsearch, Finding.rest?] at h

/-- A search that passes over some tokens comes to the items behind them. -/
theorem reaches_of_passed {a : AnnotatedItem} {ts rest : List Token} {e? : Option AttributeError}
    (hsearch : search ts = .passed e? rest) : Reaches a ts ↔ Reaches a rest := by
  have hrest : (search ts).rest? = some rest := by
    rw [hsearch]
    rfl
  constructor
  · rintro (h | ⟨h, hreaches⟩)
    · simp [hsearch] at h
    · obtain rfl := Option.some.inj (hrest.symm.trans h)
      exact hreaches
  · exact .later hrest

/-- A search that finds an item comes to it and to the items behind it. -/
theorem reaches_of_found {a b : AnnotatedItem} {ts rest : List Token}
    (hsearch : search ts = .found b rest) : Reaches a ts ↔ a = b ∨ Reaches a rest := by
  have hrest : (search ts).rest? = some rest := by
    rw [hsearch]
    rfl
  constructor
  · rintro (h | ⟨h, hreaches⟩)
    · exact .inl (Finding.found.inj (h.symm.trans hsearch)).1
    · obtain rfl := Option.some.inj (hrest.symm.trans h)
      exact .inr hreaches
  · rintro (rfl | hreaches)
    · exact .found hsearch
    · exact .later hrest hreaches

/-- An item that the search comes to is a row of the tokens, and is read as it stands there. -/
theorem Reaches.tokenize_item {source : Text} {c : Cursor} {a : AnnotatedItem} {ts : List Token}
    (h : Reaches a ts) (front : List Token) (htokens : tokenize source c = .ok (front ++ ts)) :
    a.item <:+: ts ∧
      tokenize (Token.join a.item) a.origin = .ok a.item := by
  induction h generalizing front with
  | @found ts rest hsearch =>
    obtain ⟨attr, blanks, heq, -, hfollowed⟩ := search_found hsearch
    let s : Slot := ⟨ts.takeWhile Token.isTrivia, attr, blanks, a.item, []⟩
    have hslot : ts = s.tokens ++ rest := heq
    rw [hslot, ← List.append_assoc] at htokens
    refine ⟨?_, Slot.tokenize_item htokens hfollowed a.location⟩
    rw [hslot]
    exact ⟨s.gap ++ attr ++ blanks, rest, rfl⟩
  | @later ts rest hrest _ ih =>
    -- What the search passed over moves to the tokens in front.
    obtain ⟨taken, rfl⟩ := suffix_of_search hrest
    rw [← List.append_assoc] at htokens
    obtain ⟨hitem, htokensItem⟩ := ih (front ++ taken) htokens
    exact ⟨hitem.trans (List.suffix_append taken rest).isInfix, htokensItem⟩

end Attribute

/-- Expanding some tokens ends the run exactly if the search comes to an item whose convention
comes upon another kind. -/
theorem exists_isFatal_iff (target : Target) (ts : List Token) :
    (∃ e ∈ (expandTokens target ts).errors, e.isFatal = true) ↔
      ∃ a, Attribute.Reaches a ts ∧ a.Turns target := by
  fun_induction expandTokens target ts with
  | case1 ts hsearch => simp [Attribute.not_reaches_of_finished hsearch]
  | case2 ts rest hsearch ih =>
    simp only [Attribute.reaches_of_passed hsearch]
    exact ih
  | case3 ts e rest hsearch ih =>
    simp only [Attribute.reaches_of_passed hsearch]
    rw [← ih]
    simp [Expansion.fail, ExpandError.isFatal]
  | case4 ts a rest hsearch e hexpand ih =>
    have hturns : e.isFatal = true ↔ a.Turns target := by
      rw [← a.expand_isFatal_iff]
      simp [hexpand]
    simp only [Attribute.reaches_of_found hsearch, or_and_right, exists_or, exists_eq_left]
    rw [← ih, ← hturns]
    simp [Expansion.fail]
  | case5 ts a rest hsearch r text hexpand ih =>
    have hturns : ¬ a.Turns target := by
      rw [← a.expand_isFatal_iff]
      simp [hexpand]
    simp only [Attribute.reaches_of_found hsearch, or_and_right, exists_or, exists_eq_left, hturns,
      false_or]
    exact ih

/-- The only faults of a run are changes of the kind. -/
theorem kindChanged_of_expandTokens (target : Target) (ts : List Token) :
    ∀ e ∈ (expandTokens target ts).errors, e.isFatal = true →
      ∃ before after text, e = .apply (.edit (.kindChanged before after text)) := by
  fun_induction expandTokens target ts with
  | case1 ts hsearch => simp
  | case2 ts rest hsearch ih => exact ih
  | case3 ts e rest hsearch ih =>
    intro e' he' hfatal
    rcases List.mem_cons.mp he' with rfl | he'
    · simp [ExpandError.isFatal] at hfatal
    · exact ih e' he' hfatal
  | case4 ts a rest hsearch e hexpand ih =>
    intro e' he' hfatal
    rcases List.mem_cons.mp he' with rfl | he'
    · exact a.kindChanged_of_expand hexpand hfatal
    · exact ih e' he' hfatal
  | case5 ts a rest hsearch r text hexpand ih => exact ih

/-- A run ends where one of the failures ends it. -/
theorem Expansion.fatal?_ne_none_iff {x : Expansion} :
    x.fatal? ≠ none ↔ ∃ e ∈ x.errors, e.isFatal = true := by
  rw [fatal?, ne_eq, List.find?_eq_none]
  simp

/-- Expanding a file ends the run exactly if the search comes to an item whose convention comes upon
another kind, which only items with a stray apostrophe before a backslash do. -/
theorem exists_turns_iff (source : Text) (target : Target) :
    (∃ e ∈ (expandSource source target).errors, e.isFatal = true) ↔
      ∃ ts a, tokenize source Cursor.start = .ok ts ∧ Attribute.Reaches a ts ∧
        ¬ Calm (a.item.map Token.lexeme) ∧ a.Turns target := by
  unfold expandSource
  cases htokens : tokenize source Cursor.start with
  | error e => simp [ExpandError.isFatal]
  | ok ts =>
    simp only [Except.ok.injEq, exists_and_left, exists_eq_left']
    rw [exists_isFatal_iff]
    constructor
    · rintro ⟨a, hreaches, hturns⟩
      obtain ⟨-, hitem⟩ := hreaches.tokenize_item [] htokens
      obtain ⟨_, d, r, -, hd, -, -, h⟩ := id hturns
      exact ⟨a, hreaches, h.not_calm hitem hd, hturns⟩
    · rintro ⟨a, hreaches, -, hturns⟩
      exact ⟨a, hreaches, hturns⟩

/-- The expansion of a file ends a run exactly if the search comes to an item that has a stray
apostrophe directly before a backslash and whose convention comes upon another kind. So no file
without such an apostrophe ends a run, on no target; and where one does, it is by a change of the
kind, never by an empty table or an unknown shortcut. Besides, every item that is found lies within
the tokens, every edit lies within its text, and so does every cut that takes the name out of a
literal. -/
theorem fatal?_expandSource (source : Text) (target : Target) :
    ((expandSource source target).fatal? ≠ none ↔
        ∃ ts a, tokenize source Cursor.start = .ok ts ∧ Attribute.Reaches a ts ∧
          ¬ Calm (a.item.map Token.lexeme) ∧ a.Turns target) ∧
      (∀ ts, tokenize source Cursor.start = .ok ts → Calm (ts.map Token.lexeme) →
        (expandSource source target).fatal? = none) ∧
      (∀ e, (expandSource source target).fatal? = some e →
        ∃ before after text, e = .apply (.edit (.kindChanged before after text))) ∧
      (∀ ts a rest, Attribute.search ts = .found a rest →
        ∃ front, ts = front ++ a.item ++ rest ∧ a.item ≠ []) ∧
      (∀ text origin d abi, Declaration.classify text origin = .ok d →
        (d.shape.site.edit abi).InRange text origin ∧
          ∀ name aliased, d.shape = .typeAlias name aliased →
            (aliased.site.edit abi).InRange aliased.source aliased.origin ∧
              ∀ text', Edit.InRange ⟨aliased.origin.offset,
                aliased.origin.offset + aliased.source.length, text'⟩ text origin) ∧
      ∀ text c ts t, tokenize text c = .ok ts → t ∈ ts → Abi.isLiteral t = true →
        Abi.Cuttable t := by
  have hfaults := exists_turns_iff source target
  refine ⟨Expansion.fatal?_ne_none_iff.trans hfaults, ?_, ?_, ?_, ?_, ?_⟩
  · intro ts htokens hcalm
    by_contra hfatal
    obtain ⟨ts', a, htokens', hreaches, hstray, -⟩ :=
      hfaults.mp (Expansion.fatal?_ne_none_iff.mp hfatal)
    obtain rfl := Except.ok.inj (htokens.symm.trans htokens')
    -- The tokens of an item are a row of those of the file.
    have hitem := (hreaches.tokenize_item [] htokens).1
    exact hstray (hcalm.part (hitem.map Token.lexeme))
  · intro e he
    have hmem := List.mem_of_find?_eq_some he
    have hfatal := List.find?_some he
    unfold expandSource at hmem
    split at hmem
    · obtain rfl := List.mem_singleton.mp hmem
      simp [ExpandError.isFatal] at hfatal
    · exact kindChanged_of_expandTokens target _ e hmem hfatal
  · intro ts a rest hsearch
    obtain ⟨attr, blanks, heq, -, hfollowed⟩ := Attribute.search_found hsearch
    refine ⟨_, heq, ?_⟩
    rintro hnil
    obtain ⟨t, ht, -⟩ := hfollowed.last
    simp [hnil] at ht
  · intro text origin d abi hd
    obtain ⟨ts, htokens⟩ := Declaration.exists_tokens hd
    refine ⟨Declaration.edit_inRange htokens hd abi, fun name aliased hshape => ?_⟩
    have haliased := (Declaration.outline?_of_classify htokens hd).2 name aliased hshape
    obtain ⟨inner, hinner, -, hclassify⟩ := Declaration.classify_aliased htokens haliased
    exact ⟨Declaration.edit_inRange hinner hclassify abi, fun text' =>
      Declaration.alias_inRange htokens haliased text'⟩
  · intro text c ts t htokens ht hliteral
    obtain ⟨before, after, rfl⟩ := List.append_of_mem ht
    have hlexed := (tokenize_eq_ok_iff.mp htokens).1
    rw [List.map_append, List.map_cons] at hlexed
    exact Abi.cuttable_of_begins hliteral hlexed.begins

/-- A file with a stray apostrophe directly before a backslash. -/
def strayFile : Text :=
  utf8 "#[abi(\"')] extern \x7b \x7d //\")]\n#[x('\\)] fn foo() \x7b\x7d\n"

/-- A stray apostrophe stays one behind which a literal with an apostrophe is put, unless it stands
directly before a backslash. -/
theorem fatal?_expandSource_apostrophe :
    (Calm (Text.lexemes (utf8 "#[abi(\"'\")]\n#[x(')] fn f();")) ∧
      Lexeme.stray ∈ Text.lexemes (utf8 "#[abi(\"'\")]\n#[x(')] fn f();") ∧
      (expandSource (utf8 "#[abi(\"'\")]\n#[x(')] fn f();") Target.linux64).fatal? = none ∧
      (expandSource (utf8 "#[abi(\"'\")]\n#[x(')] fn f();") Target.linux64).output =
        utf8 "#[x(')] extern \"'\" fn f();") ∧
      ∃ ts a, tokenize strayFile Cursor.start = .ok ts ∧ Attribute.Reaches a ts ∧
        ¬ Calm (a.item.map Token.lexeme) ∧ a.Turns Target.linux64 := by
  have hcalm : Calm (Text.lexemes (utf8 "#[abi(\"'\")]\n#[x(')] fn f();")) := by decide +kernel
  have hstray : Lexeme.stray ∈ Text.lexemes (utf8 "#[abi(\"'\")]\n#[x(')] fn f();") := by
    decide +kernel
  refine ⟨⟨hcalm, hstray, ?_, by decide +kernel⟩,
    (fatal?_expandSource strayFile Target.linux64).1.mp (by decide +kernel)⟩
  cases htokens : tokenize (utf8 "#[abi(\"'\")]\n#[x(')] fn f();") Cursor.start with
  | error e => simp [Text.lexemes, htokens] at hstray
  | ok ts =>
    rw [Text.lexemes, htokens] at hcalm
    exact (fatal?_expandSource _ Target.linux64).2.1 ts htokens hcalm

/-- A stray apostrophe directly before a backslash becomes a character literal together with the
literal that is put in behind it, and the function becomes a block of foreign items. -/
theorem fatal?_stray :
    (expandSource strayFile Target.linux64).fatal? =
      some (.apply (.edit (.kindChanged .function .foreignBlock
        (utf8 "#[x('\\)] extern \"')] extern \x7b \x7d //\" fn foo() \x7b\x7d")))) := by
  decide +kernel

end CallConv
