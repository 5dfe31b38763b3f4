import Mathlib
import CallConv.Proofs.Declaration.Steps
import CallConv.Proofs.Directive.Grammar
import CallConv.Proofs.SourceFile.Targets
import CallConv.Proofs.Token.Position

/-!
# Where failures are reported

The search for attributes, the reader of directives, the reader of declarations and the choice of a
convention all report failures, and the reader of declarations works on an item that was cut out of
the file. Still every failure of a file is reported at a token of the file: at the hash of an
attribute that is not usable, and otherwise at a token of the attribute that fails or of its item
(`AnnotatedItem.exists_token_of_expand`). The search goes on behind the item, so that the failures
of a file are reported in the order of its text (`expandSource_located`).
-/

namespace CallConv

/-! ## Positions of failures -/

/-- Where an attribute is reported that cannot be used. -/
def AttributeError.location : AttributeError → Cursor
  | malformed location => location
  | missingItem location => location

/-- Where the choice of a convention is reported to fail; faults have no place. -/
def ResolveError.location? : ResolveError → Option Cursor
  | missing location => some location
  | unknownShortcut _ | emptyTable => none

/-- Where a change of a marker is reported to fail; faults have no place. -/
def EditError.location? : EditError → Option Cursor
  | emptyName origin => some origin
  | unreadable e => some e.location
  | kindChanged .. => none

/-- Where a directive is reported to fail on a declaration; faults have no place. -/
def ApplyError.location? : ApplyError → Option Cursor
  | resolve e => e.location?
  | edit e => e.location?

/-- Where a failure of a file is reported; faults have no place. -/
def ExpandError.location? : ExpandError → Option Cursor
  | lex e => some e.location
  | attr e => some e.location
  | directive e => some e.location
  | classify e => some e.location
  | apply e => e.location?

/-! ## Messages -/

/-- A text behind a position begins with the position and a colon if the text begins with one. -/
theorem Cursor.text_prefix (c : Cursor) {reason : Text} (h : utf8 ": " <+: reason) (more : Text) :
    c.text ++ utf8 ": " <+: c.text ++ reason ++ more :=
  ((List.prefix_append_right_inj c.text).mpr h).trans (List.prefix_append _ more)

theorem AttributeError.text_prefix_message (e : AttributeError) :
    e.location.text ++ utf8 ": " <+: e.message := by
  rw [← List.append_nil e.message]
  cases e with
  | malformed place => exact place.text_prefix (by decide +kernel) []
  | missingItem place => exact place.text_prefix (by decide +kernel) []

theorem ClassifyError.text_prefix_message (e : ClassifyError) :
    e.location.text ++ utf8 ": " <+: e.message := by
  cases e with
  | lex e => exact List.prefix_append _ _
  | unsupportedItem origin => exact origin.text_prefix (by decide +kernel) _
  | unsupportedAlias place name =>
    simp only [message, List.append_assoc]
    exact ⟨_, List.append_assoc _ _ _⟩
  | unsupportedBinding place name =>
    simp only [message, List.append_assoc]
    exact ⟨_, List.append_assoc _ _ _⟩

theorem ApplyError.text_prefix_message {e : ApplyError} {c : Cursor} (h : e.location? = some c) :
    c.text ++ utf8 ": " <+: e.message?.getD [] := by
  cases e with
  | resolve e =>
    cases e with
    | missing place =>
      obtain rfl := Option.some.inj h
      exact place.text_prefix (by decide +kernel) _
    | unknownShortcut name => simp [location?, ResolveError.location?] at h
    | emptyTable => simp [location?, ResolveError.location?] at h
  | edit e =>
    cases e with
    | emptyName origin =>
      obtain rfl := Option.some.inj h
      have hprefix := origin.text_prefix (by decide +kernel :
        utf8 ": " <+: utf8 ": cannot set an empty ABI name") []
      rw [List.append_nil] at hprefix
      exact hprefix
    | unreadable e =>
      obtain rfl := Option.some.inj h
      exact e.text_prefix_message
    | kindChanged before after text => simp [location?, EditError.location?] at h

/-- The message of a failure begins with where it is reported. -/
theorem ExpandError.text_prefix_message {e : ExpandError} {c : Cursor}
    (h : e.location? = some c) : c.text ++ utf8 ": " <+: e.message := by
  cases e with
  | lex e =>
    obtain rfl := Option.some.inj h
    exact List.prefix_append _ _
  | attr e =>
    obtain rfl := Option.some.inj h
    exact e.text_prefix_message
  | directive e =>
    obtain rfl := Option.some.inj h
    obtain ⟨reason, hreason⟩ := e.message_eq
    exact ⟨reason, hreason.symm⟩
  | classify e =>
    obtain rfl := Option.some.inj h
    exact e.text_prefix_message
  | apply e => exact ApplyError.text_prefix_message h

/-! ## One attribute -/

/-- A directive is refused at one of its tokens or at its end. -/
theorem Directive.location_of_ofTokens {finish : Cursor} {ts : List Token} {e : DirectiveError}
    (h : ofTokens finish ts = .error e) :
    (∃ t ∈ ts, e.location = t.location) ∨ e.location = finish := by
  obtain ⟨d, hread, -⟩ | ⟨e', hread, hstops⟩ := ofSignificant_cases finish (significant ts)
  · simp [ofTokens, hread] at h
  · obtain rfl : e' = e := by simpa [ofTokens, hread] using h
    rcases hstops with ⟨front, t, behind, hts, -, -, hlocation⟩ | ⟨-, hlocation⟩
    · have ht : t ∈ significant ts := by simp [hts]
      exact .inl ⟨t, List.mem_of_mem_filter ht, hlocation⟩
    · exact .inr hlocation

/-- The entries of a table stand where their shortcuts do. -/
theorem Directive.Entries.exists_location {ts : List Token} {entries : List TableEntry}
    (h : Entries ts entries) : ∀ entry ∈ entries, ∃ t ∈ ts, entry.location = t.location := by
  induction h with
  | @last shortcut sign name => simp [entryOf]
  | @more shortcut sign name separator ts entries _ _ _ _ _ ih =>
    intro entry hentry
    rcases List.mem_cons.mp hentry with rfl | hentry
    · exact ⟨shortcut, by simp, rfl⟩
    · obtain ⟨t, ht, hlocation⟩ := ih entry hentry
      exact ⟨t, by simp [ht], hlocation⟩

/-- A table that misses a target does so at one of the tokens that it was read from. -/
theorem Directive.location_of_missing {finish place : Cursor} {ts : List Token}
    {directive : Directive} {target : Target} {existing : Marker}
    (h : ofTokens finish ts = .ok directive)
    (hmissing : directive.resolve target existing = .error (.missing place)) :
    ∃ t ∈ ts, place = t.location := by
  have hsound := sound_of_ofTokens h
  have hgrammar : Grammar (significant ts) directive := ofSignificant_eq_ok_iff.mp h
  generalize hsignificant : significant ts = sig at hgrammar
  cases hgrammar with
  | direct => simp [resolve] at hmissing
  | @table _ entries hentries =>
    simp only [resolve] at hmissing
    split at hmissing
    · next e hmatch => exact absurd hmatch (firstMatch_ne_error fun e he => (hsound.2 e he).1)
    · simp at hmissing
    · split at hmissing
      · simp at hmissing
      · next first more _ _ =>
        -- It is reported at the first of its entries.
        obtain rfl := ResolveError.missing.inj (Except.error.inj hmissing)
        obtain ⟨t, ht, hlocation⟩ := hentries.exists_location first List.mem_cons_self
        exact ⟨t, List.mem_of_mem_filter (hsignificant ▸ ht), hlocation⟩
      · simp at hmissing

/-- A text that falls into tokens is refused at one of them. -/
theorem Declaration.location_of_classify {source : Text} {origin : Cursor} {ts : List Token}
    {e : ClassifyError} (htokens : tokenize source origin = .ok ts) (hne : ts ≠ [])
    (h : classify source origin = .error e) : ∃ t ∈ ts, e.location = t.location := by
  unfold classify at h
  simp only [htokens, ofTokens] at h
  split at h
  · next result hread =>
    cases result with
    | ok shape => simp [Except.map] at h
    | error cause =>
      obtain rfl := Except.error.inj h
      obtain ⟨t, ht, hlocation⟩ := location_of_read? htokens hread
      exact ⟨t, List.mem_of_mem_filter ht, hlocation⟩
  · obtain rfl := Except.error.inj h
    obtain ⟨first, more, rfl⟩ := List.exists_cons_of_ne_nil hne
    have hfirst : tokenize source origin = .ok ([] ++ first :: more) := htokens
    exact ⟨first, List.mem_cons_self, (location_eq hfirst).symm⟩

/-- Applying a directive fails to choose a convention where choosing it fails. -/
theorem Declaration.resolve_of_apply {d : Declaration} {directive : Directive} {target : Target}
    {e : ResolveError} (h : d.apply directive target = .error (.resolve e)) :
    directive.resolve target d.marker = .error e := by
  unfold apply at h
  split at h
  · next e' hresolve => rw [hresolve, ApplyError.resolve.inj (Except.error.inj h)]
  · split at h
    · split at h <;> simp at h
    · simp at h

/-- A failure to expand an item is reported at one of the tokens of its attribute or of the item, if
the item holds no unassigned token. -/
theorem AnnotatedItem.exists_token_of_expand {a : AnnotatedItem} {s : Attribute.Spelling}
    {target : Target} {e : ExpandError} (hspells : s.Spells a) (hne : a.item ≠ [])
    (htokens : tokenize (Token.join a.item) a.origin = .ok a.item)
    (hassigned : ∀ t ∈ a.item, t.kind ≠ .unassigned) (h : a.expand target = .error e) :
    ∃ t ∈ s.tokens a.arguments ++ a.item, e.location? = some t.location := by
  have harguments : ∀ t ∈ a.arguments, t ∈ s.tokens a.arguments ++ a.item := by
    intro t ht
    simp [Attribute.Spelling.tokens, Attribute.Ending.tokens, ht]
  unfold expand expandText at h
  split at h
  · next directiveError hdirective =>
    obtain rfl := Except.error.inj h
    obtain ⟨t, ht, hlocation⟩ | hlocation := Directive.location_of_ofTokens hdirective
    · exact ⟨t, harguments t ht, congrArg some hlocation⟩
    · refine ⟨s.close, by simp [Attribute.Spelling.tokens, Attribute.Ending.tokens], ?_⟩
      rw [hspells.ends.finish]
      exact congrArg some hlocation
  · next directive hdirective =>
    split at h
    · next classifyError hd =>
      obtain rfl := Except.error.inj h
      obtain ⟨t, ht, hlocation⟩ := Declaration.location_of_classify htokens hne hd
      exact ⟨t, List.mem_append_right _ ht, congrArg some hlocation⟩
    · next d hd =>
      -- A settled declaration takes every convention, so that only a table can fail.
      have hsettled := Declaration.settled_of_classify htokens hassigned hd
      rcases hsettled.apply_cases (Directive.sound_of_ofTokens hdirective) target with
        ⟨d', r, happly, -⟩ | ⟨place, happly⟩
      · simp [happly] at h
      · simp only [happly] at h
        obtain rfl := Except.error.inj h
        obtain ⟨t, ht, hlocation⟩ := Directive.location_of_missing hdirective
          (Declaration.resolve_of_apply happly)
        exact ⟨t, harguments t ht, congrArg some hlocation⟩

/-! ## The search -/

namespace Attribute

/-- No trivia is left in front. -/
theorem dropTrivia_dropTrivia (ts : List Token) : dropTrivia (dropTrivia ts) = dropTrivia ts :=
  List.dropWhile_idempotent _ ts

/-- The search does not look at the trivia in front. -/
theorem search_dropTrivia (ts : List Token) : search (dropTrivia ts) = search ts := by
  unfold search
  rw [dropTrivia_dropTrivia]

/-- An attribute that cannot be used is reported where it begins. -/
theorem location_of_finish {location : Cursor} {ts rest : List Token} {e : AttributeError}
    (h : finish location ts = .passed (some e) rest) : e.location = location := by
  have hmalformed : ∀ us, Finding.passed (some (.malformed location)) us = .passed (some e) rest →
      e.location = location := by
    intro us hus
    rw [← Option.some.inj (Finding.passed.inj hus).1]
    rfl
  unfold finish at h
  split at h
  · exact hmalformed _ h
  · split at h
    · split at h
      · exact hmalformed _ h
      · split at h
        · exact hmalformed _ h
        · split at h
          · dsimp only at h
            split at h
            · rw [← Option.some.inj (Finding.passed.inj h).1]
              rfl
            · simp at h
          · exact hmalformed _ h
    · exact hmalformed _ h

/-- An attribute that cannot be used is reported at its hash, and the search goes on behind it. -/
theorem hash_of_search {ts rest : List Token} {e : AttributeError}
    (h : search ts = .passed (some e) rest) :
    ∃ hash behind, dropTrivia ts = hash :: behind ∧ hash.kind = .hash ∧
      e.location = hash.location ∧ rest <:+ behind := by
  unfold search at h
  split at h
  · simp at h
  · next hash inner hhash =>
    split at h
    · next hkind =>
      split at h
      · next bracket inner' hbracket =>
        split at h
        · dsimp only at h
          split at h
          · refine ⟨hash, inner, hhash, hkind, location_of_finish h, ?_⟩
            have hrest := suffix_of_finish (by rw [h]; rfl)
            exact ((hrest.trans (suffix_of_readPath inner')).trans (List.suffix_cons _ _)).trans
              (suffix_of_dropTrivia hbracket)
          · simp at h
        · simp at h
      · simp at h
    · simp at h

end Attribute

/-- An attribute fails on a target, and with its item takes up a region of the file before some
tokens. An attribute that cannot be used is reported at its hash, whatever follows. -/
inductive Fails (target : Target) : ExpandError → (region behind : List Token) → Prop
  /-- The attribute cannot be used. -/
  | attr {hash : Token} {behind : List Token} {e : AttributeError} (hkind : hash.kind = .hash)
      (hsearch : ∃ rest, Attribute.search (hash :: behind) = .passed (some e) rest) :
      Fails target (.attr e) [hash] behind
  /-- The attribute cannot be expanded on its item. -/
  | item {a : AnnotatedItem} {s : Attribute.Spelling} {blanks behind : List Token}
      {e : ExpandError} (hspells : s.Spells a) (hfollowed : Attribute.Followed blanks a.item behind)
      (hsearch : Attribute.search (s.tokens a.arguments ++ blanks ++ a.item ++ behind) =
        .found a behind)
      (hexpand : a.expand target = .error e) :
      Fails target e (s.tokens a.arguments ++ blanks ++ a.item) behind

/-- A failure of a file is reported at a token of the attribute that fails or of its item. -/
structure ReportedAt (target : Target) (ts : List Token) (e : ExpandError) (t : Token) : Prop where
  /-- The failure carries the position of the token. -/
  place : e.location? = some t.location
  /-- The message begins with the position. -/
  message : t.location.text ++ utf8 ": " <+: e.message
  /-- The token lies in the region of the attribute that fails. -/
  within : ∃ front region behind, ts = front ++ region ++ behind ∧ Fails target e region behind ∧
    t ∈ region

section Run

variable {target : Target} {source : Text} {c : Cursor} {ts rest : List Token} {e : ExpandError}
  {t : Token}

/-- With more tokens in front a failure is reported at the same token. -/
theorem ReportedAt.append_left (taken : List Token) (h : ReportedAt target ts e t) :
    ReportedAt target (taken ++ ts) e t := by
  obtain ⟨front, region, behind, rfl, hfails, ht⟩ := h.within
  exact ⟨h.place, h.message, taken ++ front, region, behind, by simp, hfails, ht⟩

/-- An attribute that cannot be used fails where the search comes to it. -/
theorem Fails.of_passed (target : Target) {e : AttributeError}
    (hsearch : Attribute.search ts = .passed (some e) rest) :
    ∃ hash behind, dropTrivia ts = hash :: behind ∧ rest <:+ behind ∧
      e.location = hash.location ∧ Fails target (.attr e) [hash] behind := by
  obtain ⟨hash, behind, hts, hkind, hlocation, hrest⟩ := Attribute.hash_of_search hsearch
  refine ⟨hash, behind, hts, hrest, hlocation, .attr hkind ⟨rest, ?_⟩⟩
  rw [← hts, Attribute.search_dropTrivia]
  exact hsearch

/-- A failure to use an attribute is reported before the search goes on. -/
theorem reportedAt_of_passed {e : AttributeError}
    (hsearch : Attribute.search ts = .passed (some e) rest) :
    ∃ t taken, ts = taken ++ rest ∧ t ∈ taken ∧ ReportedAt target ts (.attr e) t := by
  obtain ⟨hash, behind, hts, ⟨taken, rfl⟩, hlocation, hfails⟩ := Fails.of_passed target hsearch
  have hplace : (ExpandError.attr e).location? = some hash.location := congrArg some hlocation
  have hsplit : ts = ts.takeWhile Token.isTrivia ++ hash :: (taken ++ rest) := by
    rw [← hts, takeWhile_append_dropTrivia]
  refine ⟨hash, ts.takeWhile Token.isTrivia ++ hash :: taken, ?_, by simp, hplace,
    ExpandError.text_prefix_message hplace, ts.takeWhile Token.isTrivia, [hash], taken ++ rest,
    ?_, hfails, List.mem_singleton_self hash⟩
  · rw [List.append_assoc, List.cons_append]
    exact hsplit
  · rw [List.append_assoc, List.singleton_append]
    exact hsplit

/-- A failure to expand an item is reported before the search goes on. -/
theorem reportedAt_of_found {front : List Token} {a : AnnotatedItem}
    (htokens : tokenize source c = .ok (front ++ ts)) (hassigned : ∀ t ∈ ts, t.kind ≠ .unassigned)
    (hsearch : Attribute.search ts = .found a rest) (hexpand : a.expand target = .error e) :
    ∃ t taken, ts = taken ++ rest ∧ t ∈ taken ∧ ReportedAt target ts e t := by
  obtain ⟨s, blanks, hdrop, hspells, hfollowed⟩ := Attribute.search_spells hsearch
  obtain ⟨hitem, htokensItem⟩ := (Attribute.Reaches.found hsearch).tokenize_item front htokens
  have hne : a.item ≠ [] := by
    obtain ⟨u, hu, -⟩ := hfollowed.last
    rintro hnil
    simp [hnil] at hu
  obtain ⟨t, ht, hplace⟩ := AnnotatedItem.exists_token_of_expand hspells hne htokensItem
    (fun u hu => hassigned u (hitem.subset hu)) hexpand
  have hregion : t ∈ s.tokens a.arguments ++ blanks ++ a.item := by
    simp only [List.mem_append] at ht ⊢
    tauto
  have hsplit : ts = ts.takeWhile Token.isTrivia ++
      (s.tokens a.arguments ++ blanks ++ a.item) ++ rest := by
    conv_lhs => rw [← takeWhile_append_dropTrivia ts, hdrop]
    simp only [List.append_assoc]
  refine ⟨t, ts.takeWhile Token.isTrivia ++ (s.tokens a.arguments ++ blanks ++ a.item), hsplit,
    List.mem_append_right _ hregion, hplace, ExpandError.text_prefix_message hplace,
    ts.takeWhile Token.isTrivia, _, rest, hsplit, .item hspells hfollowed ?_ hexpand, hregion⟩
  rw [← hdrop, Attribute.search_dropTrivia]
  exact hsearch

/-- The failures of some tokens are reported at tokens in their order. -/
theorem exists_places (target : Target) {front : List Token}
    (htokens : tokenize source c = .ok (front ++ ts))
    (hassigned : ∀ t ∈ ts, t.kind ≠ .unassigned) :
    ∃ places, places.Sublist ts ∧
      List.Forall₂ (ReportedAt target ts) (expandTokens target ts).errors places := by
  -- What the search leaves behind an attribute is searched in its turn.
  have hmore {taken rest places : List Token} {errors : List ExpandError}
      (h : List.Forall₂ (ReportedAt target rest) errors places) :
      List.Forall₂ (ReportedAt target (taken ++ rest)) errors places :=
    h.imp fun _ _ hreported => hreported.append_left taken
  fun_induction expandTokens target ts generalizing front with
  | case1 ts hsearch => exact ⟨[], List.nil_sublist ts, .nil⟩
  | case2 ts rest hsearch ih =>
    obtain ⟨taken, rfl⟩ := Attribute.suffix_of_search (by rw [hsearch]; rfl)
    rw [← List.append_assoc] at htokens
    obtain ⟨places, hsub, hreported⟩ := ih htokens (List.forall_mem_append.mp hassigned).2
    exact ⟨places, hsub.trans (List.sublist_append_right taken rest), hmore hreported⟩
  | case3 ts e rest hsearch ih =>
    obtain ⟨t, taken, rfl, ht, hfirst⟩ := reportedAt_of_passed hsearch
    rw [← List.append_assoc] at htokens
    obtain ⟨places, hsub, hreported⟩ := ih htokens (List.forall_mem_append.mp hassigned).2
    exact ⟨[t] ++ places, (List.singleton_sublist.mpr ht).append hsub,
      .cons hfirst (hmore hreported)⟩
  | case4 ts a rest hsearch e hexpand ih =>
    obtain ⟨t, taken, rfl, ht, hfirst⟩ := reportedAt_of_found htokens hassigned hsearch hexpand
    rw [← List.append_assoc] at htokens
    obtain ⟨places, hsub, hreported⟩ := ih htokens (List.forall_mem_append.mp hassigned).2
    exact ⟨[t] ++ places, (List.singleton_sublist.mpr ht).append hsub,
      .cons hfirst (hmore hreported)⟩
  | case5 ts a rest hsearch r text hexpand ih =>
    obtain ⟨taken, rfl⟩ := Attribute.suffix_of_search (by rw [hsearch]; rfl)
    rw [← List.append_assoc] at htokens
    obtain ⟨places, hsub, hreported⟩ := ih htokens (List.forall_mem_append.mp hassigned).2
    exact ⟨places, hsub.trans (List.sublist_append_right taken rest), hmore hreported⟩

/-- The items of some tokens stand at hashes in their order. -/
theorem exists_hashes (target : Target) (ts : List Token) :
    ∃ hashes : List Token, hashes.Sublist ts ∧ (∀ t ∈ hashes, t.kind = .hash) ∧
      (expandTokens target ts).items.map ExpandedItem.location = hashes.map Token.location := by
  fun_induction expandTokens target ts with
  | case1 ts hsearch => exact ⟨[], List.nil_sublist ts, by simp, rfl⟩
  | case2 ts rest hsearch ih =>
    obtain ⟨taken, rfl⟩ := Attribute.suffix_of_search (by rw [hsearch]; rfl)
    obtain ⟨hashes, hsub, hhashes⟩ := ih
    exact ⟨hashes, hsub.trans (List.sublist_append_right taken rest), hhashes⟩
  | case3 ts e rest hsearch ih =>
    obtain ⟨taken, rfl⟩ := Attribute.suffix_of_search (by rw [hsearch]; rfl)
    obtain ⟨hashes, hsub, hhashes⟩ := ih
    exact ⟨hashes, hsub.trans (List.sublist_append_right taken rest), hhashes⟩
  | case4 ts a rest hsearch e hexpand ih =>
    obtain ⟨taken, rfl⟩ := Attribute.suffix_of_search (by rw [hsearch]; rfl)
    obtain ⟨hashes, hsub, hhashes⟩ := ih
    exact ⟨hashes, hsub.trans (List.sublist_append_right taken rest), hhashes⟩
  | case5 ts a rest hsearch r text hexpand ih =>
    obtain ⟨s, blanks, hdrop, hspells, -⟩ := Attribute.search_spells hsearch
    obtain ⟨-, -, -, -, -, -, -, rfl, -⟩ := a.expand_eq_ok hexpand
    obtain ⟨hashes, hsub, hkinds, hlocations⟩ := ih
    refine ⟨[s.hash] ++ hashes, ?_, ?_, ?_⟩
    · refine List.Sublist.trans ?_ (Attribute.suffix_of_dropTrivia hdrop).sublist
      refine List.Sublist.append (List.singleton_sublist.mpr ?_) hsub
      simp [Attribute.Spelling.tokens]
    · simpa [hspells.hash] using hkinds
    · simpa [Expansion.add, Expansion.prepend, hspells.location] using hlocations

end Run

/-- The failures of a file are reported at tokens of the file, each at one of the attribute that
fails or of its item, and the items of its attributes at hashes. Both follow the order of the file:
their offsets increase. -/
theorem expandSource_located (source : Text) (target : Target) (ts : List Token)
    (htokens : tokenize source Cursor.start = .ok ts)
    (hassigned : ∀ t ∈ ts, t.kind ≠ .unassigned) :
    (∃ places : List Token, places.Sublist ts ∧
      List.Forall₂ (ReportedAt target ts) (expandSource source target).errors places ∧
      places.Pairwise fun t u => t.location.offset < u.location.offset) ∧
    ∃ hashes : List Token, hashes.Sublist ts ∧ (∀ t ∈ hashes, t.kind = .hash) ∧
      (expandSource source target).items.map ExpandedItem.location = hashes.map Token.location ∧
      hashes.Pairwise fun t u => t.location.offset < u.location.offset := by
  have hexpand : expandSource source target = expandTokens target ts := by
    simp only [expandSource, htokens]
  have hpairwise := pairwise_offset_of_tokenize htokens
  have htokens' : tokenize source Cursor.start = .ok ([] ++ ts) := htokens
  obtain ⟨places, hsub, hreported⟩ := exists_places target htokens' hassigned
  obtain ⟨hashes, hsub', hkinds, hlocations⟩ := exists_hashes target ts
  rw [hexpand]
  exact ⟨⟨places, hsub, hreported, hpairwise.sublist hsub⟩,
    hashes, hsub', hkinds, hlocations, hpairwise.sublist hsub'⟩

/-- An attribute without arguments, an attribute before a function, and one before an alias of a
type that takes no convention. -/
def alongAlias : Text := utf8 "#[abi]\n#[abi(\"C\")] fn f();\n#[abi(\"C\")] type T = u8;"

/-- The first attribute is reported at its hash and the last one at the type, and the function
stands at the hash between them. -/
theorem expandSource_located_alias :
    (expandSource alongAlias Target.linux64).errors.map ExpandError.location? =
        [some ⟨1, 1, 0⟩, some ⟨3, 22, 48⟩] ∧
      (expandSource alongAlias Target.linux64).items.map ExpandedItem.location = [⟨2, 1, 7⟩] ∧
      ∃ (ts places hashes : List Token), tokenize alongAlias Cursor.start = .ok ts ∧
        places.Sublist ts ∧
        List.Forall₂ (ReportedAt Target.linux64 ts) (expandSource alongAlias Target.linux64).errors
          places ∧
        hashes.Sublist ts ∧ hashes.map Token.location = [⟨2, 1, 7⟩] := by
  let ls : List Lexeme :=
    [⟨.hash, utf8 "#"⟩, ⟨.bracketLeft, utf8 "["⟩, ⟨.identifier, utf8 "abi"⟩,
      ⟨.bracketRight, utf8 "]"⟩, ⟨.newline, [Byte.newline]⟩,
      ⟨.hash, utf8 "#"⟩, ⟨.bracketLeft, utf8 "["⟩, ⟨.identifier, utf8 "abi"⟩,
      ⟨.parenLeft, utf8 "("⟩,
      ⟨.string, utf8 "\"C\""⟩, ⟨.parenRight, utf8 ")"⟩, ⟨.bracketRight, utf8 "]"⟩,
      ⟨.whitespace, utf8 " "⟩, ⟨.identifier, utf8 "fn"⟩, ⟨.whitespace, utf8 " "⟩,
      ⟨.identifier, utf8 "f"⟩, ⟨.parenLeft, utf8 "("⟩, ⟨.parenRight, utf8 ")"⟩,
      ⟨.semicolon, utf8 ";"⟩, ⟨.newline, [Byte.newline]⟩,
      ⟨.hash, utf8 "#"⟩, ⟨.bracketLeft, utf8 "["⟩, ⟨.identifier, utf8 "abi"⟩,
      ⟨.parenLeft, utf8 "("⟩,
      ⟨.string, utf8 "\"C\""⟩, ⟨.parenRight, utf8 ")"⟩, ⟨.bracketRight, utf8 "]"⟩,
      ⟨.whitespace, utf8 " "⟩, ⟨.identifier, utf8 "type"⟩, ⟨.whitespace, utf8 " "⟩,
      ⟨.identifier, utf8 "T"⟩, ⟨.whitespace, utf8 " "⟩, ⟨.equal, utf8 "="⟩,
      ⟨.whitespace, utf8 " "⟩, ⟨.identifier, utf8 "u8"⟩, ⟨.semicolon, utf8 ";"⟩]
  have htokens : tokenize alongAlias Cursor.start = .ok (Lexeme.place Cursor.start ls) := by
    decide +kernel
  have hitems : (expandSource alongAlias Target.linux64).items.map ExpandedItem.location =
      [⟨2, 1, 7⟩] := by decide +kernel
  obtain ⟨⟨places, hsub, hreported, -⟩, hashes, hsub', -, hlocations, -⟩ :=
    expandSource_located alongAlias Target.linux64 _ htokens (by decide +kernel)
  exact ⟨by decide +kernel, hitems, _, places, hashes, htokens, hsub, hreported, hsub',
    hlocations.symm.trans hitems⟩

end CallConv
