import Mathlib
import CallConv.Proofs.Declaration.Insert

/-!
# Setting the convention of a declaration

Setting a convention is one edit of the text around the marker, also for an alias, whose aliased
type is changed as a text of its own and then put back. The changed text falls into the tokens of
the old one with just the marker changed, so that the same reader finds the same declaration with
the new marker. Only a stray apostrophe before a backslash could become part of another token,
which is why the lexemes are asked to be calm.
-/

namespace CallConv

/-- The text of some tokens after the marker at a site was made to name a convention, by a single
edit: the literal is replaced, or one is put behind the keyword, or a marker before `fn`. -/
inductive MarkerSite.Rewritten (abi : Text) : MarkerSite → List Token → Text → Prop
  | named (keyword literal : Token) (before after : List Token) :
    Rewritten abi (.named keyword literal) (before ++ literal :: after)
      (Token.join before ++ Abi.quoted abi ++ Token.join after)
  | bare (keyword : Token) (before after : List Token) :
    Rewritten abi (.bare keyword) (before ++ keyword :: after)
      (Token.join before ++ keyword.content ++ (utf8 " " ++ Abi.quoted abi) ++ Token.join after)
  | absent (fn : Token) (before after : List Token) :
    Rewritten abi (.absent fn) (before ++ fn :: after)
      (Token.join before ++ (utf8 "extern " ++ Abi.quoted abi ++ utf8 " ") ++ fn.content ++
        Token.join after)

namespace MarkerSite

variable {site : MarkerSite} {source : Text} {origin : Cursor} {before after : List Token}

/-- An edit around a marker rewrites the tokens around it. -/
theorem Fits.rewritten (h : site.Fits before after) (abi : Text) :
    site.Rewritten abi (before ++ site.removed ++ after)
      (Token.join before ++ (site.edit abi).text ++ Token.join after) := by
  cases site with
  | absent fn =>
    obtain ⟨⟨rest, rfl, -⟩, -⟩ := h
    rw [removed, List.append_nil, Token.join_cons, ← List.append_assoc]
    exact .absent fn before rest
  | bare keyword =>
    obtain ⟨-, init, rfl⟩ := h
    rw [removed, List.append_nil, List.append_assoc, List.singleton_append, Token.join_append,
      Token.join_cons, Token.join_nil, List.append_nil]
    exact .bare keyword init after
  | named keyword literal =>
    rw [removed, List.append_assoc, List.singleton_append]
    exact .named keyword literal before after

/-- The change of a marker, applied to the whole text. -/
theorem Fits.apply_edit (h : site.Fits before after) (abi : Text)
    (htokens : tokenize source origin = .ok (before ++ site.removed ++ after)) :
    (site.edit abi).apply source origin =
      Token.join before ++ (site.edit abi).text ++ Token.join after := by
  obtain ⟨hfirst, hlast⟩ := h.edit_bounds abi htokens
  obtain ⟨-, hjoin, -⟩ := tokenize_eq_ok_iff.mp htokens
  rw [← hjoin, ← Token.join_eq, Token.join_append, Token.join_append]
  exact Edit.apply_eq hfirst hlast

/-- The changed text falls into the tokens of the old one, with what is put in in place of what is
removed. -/
theorem Fits.tokenize_edit (h : site.Fits before after) (abi : Text)
    (htokens : tokenize source origin = .ok (before ++ site.removed ++ after))
    (hcalm : Calm ((before ++ site.removed ++ after).map Token.lexeme)) :
    ∃ ts', tokenize ((site.edit abi).apply source origin) origin = .ok ts' ∧
      ts'.map Token.lexeme =
        before.map Token.lexeme ++ site.inserted abi ++ after.map Token.lexeme := by
  have hlexed := h.lexed abi (tokenize_eq_ok_iff.mp htokens).1 hcalm
  refine ⟨_, ?_, Lexeme.map_lexeme_place origin _⟩
  rw [h.apply_edit abi htokens, text_edit, Token.join_eq, Token.join_eq, ← Lexeme.join_append,
    ← Lexeme.join_append]
  exact hlexed.tokenize_join origin

/-- A marker among the tokens of a text: what stands before and behind what a change of it removes,
and the significant tokens that lead to it. -/
structure Found (site : MarkerSite) (ts before lead after : List Token) : Prop where
  /-- The tokens are those before, those removed, and those behind. -/
  eq : ts = before ++ site.removed ++ after
  /-- The marker stands between the tokens before and behind. -/
  fits : site.Fits before after
  /-- The significant tokens are the marker and those around it. -/
  significant_eq : significant ts = lead ++ site.tokens ++ significant after
  /-- The significant tokens before what is removed. -/
  before_eq : significant before = lead ++ site.kept
  /-- The tokens of the marker are what a marker consists of. -/
  stands : site.Stands (significant after)

/-- The change of a marker rewrites the tokens of the text. -/
theorem Found.rewritten {ts lead : List Token} (h : site.Found ts before lead after) (abi : Text)
    (htokens : tokenize source origin = .ok ts) :
    site.Rewritten abi ts ((site.edit abi).apply source origin) := by
  obtain ⟨rfl, hfits, -⟩ := h
  rw [hfits.apply_edit abi htokens]
  exact hfits.rewritten abi

/-- The changed text is that of what stands before, what is put in, and what stands behind. -/
theorem Found.apply_edit {ts lead : List Token} (h : site.Found ts before lead after) (abi : Text)
    (htokens : tokenize source origin = .ok ts) :
    (site.edit abi).apply source origin =
      Lexeme.join (before.map Token.lexeme ++ site.inserted abi ++ after.map Token.lexeme) := by
  obtain ⟨rfl, hfits, -⟩ := h
  rw [hfits.apply_edit abi htokens, text_edit, Token.join_eq, Token.join_eq, Lexeme.join_append,
    Lexeme.join_append]

/-- After a change the significant lexemes have a keyword and the new literal as the marker. -/
theorem Found.significant_change {ts lead : List Token} (h : site.Found ts before lead after)
    (abi : Text) :
    Lexeme.significant
        (before.map Token.lexeme ++ site.inserted abi ++ after.map Token.lexeme) =
      lead.map Token.lexeme ++ [Lexeme.externWord, Lexeme.literal abi] ++
        (significant after).map Token.lexeme := by
  calc Lexeme.significant
        (before.map Token.lexeme ++ site.inserted abi ++ after.map Token.lexeme)
      = (significant before).map Token.lexeme ++ Lexeme.significant (site.inserted abi) ++
          (significant after).map Token.lexeme := by
        rw [Lexeme.significant_append, Lexeme.significant_append, map_lexeme_significant,
          map_lexeme_significant]
    _ = lead.map Token.lexeme ++ (site.kept.map Token.lexeme ++
          Lexeme.significant (site.inserted abi)) ++ (significant after).map Token.lexeme := by
        rw [h.before_eq, List.map_append, List.append_assoc (lead.map Token.lexeme)]
    _ = _ := by rw [significant_inserted h.stands]

end MarkerSite

namespace Shape

variable {kind : Kind} {name : Text} {site : MarkerSite} {ts : List Token}

/-- The marker that a reader finds stands among all tokens. With the literal of another convention
in its place the reader finds the same declaration, marked with just that literal. -/
theorem exists_change (h : outline? kind (significant ts) = some (name, site)) :
    ∃ before lead after, site.Found ts before lead after ∧
      ∀ abi front literal back, literal.lexeme = Lexeme.literal abi →
        front.map Token.lexeme = before.map Token.lexeme ++ site.ahead →
        back.map Token.lexeme = site.behind ++ after.map Token.lexeme →
        ∃ keyword, outline? kind (significant (front ++ literal :: back)) =
          some (name, .named keyword literal) := by
  obtain ⟨lead, tail, hsignificant, hled, hstands, hremarks⟩ := remarks_outline? kind h
  obtain ⟨before, after, heq, hfits, hbefore, rfl⟩ :=
    MarkerSite.exists_fit hsignificant hled hstands
  refine ⟨before, lead, after, ⟨heq, hfits, hsignificant, hbefore, hstands⟩,
    fun abi front literal back hliteral hfront hback => ?_⟩
  -- Before the literal the changed text has the same significant tokens and a keyword.
  have hlead : (significant front).map Token.lexeme =
      lead.map Token.lexeme ++ [Lexeme.externWord] := by
    rw [map_lexeme_significant, hfront, Lexeme.significant_append, ← map_lexeme_significant,
      hbefore, List.map_append, List.append_assoc, MarkerSite.significant_ahead hstands]
  have htail : (significant back).map Token.lexeme = (significant after).map Token.lexeme := by
    rw [map_lexeme_significant, hback, Lexeme.significant_append, MarkerSite.significant_behind,
      List.nil_append, ← map_lexeme_significant]
  obtain ⟨lead', marker, hsplit, hlead', hmarker⟩ := List.map_eq_append_iff.mp hlead
  obtain ⟨keyword, rfl, hkeyword⟩ := List.map_eq_singleton_iff.mp hmarker
  -- The lexemes make them a keyword and a literal again.
  have hk : keyword.isWord (utf8 "extern") = true := by
    obtain ⟨hkind, hcontent⟩ : keyword.kind = .identifier ∧ keyword.content = utf8 "extern" :=
      Lexeme.mk.inj hkeyword
    simp [Token.isWord, hkind, hcontent]
  obtain ⟨hkind, hcontent⟩ : literal.kind = .string ∧ literal.content = Abi.quoted abi :=
    Lexeme.mk.inj hliteral
  have hl : Abi.isLiteral literal = true := by
    obtain ⟨t, hquoted, -⟩ := Abi.quoted_eq_cons abi
    rw [Abi.isLiteral, hkind, hcontent, hquoted]
    rfl
  have hcons : significant (front ++ literal :: back) =
      lead' ++ keyword :: literal :: significant back := by
    have htrivia : literal.isTrivia = false := by rw [Token.isTrivia, hkind]; rfl
    rw [significant_append, hsplit, List.append_assoc, List.singleton_append, significant,
      significant, List.filter_cons_of_pos (by simp [htrivia])]
  rw [hcons]
  exact ⟨keyword, hremarks lead' (significant back) keyword literal hlead'.symm htail.symm hk hl⟩

/-- The tokens of a changed text are cut around the new literal. -/
theorem exists_cut {abi : Text} {ts' : List Token} {ls ls' : List Lexeme}
    (h : ts'.map Token.lexeme = ls ++ site.inserted abi ++ ls') :
    ∃ front literal back, ts' = front ++ literal :: back ∧ literal.lexeme = Lexeme.literal abi ∧
      front.map Token.lexeme = ls ++ site.ahead ∧ back.map Token.lexeme = site.behind ++ ls' := by
  have hcut : ls ++ site.inserted abi ++ ls' =
      (ls ++ site.ahead) ++ Lexeme.literal abi :: (site.behind ++ ls') := by
    rw [MarkerSite.inserted_eq]
    simp only [List.append_assoc, List.cons_append]
  rw [hcut] at h
  obtain ⟨front, rest, rfl, hfront, hrest⟩ := List.map_eq_append_iff.mp h
  obtain ⟨literal, back, rfl, hliteral, hback⟩ := List.map_eq_cons_iff.mp hrest
  exact ⟨front, literal, back, rfl, hliteral, hfront, hback⟩

/-- The marker that a reader finds stands among all tokens, and with another convention in its
place the reader finds the same declaration. -/
theorem exists_found (h : outline? kind (significant ts) = some (name, site)) :
    ∃ before lead after, site.Found ts before lead after ∧
      ∀ abi ts', ts'.map Token.lexeme =
          before.map Token.lexeme ++ site.inserted abi ++ after.map Token.lexeme →
        ∃ keyword literal, outline? kind (significant ts') = some (name, .named keyword literal) ∧
          literal.lexeme = Lexeme.literal abi := by
  obtain ⟨before, lead, after, hfound, hchange⟩ := exists_change h
  refine ⟨before, lead, after, hfound, fun abi ts' hts' => ?_⟩
  obtain ⟨front, literal, back, rfl, hliteral, hfront, hback⟩ := exists_cut hts'
  obtain ⟨keyword, houtline⟩ := hchange abi front literal back hliteral hfront hback
  exact ⟨keyword, literal, houtline, hliteral⟩

end Shape

namespace Declaration

variable {source : Text} {origin : Cursor} {ts : List Token} {d d' : Declaration} {abi : Text}

/-- The declaration of a text is what is read of its tokens. -/
theorem classify_eq_ok_iff (htokens : tokenize source origin = .ok ts) :
    classify source origin = .ok d ↔
      ∃ shape, Shape.read? source origin (significant ts) = some (.ok shape) ∧
        d = ⟨source, origin, shape⟩ := by
  simp only [classify, htokens, ofTokens]
  cases hread : Shape.read? source origin (significant ts) with
  | none => simp
  | some result =>
    cases result with
    | error e => simp [Except.map]
    | ok shape => simp [Except.map, eq_comm]

/-- A declaration keeps the text that it was read from and where the text begins. -/
theorem of_classify (h : classify source origin = .ok d) :
    d.source = source ∧ d.origin = origin := by
  cases htokens : tokenize source origin with
  | error e => simp [classify, htokens] at h
  | ok ts =>
    obtain ⟨shape, -, rfl⟩ := (classify_eq_ok_iff htokens).mp h
    exact ⟨rfl, rfl⟩

/-- The marker of a declaration is the one that the reader of its kind finds. -/
theorem outline?_of_classify (htokens : tokenize source origin = .ok ts)
    (h : classify source origin = .ok d) :
    Shape.outline? d.kind (significant ts) = some (d.name, d.shape.site) ∧
      ∀ name aliased, d.shape = .typeAlias name aliased → Shape.Aliased ts aliased := by
  obtain ⟨shape, hread, rfl⟩ := (classify_eq_ok_iff htokens).mp h
  exact Shape.outline?_of_read? htokens hread

/-- Changing the aliased type on its own and putting it back is the same edit of the alias. -/
theorem apply_alias {aliased : PointerType} (htokens : tokenize source origin = .ok ts)
    (h : Shape.Aliased ts aliased) (abi : Text) :
    Edit.apply ⟨aliased.origin.offset, aliased.origin.offset + aliased.source.length,
        (aliased.site.edit abi).apply aliased.source aliased.origin⟩ source origin =
      (aliased.site.edit abi).apply source origin := by
  obtain ⟨front, first, middle, back, rfl, horigin, hsource, hsite⟩ := h
  -- The aliased type falls into its tokens on its own too, so that its marker is found there.
  have hinner : tokenize aliased.source aliased.origin = .ok (first :: middle) := by
    rw [hsource, horigin]
    rw [List.append_assoc] at htokens
    exact tokenize_middle htokens
  have houtline : Shape.outline? .pointerType (significant (first :: middle)) =
      some ([], aliased.site) := by
    simp only [Shape.outline?, hsite]
    rfl
  obtain ⟨before, lead, after, hfound, -⟩ := Shape.exists_found houtline
  have hsplit := hinner
  rw [hfound.eq] at hsplit
  obtain ⟨hfirst, hlast⟩ := hfound.fits.edit_bounds abi hsplit
  -- Both edits are cut out of the text in three pieces.
  have hoffset : aliased.origin.offset = origin.offset + (Token.join front).length := by
    rw [horigin]
    rw [List.append_assoc] at htokens
    exact location_offset_eq htokens
  have haliased : aliased.source =
      Token.join before ++ Token.join aliased.site.removed ++ Token.join after := by
    rw [hsource, hfound.eq, Token.join_append, Token.join_append]
  have hwhole : source = Token.join front ++ aliased.source ++ Token.join back := by
    rw [hsource, ← join_of_tokenize htokens, Token.join_append, Token.join_append]
  -- The outer edit replaces the whole type, the inner one only what it removes.
  have houter : Edit.apply ⟨aliased.origin.offset, aliased.origin.offset + aliased.source.length,
        (aliased.site.edit abi).apply aliased.source aliased.origin⟩ source origin =
      Token.join front ++ (aliased.site.edit abi).apply aliased.source aliased.origin ++
        Token.join back := by
    rw [hwhole]
    refine Edit.apply_eq hoffset ?_
    rw [List.length_append]
    push_cast
    omega
  have hinplace : (aliased.site.edit abi).apply source origin =
      (Token.join front ++ Token.join before) ++ (aliased.site.edit abi).text ++
        (Token.join after ++ Token.join back) := by
    have hregroup : source = (Token.join front ++ Token.join before) ++
        Token.join aliased.site.removed ++ (Token.join after ++ Token.join back) := by
      rw [hwhole, haliased]
      simp only [List.append_assoc]
    rw [hregroup]
    simp only [List.length_append] at hlast
    push_cast at hlast
    refine Edit.apply_eq ?_ ?_
    · rw [List.length_append]
      push_cast
      omega
    · simp only [List.length_append]
      push_cast
      omega
  rw [houter, hinplace, hfound.fits.apply_edit abi hsplit]
  simp only [List.append_assoc]

/-- A declaration that comes out of an edit is the declaration of the edited text. -/
theorem of_splice {e : Edit} (h : d.splice e = .ok d') :
    classify (e.apply d.source d.origin) d.origin = .ok d' ∧ d'.kind = d.kind := by
  unfold splice at h
  simp only at h
  split at h
  · simp at h
  · next found hfound =>
    split at h
    · next hkind =>
      obtain rfl := Except.ok.inj h
      exact ⟨hfound, hkind⟩
    · simp at h

/-- An alias into which the changed type is put is the alias with the marker changed in place. -/
theorem splice_aliased {name : Text} {aliased : PointerType} {changed : Declaration}
    (htokens : tokenize source origin = .ok ts) (hd : classify source origin = .ok d)
    (hshape : d.shape = .typeAlias name aliased)
    (hchanged : (ofPointerType aliased).splice (aliased.site.edit abi) = .ok changed) :
    d.splice ⟨aliased.origin.offset, aliased.origin.offset + aliased.source.length,
        changed.source⟩ = d.splice (d.shape.site.edit abi) := by
  obtain ⟨rfl, rfl⟩ := of_classify hd
  have haliased := (outline?_of_classify htokens hd).2 name aliased hshape
  have hsource : changed.source = (aliased.site.edit abi).apply aliased.source aliased.origin :=
    (of_classify (of_splice hchanged).1).1
  -- An edit matters only for the text that comes out of it.
  have happly := apply_alias htokens haliased abi
  rw [hsource, hshape]
  simp only [splice, happly, Shape.site]

/-- Whatever else happens, a declaration that gets a convention gets it by one edit of its text. -/
theorem source_of_setAbi (htokens : tokenize source origin = .ok ts)
    (hd : classify source origin = .ok d) (h : d.setAbi abi = .ok d') :
    d'.source = (d.shape.site.edit abi).apply source origin ∧ d'.origin = origin ∧
      classify d'.source origin = .ok d' := by
  have hsplice : d.splice (d.shape.site.edit abi) = .ok d' := by
    unfold setAbi at h
    split at h
    · simp at h
    · split at h
      · next name aliased hshape =>
        split at h
        · simp at h
        · next changed hchanged => exact (splice_aliased htokens hd hshape hchanged).symm.trans h
      · exact h
  obtain ⟨rfl, rfl⟩ := of_classify hd
  obtain ⟨hclassify, -⟩ := of_splice hsplice
  obtain ⟨hsource, horigin⟩ := of_classify hclassify
  exact ⟨hsource, horigin, by rw [hsource]; exact hclassify⟩

/-- The change of a marker gives a declaration of the same kind and name with the new marker, if
the tokens are calm. -/
theorem splice_edit (htokens : tokenize source origin = .ok ts)
    (hcalm : Calm (ts.map Token.lexeme)) (hd : classify source origin = .ok d) (abi : Text) :
    ∃ d', d.splice (d.shape.site.edit abi) = .ok d' ∧ d'.name = d.name ∧
      ∀ c, d'.marker = .named (Abi.ofLiteral ⟨.string, c, Abi.quoted abi⟩) := by
  obtain ⟨rfl, rfl⟩ := of_classify hd
  obtain ⟨houtline, -⟩ := outline?_of_classify htokens hd
  obtain ⟨before, lead, after, hfound, hchange⟩ := Shape.exists_found houtline
  rw [hfound.eq] at htokens hcalm
  -- The changed text falls into the changed lexemes, and the reader of the kind finds them.
  obtain ⟨ts', htokens', hts'⟩ := hfound.fits.tokenize_edit abi htokens hcalm
  obtain ⟨keyword, literal, houtline', hliteral⟩ := hchange abi ts' hts'
  obtain ⟨shape, hread, hkind, hname, hsite⟩ := Shape.read?_of_outline? htokens' houtline'
  have hclassify := (classify_eq_ok_iff htokens').mpr ⟨shape, hread, rfl⟩
  refine ⟨⟨(d.shape.site.edit abi).apply d.source d.origin, d.origin, shape⟩, ?_, hname,
    fun c => ?_⟩
  · simp only [splice, hclassify]
    exact if_pos hkind
  · obtain ⟨hlkind, hlcontent⟩ : literal.kind = .string ∧ literal.content = Abi.quoted abi :=
      Lexeme.mk.inj hliteral
    simp only [Declaration.marker, hsite, MarkerSite.marker, Abi.ofLiteral, hlkind, hlcontent]

/-- The aliased type is a declaration of its own. -/
theorem classify_aliased {aliased : PointerType} (htokens : tokenize source origin = .ok ts)
    (h : Shape.Aliased ts aliased) :
    ∃ inner, tokenize aliased.source aliased.origin = .ok inner ∧ inner <:+: ts ∧
      classify aliased.source aliased.origin = .ok (ofPointerType aliased) := by
  obtain ⟨front, first, middle, back, rfl, horigin, hsource, hsite⟩ := h
  have hinner : tokenize aliased.source aliased.origin = .ok (first :: middle) := by
    rw [hsource, horigin]
    rw [List.append_assoc] at htokens
    exact tokenize_middle htokens
  have houtline : Shape.outline? .pointerType (significant (first :: middle)) =
      some ([], aliased.site) := by
    simp only [Shape.outline?, hsite]
    rfl
  -- The reader of function pointer types finds the marker, so that the type is read as one.
  obtain ⟨shape, hread, hkind, -, hshape⟩ := Shape.read?_of_outline? hinner houtline
  refine ⟨first :: middle, hinner, ⟨front, back, rfl⟩, ?_⟩
  refine (classify_eq_ok_iff hinner).mpr ⟨shape, hread, ?_⟩
  cases shape <;> simp_all [Shape.kind, Shape.site, ofPointerType]

/-- For every kind of declaration, setting a convention is one edit around its marker. -/
theorem setAbi_eq_splice (htokens : tokenize source origin = .ok ts)
    (hcalm : Calm (ts.map Token.lexeme)) (hd : classify source origin = .ok d) (habi : abi ≠ []) :
    d.setAbi abi = d.splice (d.shape.site.edit abi) := by
  rw [setAbi, if_neg habi]
  split
  · next name aliased hshape =>
    have haliased := (outline?_of_classify htokens hd).2 name aliased hshape
    obtain ⟨inner, hinner, hpart, hclassify⟩ := classify_aliased htokens haliased
    obtain ⟨changed, hchanged, -⟩ :=
      splice_edit hinner (hcalm.part (hpart.map Token.lexeme)) hclassify abi
    have hedit : (ofPointerType aliased).splice (aliased.site.edit abi) = .ok changed := hchanged
    rw [hedit]
    exact splice_aliased htokens hd hshape hedit
  · rfl

/-- Setting a convention on a declaration without unassigned tokens always succeeds. It is one edit
of the text, which replaces the literal of the marker, or puts one behind the keyword, or puts a
marker before `fn`. The declaration keeps its kind, its name and its place, its significant tokens
but for those of the marker, and its marker names the convention. -/
theorem setAbi_spec (source : Text) (origin : Cursor) (ts : List Token) (d : Declaration)
    (abi : Text) (htokens : tokenize source origin = .ok ts)
    (hassigned : ∀ t ∈ ts, t.kind ≠ .unassigned) (hd : classify source origin = .ok d)
    (habi : abi ≠ []) :
    ∃ d', d.setAbi abi = .ok d' ∧
      d'.kind = d.kind ∧ d'.name = d.name ∧ d'.origin = d.origin ∧
      d'.markerRequired = d.markerRequired ∧
      (∀ c, d'.marker = .named (Abi.ofLiteral ⟨.string, c, Abi.quoted abi⟩)) ∧
      source = Token.join ts ∧ d.shape.site.Rewritten abi ts d'.source ∧
      ∃ lead tail ts', significant ts = lead ++ d.shape.site.tokens ++ tail ∧
        d.shape.site.Stands tail ∧ tokenize d'.source d'.origin = .ok ts' ∧
        (significant ts').map Token.lexeme = lead.map Token.lexeme ++
          [⟨.identifier, utf8 "extern"⟩, ⟨.string, Abi.quoted abi⟩] ++ tail.map Token.lexeme := by
  have hcalm : Calm (ts.map Token.lexeme) := Calm.of_assigned fun l hl => by
    obtain ⟨t, ht, rfl⟩ := List.mem_map.mp hl
    exact hassigned t ht
  obtain ⟨d', hsplice, hname, hmarker⟩ := splice_edit htokens hcalm hd abi
  have hset : d.setAbi abi = .ok d' := (setAbi_eq_splice htokens hcalm hd habi).trans hsplice
  have hkind := (of_splice hsplice).2
  obtain ⟨hsource, horigin, -⟩ := source_of_setAbi htokens hd hset
  obtain ⟨before, lead, after, hfound, -⟩ :=
    Shape.exists_found (outline?_of_classify htokens hd).1
  -- The same cut serves the bytes of the edit and the tokens of the result.
  have hsplit := htokens
  rw [hfound.eq] at hsplit hcalm
  obtain ⟨ts', htokens', hts'⟩ := hfound.fits.tokenize_edit abi hsplit hcalm
  refine ⟨d', hset, hkind, hname, horigin.trans (of_classify hd).2.symm, ?_, hmarker, ?_, ?_,
    lead, significant after, ts', hfound.significant_eq, hfound.stands, ?_, ?_⟩
  · rw [markerRequired, hkind, markerRequired]
  · rw [join_of_tokenize htokens]
  · rw [hsource]
    exact hfound.rewritten abi htokens
  · rw [hsource, horigin]
    exact htokens'
  · rw [map_lexeme_significant, hts']
    exact hfound.significant_change abi

/-- An alias of a type with a keyword alone gets its convention in the aliased type. -/
theorem setAbi_spec_alias :
    ∃ ts d d', tokenize (utf8 "type F<'a> = extern fn(&'a u8);") Cursor.start = .ok ts ∧
      (∀ t ∈ ts, t.kind ≠ .unassigned) ∧
      classify (utf8 "type F<'a> = extern fn(&'a u8);") Cursor.start = .ok d ∧
      d.setAbi (utf8 "C") = .ok d' ∧ d'.kind = .typeAlias ∧ d'.marker = .named (utf8 "C") ∧
      d.shape.site.Rewritten (utf8 "C") ts d'.source := by
  let keyword : Token := ⟨.identifier, ⟨1, 14, 13⟩, utf8 "extern"⟩
  let ts : List Token := Lexeme.place Cursor.start
    [⟨.identifier, utf8 "type"⟩, ⟨.whitespace, utf8 " "⟩, ⟨.identifier, utf8 "F"⟩,
      ⟨.less, utf8 "<"⟩, ⟨.lifetime, utf8 "'a"⟩, ⟨.greater, utf8 ">"⟩, ⟨.whitespace, utf8 " "⟩,
      ⟨.equal, utf8 "="⟩, ⟨.whitespace, utf8 " "⟩, ⟨.identifier, utf8 "extern"⟩,
      ⟨.whitespace, utf8 " "⟩, ⟨.identifier, utf8 "fn"⟩, ⟨.parenLeft, utf8 "("⟩,
      ⟨.ampersand, utf8 "&"⟩, ⟨.lifetime, utf8 "'a"⟩, ⟨.whitespace, utf8 " "⟩,
      ⟨.identifier, utf8 "u8"⟩, ⟨.parenRight, utf8 ")"⟩, ⟨.semicolon, utf8 ";"⟩]
  let d : Declaration := ⟨utf8 "type F<'a> = extern fn(&'a u8);", Cursor.start,
    .typeAlias (utf8 "F") ⟨utf8 "extern fn(&'a u8)", ⟨1, 14, 13⟩, .bare keyword⟩⟩
  have htokens : tokenize (utf8 "type F<'a> = extern fn(&'a u8);") Cursor.start = .ok ts := by
    decide +kernel
  have hassigned : ∀ t ∈ ts, t.kind ≠ .unassigned := by decide +kernel
  have hd : classify (utf8 "type F<'a> = extern fn(&'a u8);") Cursor.start = .ok d := by
    decide +kernel
  obtain ⟨d', hset, hkind, -, -, -, hmarker, -, hrewritten, -⟩ :=
    setAbi_spec _ _ ts d (utf8 "C") htokens hassigned hd (by decide)
  refine ⟨ts, d, d', htokens, hassigned, hd, hset, hkind, ?_, hrewritten⟩
  rw [hmarker Cursor.start]
  decide +kernel

end Declaration

end CallConv
