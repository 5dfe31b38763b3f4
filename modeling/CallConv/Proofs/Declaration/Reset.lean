import Mathlib
import CallConv.Proofs.Declaration.SetAbi

/-!
# Setting the convention of a declaration again

A change of a marker leaves everything around the literal in its place. A second change puts its
literal just where the first one put its own, so that the two together are the second one alone,
also for an alias, where each change takes the aliased type out of the text that the one before
left. By induction over the changes, only the last of them can be seen in the end.
-/

namespace CallConv.Declaration

variable {d d' : Declaration} {abi : Text}

/-- A declaration that is what its text is read as, with no unassigned token in the text. -/
structure Settled (d : Declaration) : Prop where
  /-- The text falls into assigned tokens. -/
  exists_tokens : ∃ ts, tokenize d.source d.origin = .ok ts ∧ ∀ t ∈ ts, t.kind ≠ .unassigned
  /-- The text is read as the declaration. -/
  classify_eq : classify d.source d.origin = .ok d

/-- A text without unassigned tokens is read as a settled declaration. -/
theorem settled_of_classify {source : Text} {origin : Cursor} {ts : List Token}
    (htokens : tokenize source origin = .ok ts) (hassigned : ∀ t ∈ ts, t.kind ≠ .unassigned)
    (hd : classify source origin = .ok d) : d.Settled := by
  obtain ⟨rfl, rfl⟩ := of_classify hd
  exact ⟨⟨ts, htokens, hassigned⟩, hd⟩

/-- The tokens of a settled declaration are assigned. -/
theorem Settled.assigned (h : d.Settled) {ts : List Token}
    (htokens : tokenize d.source d.origin = .ok ts) :
    ∀ l ∈ ts.map Token.lexeme, l.kind ≠ .unassigned := by
  obtain ⟨ts', htokens', hassigned⟩ := h.exists_tokens
  obtain rfl := Except.ok.inj (htokens.symm.trans htokens')
  exact List.forall_mem_map.mpr hassigned

/-- What an edit gives depends on the edited text, its place and the kind to keep only. -/
theorem splice_congr {e e' : Edit} (hkind : d.kind = d'.kind) (horigin : d.origin = d'.origin)
    (happly : e.apply d.source d.origin = e'.apply d'.source d'.origin) :
    d.splice e = d'.splice e' := by
  rw [horigin] at happly
  simp only [splice, happly, horigin, hkind]

/-- Putting another literal in the place of the new one of a changed text is the same as changing
the first text to it. -/
theorem apply_edit_again {source source' : Text} {origin : Cursor} {site : MarkerSite}
    {ts before lead after front back : List Token} {keyword literal : Token}
    (hfound : site.Found ts before lead after) (htokens : tokenize source origin = .ok ts)
    (htokens' : tokenize source' origin = .ok (front ++ literal :: back))
    (hfront : front.map Token.lexeme = before.map Token.lexeme ++ site.ahead)
    (hback : back.map Token.lexeme = site.behind ++ after.map Token.lexeme) (abi : Text) :
    ((MarkerSite.named keyword literal).edit abi).apply source' origin =
      (site.edit abi).apply source origin := by
  obtain ⟨hfirst, hlast⟩ := MarkerSite.edit_bounds_named keyword abi htokens'
  have hsource : source' = Token.join front ++ literal.content ++ Token.join back := by
    rw [← join_of_tokenize htokens', Token.join_append, Token.join_cons, List.append_assoc]
  calc ((MarkerSite.named keyword literal).edit abi).apply source' origin
      = Token.join front ++ Abi.quoted abi ++ Token.join back := by
        rw [hsource]
        exact Edit.apply_eq hfirst hlast
    _ = Lexeme.join (before.map Token.lexeme ++ site.ahead) ++ Abi.quoted abi ++
          Lexeme.join (site.behind ++ after.map Token.lexeme) := by
        rw [Token.join_eq, Token.join_eq, hfront, hback]
    _ = Lexeme.join (before.map Token.lexeme ++ site.inserted abi ++ after.map Token.lexeme) := by
        rw [MarkerSite.inserted_eq]
        simp only [Lexeme.join_append, Lexeme.join_cons, Lexeme.literal, List.append_assoc]
    _ = (site.edit abi).apply source origin := (hfound.apply_edit abi htokens).symm

/-- A change of a settled declaration leaves what stands around the marker as it is, with all tokens
assigned, and the reader finds the new literal between. -/
theorem Settled.exists_site (h : d.Settled) {ts : List Token}
    (htokens : tokenize d.source d.origin = .ok ts) (hset : d.setAbi abi = .ok d')
    (hkind : d'.kind = d.kind) :
    ∃ before lead after front keyword literal back, d.shape.site.Found ts before lead after ∧
      tokenize d'.source d.origin = .ok (front ++ literal :: back) ∧
      (∀ t ∈ front ++ literal :: back, t.kind ≠ .unassigned) ∧
      front.map Token.lexeme = before.map Token.lexeme ++ d.shape.site.ahead ∧
      literal.lexeme = Lexeme.literal abi ∧
      back.map Token.lexeme = d.shape.site.behind ++ after.map Token.lexeme ∧
      d'.shape.site = .named keyword literal := by
  have hlexemes := h.assigned htokens
  have hcalm := Calm.of_assigned hlexemes
  obtain ⟨hsource, -, hclassify⟩ := source_of_setAbi htokens h.classify_eq hset
  -- The changed text falls into what stands around the literal and the literal.
  obtain ⟨before, lead, after, hfound, hchange⟩ :=
    Shape.exists_change (outline?_of_classify htokens h.classify_eq).1
  have hsplit := htokens
  rw [hfound.eq] at hsplit hcalm hlexemes
  obtain ⟨ts', htokens', hts'⟩ := hfound.fits.tokenize_edit abi hsplit hcalm
  rw [← hsource] at htokens'
  have hassigned' : ∀ t ∈ ts', t.kind ≠ .unassigned := by
    have hchanged : ∀ l ∈ ts'.map Token.lexeme, l.kind ≠ .unassigned := by
      rw [hts']
      simp only [List.map_append, List.mem_append] at hlexemes ⊢
      rintro l ((hl | hl) | hl)
      · exact hlexemes l (.inl (.inl hl))
      · exact d.shape.site.assigned_inserted abi l hl
      · exact hlexemes l (.inr hl)
    exact fun t ht => hchanged t.lexeme (List.mem_map_of_mem ht)
  -- The reader finds just the new literal.
  obtain ⟨front, literal, back, rfl, hliteral, hfront, hback⟩ := Shape.exists_cut hts'
  obtain ⟨keyword, houtline⟩ := hchange abi front literal back hliteral hfront hback
  have houtline' := (outline?_of_classify htokens' hclassify).1
  rw [hkind, houtline] at houtline'
  obtain ⟨-, hsite⟩ := Prod.mk.inj (Option.some.inj houtline')
  exact ⟨before, lead, after, front, keyword, literal, back, hfound, htokens', hassigned', hfront,
    hliteral, hback, hsite.symm⟩

/-- A change of a settled declaration gives a settled one of the same kind and name, on which every
further change does what it does on the first one. -/
theorem Settled.setAbi (h : d.Settled) (habi : abi ≠ []) :
    ∃ d', d.setAbi abi = .ok d' ∧ d'.Settled ∧ d'.origin = d.origin ∧ d'.kind = d.kind ∧
      d'.name = d.name ∧
      (∀ c, d'.marker = .named (Abi.ofLiteral ⟨.string, c, Abi.quoted abi⟩)) ∧
      ∀ next, next ≠ [] → d'.setAbi next = d.setAbi next := by
  obtain ⟨ts, htokens, -⟩ := h.exists_tokens
  have hcalm := Calm.of_assigned (h.assigned htokens)
  obtain ⟨d', hsplice, hname, hmarker⟩ := splice_edit htokens hcalm h.classify_eq abi
  have hset : d.setAbi abi = .ok d' :=
    (setAbi_eq_splice htokens hcalm h.classify_eq habi).trans hsplice
  have hkind : d'.kind = d.kind := (of_splice hsplice).2
  obtain ⟨-, horigin, hclassify⟩ := source_of_setAbi htokens h.classify_eq hset
  obtain ⟨before, lead, after, front, keyword, literal, back, hfound, htokens', hassigned', hfront,
    -, hback, hsite⟩ := h.exists_site htokens hset hkind
  have hsettled := settled_of_classify htokens' hassigned' hclassify
  refine ⟨d', hset, hsettled, horigin, hkind, hname, hmarker, fun next hnext => ?_⟩
  -- The next edit replaces the new literal.
  have hcalm' : Calm ((front ++ literal :: back).map Token.lexeme) :=
    Calm.of_assigned (List.forall_mem_map.mpr hassigned')
  rw [setAbi_eq_splice htokens' hcalm' hclassify hnext,
    setAbi_eq_splice htokens hcalm h.classify_eq hnext]
  refine splice_congr hkind horigin ?_
  rw [hsite, horigin]
  exact apply_edit_again hfound htokens htokens' hfront hback next

/-- Changes in a row leave a settled declaration of the same kind and name, on which a further
change does what it does on the first one. -/
theorem Settled.foldlM_setAbi {abis : List Text} (h : d.Settled) (hnames : ∀ a ∈ abis, a ≠ []) :
    ∃ d', abis.foldlM Declaration.setAbi d = .ok d' ∧ d'.Settled ∧
      ∀ abi, abi ≠ [] → d'.setAbi abi = d.setAbi abi := by
  induction abis generalizing d with
  | nil => exact ⟨d, rfl, h, fun _ _ => rfl⟩
  | cons a abis ih =>
    obtain ⟨ha, hrest⟩ := List.forall_mem_cons.mp hnames
    obtain ⟨d₁, hset, hsettled, -, -, -, -, hnext⟩ := h.setAbi ha
    obtain ⟨d', hfold, hsettled', hnext'⟩ := ih hsettled hrest
    refine ⟨d', ?_, hsettled', fun abi habi => (hnext' abi habi).trans (hnext abi habi)⟩
    rw [List.foldlM_cons, hset]
    exact hfold

/-- Of several conventions that a declaration without unassigned tokens gets one after the other,
the last one wins: every change succeeds, and the whole declaration in the end, with its text, its
positions and its marker, is the one that the last change alone makes of the first declaration. -/
theorem setAbi_last_wins (source : Text) (origin : Cursor) (ts : List Token) (d : Declaration)
    (abis : List Text) (abi : Text) (htokens : tokenize source origin = .ok ts)
    (hassigned : ∀ t ∈ ts, t.kind ≠ .unassigned) (hd : classify source origin = .ok d)
    (hnames : ∀ a ∈ abis, a ≠ []) (habi : abi ≠ []) :
    ∃ d', (abis ++ [abi]).foldlM setAbi d = .ok d' ∧ d.setAbi abi = .ok d' ∧
      d'.kind = d.kind ∧ d'.name = d.name ∧ d'.origin = d.origin ∧
      ∀ c, d'.marker = .named (Abi.ofLiteral ⟨.string, c, Abi.quoted abi⟩) := by
  have hsettled := settled_of_classify htokens hassigned hd
  obtain ⟨d₁, hfold, -, hlast⟩ := hsettled.foldlM_setAbi hnames
  obtain ⟨d', hset, -, horigin, hkind, hname, hmarker, -⟩ := hsettled.setAbi habi
  refine ⟨d', ?_, hset, hkind, hname, horigin, hmarker⟩
  calc (abis ++ [abi]).foldlM setAbi d
      = d₁.setAbi abi := by
        rw [List.foldlM_append, hfold]
        exact bind_pure (d₁.setAbi abi)
    _ = .ok d' := (hlast abi habi).trans hset

/-- An alias of a type without a marker gets one, which is replaced twice by one of another
length. -/
theorem setAbi_last_wins_alias :
    ∃ d d', classify (utf8 "type F = fn(u8);") Cursor.start = .ok d ∧
      [utf8 "system-unwind", utf8 "C", utf8 "win64"].foldlM setAbi d = .ok d' ∧
      d.setAbi (utf8 "win64") = .ok d' ∧
      d'.kind = .typeAlias ∧ d'.marker = .named (utf8 "win64") := by
  let fn : Token := ⟨.identifier, ⟨1, 10, 9⟩, utf8 "fn"⟩
  let ts : List Token := Lexeme.place Cursor.start
    [⟨.identifier, utf8 "type"⟩, ⟨.whitespace, utf8 " "⟩, ⟨.identifier, utf8 "F"⟩,
      ⟨.whitespace, utf8 " "⟩, ⟨.equal, utf8 "="⟩, ⟨.whitespace, utf8 " "⟩,
      ⟨.identifier, utf8 "fn"⟩, ⟨.parenLeft, utf8 "("⟩, ⟨.identifier, utf8 "u8"⟩,
      ⟨.parenRight, utf8 ")"⟩, ⟨.semicolon, utf8 ";"⟩]
  let d : Declaration := ⟨utf8 "type F = fn(u8);", Cursor.start,
    .typeAlias (utf8 "F") ⟨utf8 "fn(u8)", ⟨1, 10, 9⟩, .absent fn⟩⟩
  have htokens : tokenize (utf8 "type F = fn(u8);") Cursor.start = .ok ts := by decide +kernel
  have hassigned : ∀ t ∈ ts, t.kind ≠ .unassigned := by decide +kernel
  have hd : classify (utf8 "type F = fn(u8);") Cursor.start = .ok d := by decide +kernel
  obtain ⟨d', hfold, hset, hkind, -, -, hmarker⟩ :=
    setAbi_last_wins _ _ ts d [utf8 "system-unwind", utf8 "C"] (utf8 "win64") htokens hassigned hd
      (by decide) (by decide)
  refine ⟨d, d', hd, hfold, hset, hkind, ?_⟩
  rw [hmarker Cursor.start]
  decide +kernel

end CallConv.Declaration
