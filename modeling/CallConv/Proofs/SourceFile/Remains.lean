import Mathlib
import CallConv.Proofs.Declaration.Grammar
import CallConv.Proofs.SourceFile.Relex

/-!
# What a second expansion finds

An expansion takes out the attributes that it comes to, and goes on behind their items. What is left
is found by a second expansion of the output, which changes nothing exactly if no attribute begins
in the output (`expandSource_eq_self_iff`). None begins outside of the items, and to a search an
item is after its change what it was before (`Slot.Alike`), so that the attributes that are left are
those within the items.
-/

namespace CallConv

/-! ## Files without attributes -/

/-- Tokens among which no attribute begins are passed over. -/
theorem expandTokens_of_not_occurs (target : Target) {ts : List Token}
    (h : Attribute.occurs ts = false) : expandTokens target ts = ⟨[], [], Token.join ts⟩ := by
  fun_induction expandTokens target ts with
  | case1 ts hsearch => rfl
  | case2 ts rest hsearch ih =>
    obtain ⟨taken, l, ls, rfl, -⟩ := (Attribute.passes_of_search hsearch).taken
    rw [Attribute.occurs, Attribute.meaning_append] at h
    rw [ih (Lexeme.occursIn_of_append h), before_append]
    simp [Expansion.prepend]
  | case3 ts e rest hsearch ih => simp [Attribute.occurs_of_search, hsearch] at h
  | case4 ts a rest hsearch e hexpand ih => simp [Attribute.occurs_of_search, hsearch] at h
  | case5 ts a rest hsearch r text hexpand ih => simp [Attribute.occurs_of_search, hsearch] at h

/-- Tokens stay as they are if and only if no attribute begins among them. -/
theorem expandTokens_eq_self_iff {target : Target} {ts : List Token} :
    expandTokens target ts = ⟨[], [], Token.join ts⟩ ↔ Attribute.occurs ts = false := by
  refine ⟨fun h => ?_, expandTokens_of_not_occurs target⟩
  obtain ⟨slots, last, heq, -, heach, hquiet⟩ := exists_quiet_slots target ts (by rw [h])
  -- Without items there are no slots.
  rw [h] at heach
  cases heach
  rw [heq]
  exact hquiet.last

/-- A file stays as it is if and only if it falls into tokens among which no attribute begins. -/
theorem expandSource_eq_self_iff {source : Text} {target : Target} :
    expandSource source target = ⟨[], [], source⟩ ↔
      ∃ ts, tokenize source Cursor.start = .ok ts ∧ Attribute.occurs ts = false := by
  cases htokens : tokenize source Cursor.start with
  | error e => simp [expandSource, htokens]
  | ok ts =>
    have hjoin := join_of_tokenize htokens
    have hexpand : expandSource source target = expandTokens target ts := by
      simp only [expandSource, htokens]
    rw [hexpand, ← hjoin, expandTokens_eq_self_iff]
    simp

/-! ## Items before and after their change -/

/-- A keyword of a declaration stands in no path of the attribute. -/
theorem Attribute.keyword_notMem {text : Text} {segments : List Text}
    (h : text ∈ Grammar.keywords) (hknown : isKnown segments = true) : text ∉ segments := by
  have hkeywords : ∀ text ∈ Grammar.keywords,
      ∀ segments ∈ [[utf8 "abi"], [utf8 "fn_abi", utf8 "abi"], [utf8 "fn_abi::abi"]],
        text ∉ segments := by decide
  exact hkeywords text h segments (isKnown_iff.mp hknown)

/-- A keyword of a declaration is foreign to an attribute. -/
theorem Lexeme.foreign_of_keyword {t : Token} {text : Text} (h : t.isWord text = true)
    (htext : text ∈ Grammar.keywords) (ls : List Lexeme) : Foreign (t.lexeme :: ls) := by
  refine ⟨t.lexeme, ls, rfl, kind_of_isWord h, fun segments hknown => ?_⟩
  rw [Token.lexeme, content_of_isWord h]
  exact Attribute.keyword_notMem htext hknown

/-- No attribute reaches into a declaration from before it. -/
theorem Lexeme.ends_or_foreign_of_mem {ts : List Token} {kind : Kind}
    (h : ts ∈ Grammar.declaration kind) :
    Ends (ts.map Token.lexeme) ∨ Foreign (ts.map Token.lexeme) := by
  cases ts with
  | nil => exact .inl (by simp [Ends])
  | cons t ts =>
    rcases Shape.heads_declaration kind _ h t rfl with hkind | ⟨text, htext, hword⟩
    · refine .inl fun l hl => ?_
      obtain rfl : t.lexeme = l := by simpa using hl
      simp [Token.lexeme, hkind]
    · exact .inr (foreign_of_keyword hword htext _)

/-- A marker with what follows it begins with a keyword, and no attribute begins in it. -/
theorem MarkerSite.Stands.foreign {site : MarkerSite} {tail : List Token} (h : site.Stands tail) :
    Lexeme.Foreign ((site.tokens ++ tail).map Token.lexeme) ∧
      Lexeme.occursIn ((site.tokens ++ tail).map Token.lexeme) =
        Lexeme.occursIn (tail.map Token.lexeme) := by
  cases site with
  | absent fn =>
    obtain ⟨rest, rfl, hfn⟩ := h
    exact ⟨Lexeme.foreign_of_keyword hfn (by decide) _, rfl⟩
  | bare keyword =>
    refine ⟨Lexeme.foreign_of_keyword h (by decide) _, ?_⟩
    exact Lexeme.occursIn_cons_of_kind (by simp [Token.lexeme, kind_of_isWord h])
  | named keyword literal =>
    obtain ⟨hkeyword, hliteral⟩ := h
    refine ⟨Lexeme.foreign_of_keyword hkeyword (by decide) _, ?_⟩
    have hkind : literal.kind ≠ .hash := by
      intro hkind
      simp [Abi.isLiteral, hkind, TokenKind.isStringLiteral] at hliteral
    exact (Lexeme.occursIn_cons_of_kind (by simp [Token.lexeme, kind_of_isWord hkeyword])).trans
      (Lexeme.occursIn_cons_of_kind hkind)

/-- A token that ends an item ends every path and every attribute. -/
theorem Lexeme.ends_of_isFinal {l : Lexeme} (h : l.kind.isFinal = true) :
    Ends [l] ∧ l.kind ≠ .hash ∧ l.isTrivia = false := by
  obtain ⟨kind, content⟩ := l
  cases kind <;> simp [TokenKind.isFinal, TokenKind.isClosing] at h <;>
    simp [Ends, isTrivia, TokenKind.isTrivia]

namespace Slot

/-- To a search, an item is after its change what it was before. -/
structure Alike (s : Slot) : Prop where
  /-- No attribute reaches into it from before it. -/
  head : Lexeme.Ends (Lexeme.significant s.text.lexemes) ∨
    Lexeme.Foreign (Lexeme.significant s.text.lexemes)
  /-- No attribute reaches out of it. -/
  last : ∃ l, [l] <:+ Lexeme.significant s.text.lexemes ∧ Lexeme.Ends [l] ∧ l.kind ≠ .hash
  /-- An attribute begins in it if one did before. -/
  occurs : Lexeme.occursIn (Lexeme.significant s.text.lexemes) = Attribute.occurs s.item

variable {source : Text} {c : Cursor} {target : Target} {front behind last : List Token} {s : Slot}
  {r : ExpandedItem} {ss : List Slot} {rs : List ExpandedItem}

/-- A change of the marker is none to a search. -/
theorem Edited.head_occurs {kind : Kind} (h : s.Edited r)
    (hmem : significant s.item ∈ Grammar.declaration kind) :
    (Lexeme.Ends (Lexeme.significant s.text.lexemes) ∨
      Lexeme.Foreign (Lexeme.significant s.text.lexemes)) ∧
      Lexeme.occursIn (Lexeme.significant s.text.lexemes) = Attribute.occurs s.item := by
  have hitem : Attribute.occurs s.item =
      Lexeme.occursIn ((significant s.item).map Token.lexeme) := by
    rw [map_lexeme_significant]
    rfl
  have hhead := Lexeme.ends_or_foreign_of_mem hmem
  rw [hitem]
  cases hchanged : r.changed with
  | false =>
    rw [h.kept hchanged]
    exact ⟨hhead, rfl⟩
  | true =>
    obtain ⟨first, d, lead, tail, -, -, hsplit, hstands, hnew⟩ := h.marked hchanged
    obtain ⟨hforeign, hoccurs⟩ := hstands.foreign
    -- The new marker is foreign as well, and no attribute begins in it.
    generalize hmarker : (⟨.identifier, utf8 "extern"⟩ : Lexeme) ::
      ⟨.string, Abi.quoted r.abi⟩ :: tail.map Token.lexeme = marker at *
    have hforeign' : Lexeme.Foreign marker :=
      ⟨_, _, hmarker.symm, rfl, fun _ => Attribute.keyword_notMem (by decide)⟩
    have hoccurs' : Lexeme.occursIn marker = Lexeme.occursIn (tail.map Token.lexeme) := by
      rw [← hmarker, Lexeme.occursIn_cons_of_kind (by simp), Lexeme.occursIn_cons_of_kind (by simp)]
    have hnew' : Lexeme.significant s.text.lexemes = lead.map Token.lexeme ++ marker := by
      rw [hnew, ← hmarker, List.append_assoc]
      rfl
    rw [hsplit, List.append_assoc, List.map_append] at hhead ⊢
    rw [hnew']
    refine ⟨?_, Lexeme.occursIn_append_congr hforeign' hforeign (hoccurs'.trans hoccurs.symm)⟩
    cases lead with
    | nil => exact .inr hforeign'
    | cons t lead => exact Lexeme.ends_or_foreign_cons hhead

/-- The item of a slot is to a search what it was. -/
theorem Expands.alike (htokens : tokenize source c = .ok (front ++ s.tokens ++ behind))
    (hassigned : ∀ t ∈ s.item, t.kind ≠ .unassigned) (h : s.Expands target behind r) :
    s.Alike := by
  obtain ⟨⟨ls, hrelexed⟩, hedited⟩ := h.exists_relexed htokens hassigned
  obtain ⟨a, hitem, hexpand⟩ := h.expanded
  obtain ⟨-, d, -, -, -, hd, -⟩ := a.expand_eq_ok hexpand
  rw [AnnotatedItem.origin, hitem] at hd
  have hmem : significant s.item ∈ Grammar.declaration d.kind :=
    (Shape.exists_outline?_iff d.kind).mp
      ⟨_, (Declaration.outline?_of_classify (tokenize_item htokens h.followed a.location) hd).1⟩
  obtain ⟨hhead, hoccurs⟩ := hedited.head_occurs hmem
  -- The item still ends with a token that can end an item.
  obtain ⟨y, hy, hfinal⟩ := hrelexed.last
  obtain ⟨hends, hkind, htrivia⟩ := Lexeme.ends_of_isFinal hfinal
  refine ⟨hhead, ⟨y, ?_, hends, hkind⟩, hoccurs⟩
  have hsuffix := hy.filter fun l => !l.isTrivia
  rw [hrelexed.lexemes_eq, Lexeme.significant]
  simpa [htrivia] using hsuffix

/-- The attributes that begin in what becomes of a file are those that began in its items. -/
theorem occursIn_output (h : Each (fun s _ _ => s.Alike) last ss rs) (hquiet : Quiet ss last) :
    Lexeme.occursIn (Lexeme.significant (ss.flatMap outputLexemes ++ last.map Token.lexeme)) =
      ss.any fun s => Attribute.occurs s.item := by
  induction h with
  | nil => exact hquiet.last
  | @cons s ss r rs hs _ ih =>
    obtain ⟨hgap, hgaps⟩ := List.forall_mem_cons.mp hquiet.gaps
    have hrest := ih ⟨hgaps, hquiet.last⟩
    obtain ⟨l, hlast, hends, hkind⟩ := hs.last
    rw [List.flatMap_cons, List.append_assoc, Lexeme.significant_append, outputLexemes,
      Lexeme.significant_append, List.append_assoc]
    generalize Lexeme.significant (ss.flatMap outputLexemes ++ last.map Token.lexeme) = rest at *
    have hhead : Lexeme.Ends (Lexeme.significant s.text.lexemes ++ rest) ∨
        Lexeme.Foreign (Lexeme.significant s.text.lexemes ++ rest) := by
      have hitem := hs.head
      cases hcases : Lexeme.significant s.text.lexemes with
      | nil => simp [hcases] at hlast
      | cons l ls =>
        rw [hcases] at hitem
        exact Lexeme.ends_or_foreign_cons hitem
    rw [List.any_cons, ← hs.occurs, ← hrest]
    exact (Lexeme.occursIn_append_of_quiet hhead hgap).trans
      (Lexeme.occursIn_append_of_last hends hkind hlast)

/-- What becomes of a file falls into tokens, and the attributes that begin among them are those
that began in the items. -/
theorem exists_tokens_output
    (htokens : tokenize source Cursor.start = .ok (ss.flatMap tokens ++ last))
    (hassigned : ∀ t ∈ ss.flatMap tokens ++ last, t.kind ≠ .unassigned)
    (hopens : ∀ r ∈ rs, ∀ i (hi : i < (ss.flatMap tokens ++ last).length),
      (ss.flatMap tokens ++ last)[i].location = r.location →
        Opens ((ss.flatMap tokens ++ last).take i))
    (heach : Each (Expands target) last ss rs) (hquiet : Quiet ss last) :
    ∃ ts', tokenize (ss.flatMap output ++ Token.join last) Cursor.start = .ok ts' ∧
      Attribute.occurs ts' = ss.any fun s => Attribute.occurs s.item := by
  -- Each slot is looked at where it stands in the file.
  have hjoins : Each (fun s _ _ => s.Joins) last ss rs := by
    refine @Each.imp _ _ _ [] _ _ heach fun front s behind r hsplit hr hs => ?_
    rw [List.nil_append] at hsplit
    have hbefore := hopens r hr
    simp only [hsplit] at htokens hassigned hbefore
    exact hs.joins htokens hassigned hbefore
  have halike : Each (fun s _ _ => s.Alike) last ss rs := by
    refine @Each.imp _ _ _ [] _ _ heach fun front s behind r hsplit _ hs => ?_
    rw [List.nil_append] at hsplit
    rw [hsplit] at htokens hassigned
    exact hs.alike htokens fun t ht => hassigned t (by simp [tokens, ht])
  have hlast : Lexed (last.map Token.lexeme) := by
    have hlexed := (tokenize_eq_ok_iff.mp htokens).1
    rw [List.map_append] at hlexed
    exact hlexed.right
  obtain ⟨hlexed, hjoin⟩ := lexed_output hjoins hlast
  have htokens' := hlexed.tokenize_join Cursor.start
  rw [hjoin] at htokens'
  refine ⟨_, htokens', ?_⟩
  rw [Attribute.occurs, Attribute.meaning, Lexeme.map_lexeme_place]
  exact occursIn_output halike hquiet

end Slot

/-- A second expansion with the same target finds what the first one left. The first one leaves no
attribute outside of the items that it came to, and the second one changes nothing if and only if no
attribute begins in the tokens of the output. In a file without unassigned tokens, in which each
attribute stands first or directly behind trivia or a delimiter, that is the case if and only if no
attribute began in any of the items. -/
theorem expandSource_again (source : Text) (target : Target)
    (h : (expandSource source target).errors = []) :
    ∃ ts slots last, tokenize source Cursor.start = .ok ts ∧
      ts = slots.flatMap Slot.tokens ++ last ∧
      (expandSource source target).output = slots.flatMap Slot.output ++ Token.join last ∧
      Slot.Each (Slot.Expands target) last slots (expandSource source target).items ∧
      (∀ s ∈ slots, Attribute.occurs s.gap = false) ∧ Attribute.occurs last = false ∧
      (expandSource (expandSource source target).output target =
          ⟨[], [], (expandSource source target).output⟩ ↔
        ∃ ts', tokenize (expandSource source target).output Cursor.start = .ok ts' ∧
          Attribute.occurs ts' = false) ∧
      ((∀ t ∈ ts, t.kind ≠ .unassigned) →
        (∀ r ∈ (expandSource source target).items, ∀ i (hi : i < ts.length),
          ts[i].location = r.location → Slot.Opens (ts.take i)) →
        (expandSource (expandSource source target).output target =
            ⟨[], [], (expandSource source target).output⟩ ↔
          ∀ s ∈ slots, Attribute.occurs s.item = false)) := by
  cases htokens : tokenize source Cursor.start with
  | error e => simp [expandSource, htokens] at h
  | ok ts =>
    have hexpand : expandSource source target = expandTokens target ts := by
      simp only [expandSource, htokens]
    rw [hexpand] at h ⊢
    obtain ⟨slots, last, heq, houtput, heach, hquiet⟩ := exists_quiet_slots target ts h
    refine ⟨ts, slots, last, rfl, heq, houtput, heach, hquiet.gaps, hquiet.last,
      expandSource_eq_self_iff, fun hassigned hopens => ?_⟩
    subst heq
    obtain ⟨ts', htokens', hoccurs⟩ :=
      Slot.exists_tokens_output htokens hassigned hopens heach hquiet
    rw [houtput, expandSource_eq_self_iff, htokens']
    simp [hoccurs]

/-- A file with an attribute before a function and text like one in its body. -/
def quotedFile : Text := utf8 "#[abi(\"C\")] fn f() \x7b \"#[abi]\" \x7d"

/-- A file with an attribute before a function and one before a function in its body. -/
def nestedFile : Text := utf8 "#[abi(\"C\")] fn f() \x7b #[abi(\"C\")] fn g(); \x7d"

/-- A literal holds no attribute, so that the second expansion changes nothing; a body can hold
one. -/
theorem expandSource_again_quoted :
    (∃ (slots : List Slot) (last : List Token),
      tokenize quotedFile Cursor.start = .ok (slots.flatMap Slot.tokens ++ last) ∧ slots ≠ [] ∧
        (∀ s ∈ slots, Attribute.occurs s.item = false) ∧
        expandSource (expandSource quotedFile Target.linux64).output Target.linux64 =
          ⟨[], [], (expandSource quotedFile Target.linux64).output⟩) ∧
      ∃ (slots : List Slot) (last : List Token),
        tokenize nestedFile Cursor.start = .ok (slots.flatMap Slot.tokens ++ last) ∧
          ∃ s ∈ slots, Attribute.occurs s.item = true := by
  constructor
  · have hexpand : expandSource quotedFile Target.linux64 =
        ⟨[⟨⟨1, 1, 0⟩, .function, utf8 "f", utf8 "C", true⟩], [],
          utf8 "extern \"C\" fn f() \x7b \"#[abi]\" \x7d"⟩ := by
      decide +kernel
    have hquoted : tokenize quotedFile Cursor.start = .ok (lex quotedFile Cursor.start).tokens := by
      decide +kernel
    obtain ⟨ts, slots, last, htokens, heq, -, heach, -, -, -, hiff⟩ :=
      expandSource_again quotedFile Target.linux64 (by rw [hexpand])
    obtain rfl := Except.ok.inj (htokens.symm.trans hquoted)
    have hagain : expandSource (expandSource quotedFile Target.linux64).output Target.linux64 =
        ⟨[], [], (expandSource quotedFile Target.linux64).output⟩ := by
      rw [hexpand]
      decide +kernel
    have hitems := (hiff (by decide +kernel) (by rw [hexpand]; decide +kernel)).mp hagain
    refine ⟨slots, last, by rw [htokens, heq], ?_, hitems, hagain⟩
    rw [hexpand] at heach
    rintro rfl
    cases heach
  · have hexpand : expandSource nestedFile Target.linux64 =
        ⟨[⟨⟨1, 1, 0⟩, .function, utf8 "f", utf8 "C", true⟩], [],
          utf8 "extern \"C\" fn f() \x7b #[abi(\"C\")] fn g(); \x7d"⟩ := by
      decide +kernel
    have hnested : tokenize nestedFile Cursor.start = .ok (lex nestedFile Cursor.start).tokens := by
      decide +kernel
    obtain ⟨ts, slots, last, htokens, heq, -, -, -, -, -, hiff⟩ :=
      expandSource_again nestedFile Target.linux64 (by rw [hexpand])
    obtain rfl := Except.ok.inj (htokens.symm.trans hnested)
    have hagain : expandSource (expandSource nestedFile Target.linux64).output Target.linux64 ≠
        ⟨[], [], (expandSource nestedFile Target.linux64).output⟩ := by
      rw [hexpand]
      decide +kernel
    have hitems := (hiff (by decide +kernel) (by rw [hexpand]; decide +kernel)).not.mp hagain
    exact ⟨slots, last, by rw [htokens, heq], by simpa using hitems⟩

/-- The attribute of a function in the body of another one is left, and the second expansion takes
it out. -/
theorem expandSource_nested :
    expandSource nestedFile Target.linux64 =
        ⟨[⟨⟨1, 1, 0⟩, .function, utf8 "f", utf8 "C", true⟩], [],
          utf8 "extern \"C\" fn f() \x7b #[abi(\"C\")] fn g(); \x7d"⟩ ∧
      expandSource (utf8 "extern \"C\" fn f() \x7b #[abi(\"C\")] fn g(); \x7d") Target.linux64 =
        ⟨[⟨⟨1, 21, 20⟩, .function, utf8 "g", utf8 "C", true⟩], [],
          utf8 "extern \"C\" fn f() \x7b extern \"C\" fn g(); \x7d"⟩ := by
  decide +kernel

end CallConv
