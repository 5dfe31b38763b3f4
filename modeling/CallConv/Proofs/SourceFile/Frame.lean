import Mathlib
import CallConv.SourceFile.Expand
import CallConv.Proofs.Declaration.Apply
import CallConv.Proofs.SourceFile.Recognise

/-!
# What the expansion of a file leaves as it is

A file whose attributes can all be expanded falls into slots: tokens that stay, an attribute with
the white space behind it, and an item. `exists_slots` follows the search through the file, and
`Slot.Framed` says what happens to the bytes: the attribute goes away, and the item is kept as it is
or gets a marker by a single edit. Everything else stays.
-/

namespace CallConv

/-- A part of a file around one attribute. -/
structure Slot where
  /-- The tokens before the attribute, which stay. -/
  gap : List Token
  /-- The tokens of the attribute. -/
  attr : List Token
  /-- The white space behind the attribute. -/
  blanks : List Token
  /-- The tokens of the item. -/
  item : List Token
  /-- The new text of the item. -/
  text : Text

namespace Slot

/-- The tokens of a slot. -/
def tokens (s : Slot) : List Token := s.gap ++ s.attr ++ s.blanks ++ s.item

/-- What becomes of a slot. -/
def output (s : Slot) : Text := Token.join s.gap ++ s.text

/-- A relation holds between each slot of a file, the tokens behind it, and the item that comes out
of it; behind the last slot stand the tokens `last`. -/
inductive Each (P : Slot → List Token → ExpandedItem → Prop) (last : List Token) :
    List Slot → List ExpandedItem → Prop
  | nil : Each P last [] []
  | cons {s : Slot} {ss : List Slot} {r : ExpandedItem} {rs : List ExpandedItem} :
    P s (ss.flatMap tokens ++ last) r → Each P last ss rs → Each P last (s :: ss) (r :: rs)

/-- What holds of a slot wherever it stands in a file holds of each slot of the file. -/
theorem Each.imp {P Q : Slot → List Token → ExpandedItem → Prop} {last front : List Token}
    {ss : List Slot} {rs : List ExpandedItem} (h : Each P last ss rs)
    (himp : ∀ before s behind r, front ++ ss.flatMap tokens ++ last = before ++ s.tokens ++ behind →
      r ∈ rs → P s behind r → Q s behind r) : Each Q last ss rs := by
  induction h generalizing front with
  | nil => exact .nil
  | @cons s ss r rs hs _ ih =>
    have heq : front ++ (s :: ss).flatMap tokens ++ last =
        front ++ s.tokens ++ ss.flatMap tokens ++ last := by simp
    refine .cons (himp front s _ r (by simp) List.mem_cons_self hs)
      (@ih (front ++ s.tokens) ?_)
    intro before s' behind r' hsplit hr'
    exact himp before s' behind r' (heq.trans hsplit) (List.mem_cons_of_mem r hr')

/-- The attribute of a slot is found, and its item is expanded. -/
structure Expands (target : Target) (s : Slot) (behind : List Token) (r : ExpandedItem) :
    Prop where
  /-- The attribute is one that the search knows. -/
  written : Attribute.Written r.location s.attr
  /-- The white space and the item stand behind it. -/
  followed : Attribute.Followed s.blanks s.item behind
  /-- The item is expanded to its new text. -/
  expanded : ∃ a : AnnotatedItem, a.item = s.item ∧ a.expand target = .ok (r, s.text)

/-- No attribute begins in the tokens that stay. -/
structure Quiet (ss : List Slot) (last : List Token) : Prop where
  /-- None begins before the attribute of a slot. -/
  gaps : ∀ s ∈ ss, Attribute.occurs s.gap = false
  /-- None begins behind the last slot. -/
  last : Attribute.occurs last = false

/-- Tokens that the search passes over in front of some slots stay. -/
theorem exists_prepend {target : Target} {taken : List Token} {ss : List Slot} {last : List Token}
    {rs : List ExpandedItem} (h : Each (Expands target) last ss rs) (hquiet : Quiet ss last)
    (hpasses : Attribute.Passes (taken ++ (ss.flatMap tokens ++ last))
      (ss.flatMap tokens ++ last)) :
    ∃ ss' last', taken ++ (ss.flatMap tokens ++ last) = ss'.flatMap tokens ++ last' ∧
      Token.join taken ++ (ss.flatMap output ++ Token.join last) =
        ss'.flatMap output ++ Token.join last' ∧
      Each (Expands target) last' ss' rs ∧ Quiet ss' last' := by
  cases h with
  | nil =>
    have hpasses' : Attribute.Passes (taken ++ (last ++ [])) (last ++ []) := by simpa using hpasses
    have hends : Lexeme.Ends (Attribute.meaning []) := by
      simp [Lexeme.Ends, Attribute.meaning, Lexeme.significant]
    exact ⟨[], taken ++ last, by simp, by simp, .nil, by simp,
      hpasses'.occurs_append hends hquiet.last⟩
  | @cons s ss r rs hs hss =>
    refine ⟨{ s with gap := taken ++ s.gap } :: ss, last, ?_, ?_,
      .cons ⟨hs.written, hs.followed, hs.expanded⟩ hss, ?_, hquiet.last⟩
    · simp [tokens]
    · simp [output]
    · obtain ⟨hgap, hgaps⟩ := List.forall_mem_cons.mp hquiet.gaps
      have hsplit : (s :: ss).flatMap tokens ++ last =
          s.gap ++ (s.attr ++ (s.blanks ++ s.item ++ (ss.flatMap tokens ++ last))) := by
        simp [tokens]
      rw [hsplit] at hpasses
      exact List.forall_mem_cons.mpr ⟨hpasses.occurs_append (hs.written.ends _) hgap, hgaps⟩

end Slot

/-- What was expanded was read as a directive and as a declaration, and the one applied to the
other. -/
theorem AnnotatedItem.expand_eq_ok {a : AnnotatedItem} {target : Target} {r : ExpandedItem}
    {text : Text} (h : a.expand target = .ok (r, text)) :
    ∃ directive d d' resolution, Directive.ofTokens a.finish a.arguments = .ok directive ∧
      Declaration.classify (Token.join a.item) a.origin = .ok d ∧
      d.apply directive target = .ok (d', resolution) ∧
      r = ⟨a.location, d'.kind, d'.name, resolution.abi, resolution.changed⟩ ∧
      text = d'.source := by
  unfold expand expandText at h
  split at h
  · simp at h
  · next directive hdirective =>
    split at h
    · simp at h
    · next d hd =>
      split at h
      · simp at h
      · next d' resolution happly =>
        simp only [Except.ok.injEq, Prod.mk.injEq] at h
        obtain ⟨rfl, rfl⟩ := h
        exact ⟨directive, d, d', resolution, hdirective, hd, happly, rfl, rfl⟩

/-- The tokens of a file without failures fall into slots, each with an attribute that is expanded,
and no other attribute begins outside of their items. -/
theorem exists_quiet_slots (target : Target) (ts : List Token)
    (h : (expandTokens target ts).errors = []) :
    ∃ slots last, ts = slots.flatMap Slot.tokens ++ last ∧
      (expandTokens target ts).output = slots.flatMap Slot.output ++ Token.join last ∧
      Slot.Each (Slot.Expands target) last slots (expandTokens target ts).items ∧
      Slot.Quiet slots last := by
  fun_induction expandTokens target ts with
  | case1 ts hsearch =>
    refine ⟨[], ts, by simp, by simp, .nil, by simp, ?_⟩
    rw [Attribute.occurs, Attribute.meaning_of_finished hsearch]
    rfl
  | case2 ts rest hsearch ih =>
    have hpasses := Attribute.passes_of_search hsearch
    obtain ⟨taken, l, ls, htaken, -⟩ := hpasses.taken
    obtain ⟨slots, last, hrest, houtput, heach, hquiet⟩ := ih h
    -- What was passed over goes to the tokens that stay in the next slot, or behind the last one.
    rw [htaken, hrest] at hpasses
    obtain ⟨slots', last', htokens, htext, heach', hquiet'⟩ :=
      Slot.exists_prepend heach hquiet hpasses
    refine ⟨slots', last', ?_, ?_, heach', hquiet'⟩
    · rw [htaken, ← htokens, ← hrest]
    · rw [htaken, before_append, ← htext, ← houtput]
      rfl
  | case3 ts e rest hsearch ih => simp [Expansion.fail] at h
  | case4 ts a rest hsearch e hexpand ih => simp [Expansion.fail] at h
  | case5 ts a rest hsearch r text hexpand ih =>
    obtain ⟨attr, blanks, heq, hwritten, hfollowed⟩ := Attribute.search_found hsearch
    obtain ⟨slots, last, hrest, houtput, heach, hquiet⟩ := ih h
    -- The attribute is reported at its hash.
    have hlocation : r.location = a.location := by
      obtain ⟨-, -, -, -, -, -, -, rfl, -⟩ := a.expand_eq_ok hexpand
      rfl
    -- Trivia alone stands before it.
    have hgap : Attribute.occurs (ts.takeWhile Token.isTrivia) = false := by
      rw [Attribute.occurs, Attribute.meaning_of_trivia fun t ht => List.mem_takeWhile_imp ht]
      rfl
    refine ⟨⟨ts.takeWhile Token.isTrivia, attr, blanks, a.item, text⟩ :: slots, last, ?_, ?_,
      .cons ⟨?_, ?_, a, rfl, hexpand⟩ heach, List.forall_mem_cons.mpr ⟨hgap, hquiet.gaps⟩,
      hquiet.last⟩
    · rw [List.flatMap_cons, List.append_assoc, ← hrest]
      exact heq
    · rw [List.flatMap_cons, List.append_assoc, ← houtput]
      rfl
    · rw [hlocation]
      exact hwritten
    · rw [← hrest]
      exact hfollowed

/-- The tokens of a file without failures fall into slots, each with an attribute that is
expanded. -/
theorem exists_slots (target : Target) (ts : List Token)
    (h : (expandTokens target ts).errors = []) :
    ∃ slots last, ts = slots.flatMap Slot.tokens ++ last ∧
      (expandTokens target ts).output = slots.flatMap Slot.output ++ Token.join last ∧
      Slot.Each (Slot.Expands target) last slots (expandTokens target ts).items := by
  obtain ⟨slots, last, heq, houtput, heach, -⟩ := exists_quiet_slots target ts h
  exact ⟨slots, last, heq, houtput, heach⟩

/-! ## The bytes of a slot -/

/-- The text of some tokens with a convention put in by one edit: in place of a literal, or between
two tokens. -/
def Retouched (abi : Text) (ts : List Token) (text : Text) : Prop :=
  ∃ p q t q', ts = p ++ q ++ t ∧ text = Token.join p ++ q' ++ Token.join t ∧
    ((∃ literal, q = [literal] ∧ Abi.isLiteral literal = true ∧ q' = Abi.quoted abi) ∨
      q = [] ∧ (q' = utf8 " " ++ Abi.quoted abi ∨
        q' = utf8 "extern " ++ Abi.quoted abi ++ utf8 " "))

/-- A rewritten marker is one edit. -/
theorem MarkerSite.Rewritten.retouched {site : MarkerSite} {abi text : Text} {ts tail : List Token}
    (h : site.Rewritten abi ts text) (hstands : site.Stands tail) : Retouched abi ts text := by
  cases h with
  | named keyword literal before after =>
    exact ⟨before, [literal], after, Abi.quoted abi, by simp, rfl,
      .inl ⟨literal, rfl, hstands.2, rfl⟩⟩
  | bare keyword before after =>
    exact ⟨before ++ [keyword], [], after, utf8 " " ++ Abi.quoted abi, by simp, by simp,
      .inr ⟨rfl, .inl rfl⟩⟩
  | absent fn before after =>
    exact ⟨before, [], fn :: after, utf8 "extern " ++ Abi.quoted abi ++ utf8 " ", by simp, by simp,
      .inr ⟨rfl, .inr rfl⟩⟩

/-- The item of a slot is cut into the tokens that it has in the file. -/
theorem Slot.tokenize_item {source : Text} {c : Cursor} {front behind : List Token} {s : Slot}
    (htokens : tokenize source c = .ok (front ++ s.tokens ++ behind))
    (hfollowed : Attribute.Followed s.blanks s.item behind) (location : Cursor) :
    tokenize (Token.join s.item) ((s.item.head?.map Token.location).getD location) =
      .ok s.item := by
  obtain ⟨t, ht, -⟩ := hfollowed.last
  obtain ⟨first, middle, hitem⟩ : ∃ first middle, s.item = first :: middle := by
    cases hcases : s.item with
    | nil => simp [hcases] at ht
    | cons first middle => exact ⟨first, middle, rfl⟩
  have hsplit : tokenize source c =
      .ok (front ++ s.gap ++ s.attr ++ s.blanks ++ (first :: middle ++ behind)) := by
    rw [htokens, Slot.tokens, hitem]
    simp
  rw [hitem]
  exact tokenize_middle hsplit

namespace Slot

/-- What becomes of the bytes of a slot: the attribute and the white space behind it go away, and
the item stays as it is or gets its convention by one edit. -/
structure Framed (s : Slot) (behind : List Token) (r : ExpandedItem) : Prop where
  /-- The attribute is one that the search knows, and begins at the place reported. -/
  written : Attribute.Written r.location s.attr
  /-- The white space and the item stand behind it. -/
  followed : Attribute.Followed s.blanks s.item behind
  /-- An item that is reported as unchanged is unchanged. -/
  kept : r.changed = false → s.text = Token.join s.item
  /-- An item that is reported as changed has the reported convention put in. -/
  retouched : r.changed = true → Retouched r.abi s.item s.text

/-- The item of a slot is changed by one edit at most. -/
theorem Expands.framed {source : Text} {c : Cursor} {target : Target} {front behind : List Token}
    {s : Slot} {r : ExpandedItem}
    (htokens : tokenize source c = .ok (front ++ s.tokens ++ behind))
    (h : s.Expands target behind r) : s.Framed behind r := by
  obtain ⟨a, hitem, hexpand⟩ := h.expanded
  obtain ⟨directive, d, d', resolution, -, hd, happly, rfl, heq⟩ := a.expand_eq_ok hexpand
  obtain ⟨-, hcases⟩ := Declaration.apply_cases happly
  have htokensItem := tokenize_item htokens h.followed a.location
  rw [AnnotatedItem.origin, hitem] at hd
  obtain ⟨hsource, -⟩ := Declaration.of_classify hd
  refine ⟨h.written, h.followed, ?_, ?_⟩
  · rintro hchanged
    rcases hcases with ⟨-, rfl⟩ | ⟨hchanged', -⟩
    · exact heq.trans hsource
    · simp [hchanged'] at hchanged
  · rintro hchanged
    rcases hcases with ⟨hchanged', -⟩ | ⟨-, hset⟩
    · simp [hchanged'] at hchanged
    -- Here nothing is known of the new tokens, but the edit was made all the same.
    obtain ⟨before, lead, after, hfound, -⟩ :=
      Shape.exists_found (Declaration.outline?_of_classify htokensItem hd).1
    rw [heq, (Declaration.source_of_setAbi htokensItem hd hset).1]
    exact (hfound.rewritten _ htokensItem).retouched hfound.stands

end Slot

/-- The expansion of a file without failures changes nothing but attributes and markers. The file
falls into slots, of which each attribute goes away with the white space behind it, and each item
stays as it is or gets the reported convention by one edit; everything between them stays. -/
theorem expandSource_frame (source : Text) (target : Target)
    (h : (expandSource source target).errors = []) :
    ∃ slots last,
      tokenize source Cursor.start = .ok (slots.flatMap Slot.tokens ++ last) ∧
      source = slots.flatMap (fun s => Token.join s.gap ++ (Token.join s.attr ++
        Token.join s.blanks) ++ Token.join s.item) ++ Token.join last ∧
      (expandSource source target).output =
        slots.flatMap (fun s => Token.join s.gap ++ s.text) ++ Token.join last ∧
      Slot.Each Slot.Framed last slots (expandSource source target).items ∧
      ((expandSource source target).items = [] → (expandSource source target).output = source) := by
  cases htokens : tokenize source Cursor.start with
  | error e => simp [expandSource, htokens] at h
  | ok ts =>
    have hexpand : expandSource source target = expandTokens target ts := by
      simp only [expandSource, htokens]
    rw [hexpand] at h ⊢
    obtain ⟨slots, last, rfl, houtput, heach⟩ := exists_slots target ts h
    have hsource : source = slots.flatMap (fun s => Token.join s.gap ++ (Token.join s.attr ++
        Token.join s.blanks) ++ Token.join s.item) ++ Token.join last := by
      rw [← join_of_tokenize htokens]
      simp only [Token.join, Slot.tokens, List.flatMap_append, List.flatMap_assoc,
        List.append_assoc]
    refine ⟨slots, last, rfl, hsource, houtput, ?_, ?_⟩
    · refine @Slot.Each.imp _ _ _ [] _ _ heach fun before s behind r hsplit _ hs => ?_
      rw [List.nil_append] at hsplit
      rw [hsplit] at htokens
      exact hs.framed htokens
    · -- Without items there are no slots.
      intro hitems
      rw [hitems] at heach
      cases heach
      rw [houtput, hsource]
      rfl

/-- A file with an item that has to change and one that does not. -/
def twoItems : Text :=
  utf8 "use a;\n#[abi(win = \"system\", 64 = \"C\")]\nfn f() \x7b\x7d\n" ++
    utf8 "#[abi(\"C\")] extern \"C\" fn g();"

/-- Of two items that are expanded, the first gets a marker and the second keeps its own. -/
theorem expandSource_frame_twoItems :
    expandSource twoItems Target.linux64 =
        ⟨[⟨⟨2, 1, 7⟩, .function, utf8 "f", utf8 "C", true⟩,
            ⟨⟨4, 1, 50⟩, .function, utf8 "g", utf8 "C", false⟩], [],
          utf8 "use a;\nextern \"C\" fn f() \x7b\x7d\nextern \"C\" fn g();"⟩ ∧
      ∃ slots last, tokenize twoItems Cursor.start = .ok (slots.flatMap Slot.tokens ++ last) ∧
        Slot.Each Slot.Framed last slots (expandSource twoItems Target.linux64).items := by
  have hexpand : expandSource twoItems Target.linux64 =
      ⟨[⟨⟨2, 1, 7⟩, .function, utf8 "f", utf8 "C", true⟩,
          ⟨⟨4, 1, 50⟩, .function, utf8 "g", utf8 "C", false⟩], [],
        utf8 "use a;\nextern \"C\" fn f() \x7b\x7d\nextern \"C\" fn g();"⟩ := by
    decide +kernel
  obtain ⟨slots, last, htokens, -, -, heach, -⟩ :=
    expandSource_frame twoItems Target.linux64 (by rw [hexpand])
  exact ⟨hexpand, slots, last, htokens, heach⟩

end CallConv
