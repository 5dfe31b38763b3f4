import Mathlib
import CallConv.Proofs.SourceFile.Frame

/-!
# The tokens of an expanded file

Taking out the attributes brings tokens together that did not stand side by side before. Where an
attribute stands behind trivia or a delimiter, this changes no token: `lexed_output` puts the
lexemes of all slots together, one seam after the other. The significant tokens of the output are
then those of the file without the attributes and with the markers changed.
-/

namespace CallConv

/-- Lexemes that do not begin with white space do not begin with a blank. -/
theorem Lexed.head_not_blank {ls : List Lexeme} (h : Lexed ls)
    (hkind : ∀ l ∈ ls.head?, l.kind ≠ .whitespace) :
    ∀ b ∈ (Lexeme.join ls).head?, Rule.isBlank b = false := by
  rcases ls with _ | ⟨⟨kind, _ | ⟨c, x⟩⟩, ls⟩
  · simp
  · exact absurd rfl h.1.ne_nil
  · intro b hb
    obtain rfl : c = b := by simpa using hb
    exact h.1.not_isBlank (hkind _ rfl)

namespace MarkerSite.Found

variable {site : MarkerSite} {ts before lead after : List Token} {t : Token}

/-- The last token of an item stands behind its marker. -/
theorem last_after (h : site.Found ts before lead after) (ht : [t] <:+ ts)
    (hfinal : t.kind.isFinal = true) : [t] <:+ after := by
  obtain ⟨rfl, hfits, -⟩ := h
  obtain ⟨us, hus⟩ := ht
  rcases List.eq_nil_or_concat after with rfl | ⟨vs, v, rfl⟩
  · rw [List.append_nil] at hus
    -- Else the item would end with `fn`, with a keyword or with a literal.
    cases site with
    | absent fn =>
      obtain ⟨⟨rest, hnil, -⟩, -⟩ := hfits
      simp at hnil
    | bare keyword =>
      obtain ⟨hk, init, rfl⟩ := hfits
      rw [removed, List.append_nil] at hus
      obtain rfl := List.singleton_inj.mp (List.append_inj' hus rfl).2
      rw [kind_of_isWord hk] at hfinal
      exact absurd hfinal (by decide)
    | named keyword literal =>
      obtain ⟨-, hl, -⟩ := hfits
      obtain rfl := List.singleton_inj.mp (List.append_inj' hus rfl).2
      cases hkind : t.kind <;>
        simp [Abi.isLiteral, TokenKind.isStringLiteral, TokenKind.isFinal, TokenKind.isClosing,
          hkind] at hl hfinal
  · rw [List.concat_eq_append, ← List.append_assoc] at hus
    obtain rfl := List.singleton_inj.mp (List.append_inj' hus rfl).2
    rw [List.concat_eq_append]
    exact List.suffix_append _ _

/-- A changed item does not begin with white space if the item did not. -/
theorem head_change (h : site.Found ts before lead after) (abi : Text)
    (hhead : ∀ u ∈ ts.head?, u.kind ≠ .whitespace) :
    ∀ l ∈ (before.map Token.lexeme ++ site.inserted abi ++ after.map Token.lexeme).head?,
      l.kind ≠ .whitespace := by
  obtain ⟨rfl, hfits, -⟩ := h
  rcases before with _ | ⟨u, before⟩
  · -- The item begins with its marker, of which only `extern` can be new.
    cases site with
    | absent fn =>
      intro l hl
      obtain rfl : Lexeme.externWord = l := by simpa [inserted] using hl
      decide
    | bare keyword =>
      obtain ⟨-, init, hnil⟩ := hfits
      simp at hnil
    | named keyword literal =>
      obtain ⟨-, -, init, trivia, hnil, -⟩ := hfits
      simp at hnil
  · intro l hl
    obtain rfl : u.lexeme = l := by simpa using hl
    exact hhead u (by simp)

end MarkerSite.Found

/-- A token that ends an item ends with a delimiter. -/
theorem TokenKind.isClosed_of_isFinal {kind : TokenKind} (h : kind.isFinal = true) :
    kind.isClosed = true := by
  revert h
  cases kind <;> decide

/-- Whether tokens of a kind are brackets, commas or semicolons. -/
def TokenKind.isDelimiter : TokenKind → Bool
  | braceLeft | braceRight | parenLeft | parenRight | bracketLeft | bracketRight | comma
  | semicolon => true
  | _ => false

/-- A delimiter ends with a delimiter. -/
theorem TokenKind.isClosed_of_isDelimiter {kind : TokenKind} (h : kind.isDelimiter = true) :
    kind.isClosed = true := by
  revert h
  cases kind <;> decide

namespace Slot

/-- The lexemes that the item of a slot falls into after its change. -/
structure Relexed (s : Slot) (ls : List Lexeme) : Prop where
  /-- They make up the new text. -/
  join_eq : Lexeme.join ls = s.text
  /-- The lexer cuts the new text into them. -/
  lexed : Lexed ls
  /-- None of them is unassigned. -/
  assigned : ∀ l ∈ ls, l.kind ≠ .unassigned
  /-- The first of them is no white space. -/
  head : ∀ l ∈ ls.head?, l.kind ≠ .whitespace
  /-- The last of them can end an item. -/
  last : ∃ y, [y] <:+ ls ∧ y.kind.isFinal = true

/-- The significant lexemes of an item before and after its change: the same ones, or the same but
for the marker that the item is read with, which names the reported convention. -/
structure Edited (s : Slot) (r : ExpandedItem) : Prop where
  /-- An item that is reported as unchanged keeps its lexemes. -/
  kept : r.changed = false →
    Lexeme.significant s.text.lexemes = (significant s.item).map Token.lexeme
  /-- An item that is reported as changed gets the keyword and the literal in place of the marker
  of the declaration that it is. -/
  marked : r.changed = true → ∃ first d lead tail, s.item.head? = some first ∧
    Declaration.classify (Token.join s.item) first.location = .ok d ∧
      significant s.item = lead ++ d.shape.site.tokens ++ tail ∧ d.shape.site.Stands tail ∧
      Lexeme.significant s.text.lexemes = lead.map Token.lexeme ++
        [⟨.identifier, utf8 "extern"⟩, ⟨.string, Abi.quoted r.abi⟩] ++ tail.map Token.lexeme

variable {source : Text} {c : Cursor} {target : Target} {front behind : List Token} {s : Slot}
  {r : ExpandedItem}

/-- The lexemes of a text are those that it falls into. -/
theorem Relexed.lexemes_eq {ls : List Lexeme} (h : s.Relexed ls) : s.text.lexemes = ls := by
  rw [← h.join_eq, h.lexed.lexemes_join]

/-- The item of a slot falls into its own lexemes, but for those of the marker. -/
theorem Expands.exists_relexed (htokens : tokenize source c = .ok (front ++ s.tokens ++ behind))
    (hassigned : ∀ t ∈ s.item, t.kind ≠ .unassigned) (h : s.Expands target behind r) :
    (∃ ls, s.Relexed ls) ∧ s.Edited r := by
  obtain ⟨a, hitem, hexpand⟩ := h.expanded
  obtain ⟨directive, d, d', resolution, -, hd, happly, rfl, heq⟩ := a.expand_eq_ok hexpand
  obtain ⟨-, hcases⟩ := Declaration.apply_cases happly
  have htokensItem := tokenize_item htokens h.followed a.location
  obtain ⟨hlexed, hjoin, -⟩ := tokenize_eq_ok_iff.mp htokensItem
  obtain ⟨t, ht, hfinal⟩ := h.followed.last
  have hhead : ∀ u ∈ s.item.head?, u.kind ≠ .whitespace := by
    intro u hu hkind
    have hblank := h.followed.head u hu
    simp [Token.isBlank, hkind] at hblank
  have hlexemes : ∀ l ∈ s.item.map Token.lexeme, l.kind ≠ .unassigned := by
    intro l hl
    obtain ⟨u, hu, rfl⟩ := List.mem_map.mp hl
    exact hassigned u hu
  rw [AnnotatedItem.origin, hitem] at hd
  obtain ⟨hsource, -⟩ := Declaration.of_classify hd
  rcases hcases with ⟨hchanged, rfl⟩ | ⟨hchanged, hset⟩
  · -- The item is what it was.
    have hrelexed : s.Relexed (s.item.map Token.lexeme) := by
      refine ⟨by rw [heq, hsource, hjoin], hlexed, hlexemes, ?_, t.lexeme, ht.map _, hfinal⟩
      intro l hl
      rw [List.head?_map] at hl
      obtain ⟨u, hu, rfl⟩ := Option.map_eq_some_iff.mp hl
      exact hhead u hu
    refine ⟨⟨_, hrelexed⟩, fun _ => ?_, fun hchanged' => ?_⟩
    · rw [hrelexed.lexemes_eq, map_lexeme_significant]
    · simp [hchanged] at hchanged'
  · -- The marker of the item is changed.
    obtain ⟨before, lead, after, hfound, -⟩ :=
      Shape.exists_found (Declaration.outline?_of_classify htokensItem hd).1
    have hnew := (Declaration.source_of_setAbi htokensItem hd hset).1
    have hrelexed : s.Relexed (before.map Token.lexeme ++ d.shape.site.inserted resolution.abi ++
        after.map Token.lexeme) := by
      have hcalm := Calm.of_assigned hlexemes
      rw [hfound.eq] at hlexed hcalm
      refine ⟨?_, hfound.fits.lexed _ hlexed hcalm, ?_, hfound.head_change _ hhead, t.lexeme, ?_,
        hfinal⟩
      · rw [heq, hnew, hfound.apply_edit _ htokensItem]
      · intro l hl
        rw [hfound.eq, List.map_append, List.map_append] at hlexemes
        rcases List.mem_append.mp hl with hl | hl
        · rcases List.mem_append.mp hl with hl | hl
          · exact hlexemes l (List.mem_append_left _ (List.mem_append_left _ hl))
          · exact MarkerSite.assigned_inserted _ _ l hl
        · exact hlexemes l (List.mem_append_right _ hl)
      · exact ((hfound.last_after ht hfinal).map _).trans (List.suffix_append _ _)
    refine ⟨⟨_, hrelexed⟩, fun hchanged' => ?_, fun _ => ?_⟩
    · simp [hchanged] at hchanged'
    · obtain ⟨first, hfirst⟩ : ∃ first, s.item.head? = some first := by
        obtain ⟨init, hinit⟩ := ht
        exact ⟨_, List.head?_eq_some_head (by simp [← hinit])⟩
      have hplace : Declaration.classify (Token.join s.item) first.location = .ok d := by
        simpa [hfirst] using hd
      refine ⟨first, d, lead, significant after, hfirst, hplace, hfound.significant_eq,
        hfound.stands, ?_⟩
      rw [hrelexed.lexemes_eq]
      exact hfound.significant_change _

/-- The tokens before an attribute, if there are any, end with trivia or with a delimiter. -/
def Opens (front : List Token) : Prop :=
  ∀ y ∈ front.getLast?, y.isTrivia = true ∨ y.kind.isDelimiter = true

/-- Whether given tokens end so can be decided. -/
instance Opens.instDecidable (front : List Token) : Decidable (Opens front) :=
  inferInstanceAs (Decidable (∀ y ∈ front.getLast?, _))

/-- The token before an attribute is sealed before everything that does not begin with a blank. -/
theorem sealed_gap {us : List Token} {y : Token} {location : Cursor} {t : Text}
    (hlexed : Lexed ((front ++ s.tokens ++ behind).map Token.lexeme))
    (hwritten : Attribute.Written location s.attr) (hgap : s.gap = us ++ [y])
    (hy : y.isTrivia = true ∨ y.kind.isDelimiter = true)
    (ht : ∀ b ∈ t.head?, Rule.isBlank b = false) : Sealed False y.content t := by
  obtain ⟨hash, bracket, paren, closing, trivia, path, enclosed, trivia', segments, hattr, hkind,
    -⟩ := hwritten
  have hsplit : front ++ s.tokens ++ behind = (front ++ us) ++ y :: hash ::
      (trivia ++ bracket :: path ++ paren :: enclosed ++ trivia' ++ [closing] ++ s.blanks ++
        s.item ++ behind) := by
    rw [tokens, hgap, hattr]
    simp
  rw [hsplit, List.map_append, List.map_cons] at hlexed
  have hbegins := hlexed.begins
  -- The hash is the witness that the token ended there before.
  have hhash : hash.lexeme.content = utf8 "#" :=
    hlexed.content_of_word (by simp) hkind
      (by simp [Rule.all] : Rule.exactly .hash "#" ∈ Rule.all)
  rcases t with _ | ⟨c, t⟩
  · exact fun c s heq => absurd heq (by simp)
  · rcases hy with hy | hy
    · rw [List.map_cons, Lexeme.join_cons, hhash] at hbegins
      exact Sealed.of_trivia hbegins hy (by decide) (ht c rfl) fun _ h => h
    · exact Sealed.of_closed hbegins (TokenKind.isClosed_of_isDelimiter hy) False.elim

/-- The lexemes of a slot before and after its change can be put together. -/
structure Joins (s : Slot) : Prop where
  /-- The tokens that stay are lexed. -/
  gap : Lexed (s.gap.map Token.lexeme)
  /-- None of them is unassigned. -/
  assigned : ∀ l ∈ s.gap.map Token.lexeme, l.kind ≠ .unassigned
  /-- The last of them can stand before the item. -/
  ends : ∀ us y, s.gap = us ++ [y] → ∀ t : Text, (∀ b ∈ t.head?, Rule.isBlank b = false) →
    Sealed False y.content t
  /-- The item is lexed. -/
  item : ∃ ls, s.Relexed ls

/-- The lexemes that become of a slot. -/
def outputLexemes (s : Slot) : List Lexeme := s.gap.map Token.lexeme ++ s.text.lexemes

/-- A slot can be put before lexed lexemes. -/
theorem Joins.lexed_append (h : s.Joins) {rest : List Lexeme} (hrest : Lexed rest) :
    Lexed (s.outputLexemes ++ rest) := by
  obtain ⟨ls, hrelexed⟩ := h.item
  obtain ⟨y, ⟨init, rfl⟩, hfinal⟩ := hrelexed.last
  have hbegins : Begins y.kind y.content (Lexeme.join []) := hrelexed.lexed.begins
  -- The item ends with a delimiter, which is sealed before everything.
  have hitem : Lexed (init ++ [y] ++ rest) := by
    refine hrelexed.lexed.append_assigned hrelexed.assigned hrest fun us y' heq => ?_
    obtain rfl := List.singleton_inj.mp (List.append_inj' heq rfl).2
    exact Sealed.of_closed hbegins (TokenKind.isClosed_of_isFinal hfinal) False.elim
  rw [outputLexemes, hrelexed.lexemes_eq, List.append_assoc]
  refine h.gap.append_assigned h.assigned hitem fun us y' heq => ?_
  obtain ⟨us', ys, hgap, -, hys⟩ := List.map_eq_append_iff.mp heq
  obtain ⟨u, rfl, rfl⟩ := List.map_eq_singleton_iff.mp hys
  refine h.ends us' u hgap _ (hitem.head_not_blank fun l hl => hrelexed.head l ?_)
  rw [List.head?_append_of_ne_nil _ (by simp)] at hl
  exact hl

/-- The lexemes that become of a slot make up what becomes of it. -/
theorem Joins.join_outputLexemes (h : s.Joins) : Lexeme.join s.outputLexemes = s.output := by
  obtain ⟨ls, hrelexed⟩ := h.item
  rw [outputLexemes, hrelexed.lexemes_eq, Lexeme.join_append, hrelexed.join_eq, output,
    Token.join_eq]

/-- The lexemes of all slots and of what follows them can be put together. -/
theorem lexed_output {last : List Token} {ss : List Slot} {rs : List ExpandedItem}
    (h : Each (fun s _ _ => s.Joins) last ss rs) (hlast : Lexed (last.map Token.lexeme)) :
    Lexed (ss.flatMap outputLexemes ++ last.map Token.lexeme) ∧
      Lexeme.join (ss.flatMap outputLexemes ++ last.map Token.lexeme) =
        ss.flatMap output ++ Token.join last := by
  induction h with
  | nil => exact ⟨hlast, by simp [Token.join_eq]⟩
  | @cons s ss r rs hs _ ih =>
    -- The slots are put on from the last to the first.
    obtain ⟨hlexed, hjoin⟩ := ih
    refine ⟨?_, ?_⟩
    · rw [List.flatMap_cons, List.append_assoc]
      exact hs.lexed_append hlexed
    · rw [List.flatMap_cons, List.append_assoc, Lexeme.join_append, hs.join_outputLexemes, hjoin,
        List.flatMap_cons, List.append_assoc]

/-- White space is trivia. -/
theorem isTrivia_of_isBlank {t : Token} (h : t.isBlank = true) : t.isTrivia = true := by
  unfold Token.isBlank at h
  rcases Bool.or_eq_true_iff.mp h with h | h
  · rw [Token.isTrivia, beq_iff_eq.mp h]
    rfl
  · rw [Token.isTrivia, beq_iff_eq.mp h]
    rfl

/-- The significant tokens of a file are those of its slots, the white space aside. -/
theorem significant_slots {last : List Token} {ss : List Slot} {rs : List ExpandedItem}
    (h : Each (Expands target) last ss rs) :
    significant (ss.flatMap tokens ++ last) =
      ss.flatMap (fun s => significant s.gap ++ significant s.attr ++ significant s.item) ++
        significant last := by
  induction h with
  | nil => rfl
  | @cons s ss r rs hs _ ih =>
    have hblanks : significant s.blanks = [] :=
      significant_of_trivia fun t ht => isTrivia_of_isBlank (hs.followed.blank t ht)
    rw [List.flatMap_cons, List.append_assoc, significant_append, ih, tokens, significant_append,
      significant_append, significant_append, hblanks, List.append_nil, List.flatMap_cons,
      List.append_assoc _ _ (significant last)]

/-- The tokens that a slot keeps and the new ones of its item can be put together. -/
theorem Expands.joins (htokens : tokenize source c = .ok (front ++ s.tokens ++ behind))
    (hassigned : ∀ t ∈ front ++ s.tokens ++ behind, t.kind ≠ .unassigned)
    (hopens : ∀ i (hi : i < (front ++ s.tokens ++ behind).length),
      (front ++ s.tokens ++ behind)[i].location = r.location →
        Opens ((front ++ s.tokens ++ behind).take i))
    (h : s.Expands target behind r) : s.Joins := by
  have hlexed := (tokenize_eq_ok_iff.mp htokens).1
  obtain ⟨hitem, -⟩ := h.exists_relexed htokens fun t ht => hassigned t (by simp [tokens, ht])
  refine ⟨?_, fun l hl => ?_, fun us y hgap t ht => ?_, hitem⟩
  · simp only [tokens, List.map_append] at hlexed
    exact hlexed.left.right.left.left.left
  · obtain ⟨t, ht, rfl⟩ := List.mem_map.mp hl
    exact hassigned t (by simp [tokens, ht])
  · -- The token before the hash is the last one that stays.
    obtain ⟨hash, bracket, paren, closing, trivia, path, enclosed, trivia', segments, hattr, hkind,
      hlocation, -⟩ := h.written
    have hsplit : front ++ s.tokens ++ behind = (front ++ us ++ [y]) ++ hash ::
        (trivia ++ bracket :: path ++ paren :: enclosed ++ trivia' ++ [closing] ++ s.blanks ++
          s.item ++ behind) := by
      rw [tokens, hgap, hattr]
      simp
    have hy := hopens (front ++ us ++ [y]).length (by rw [hsplit]; simp)
      (by simp only [hsplit, List.getElem_append_right (Nat.le_refl _)]; simpa using hlocation)
    rw [hsplit, List.take_left] at hy
    exact sealed_gap hlexed h.written hgap (hy y (by simp)) ht

end Slot

/-- The expansion of a file without unassigned tokens is a change of its significant tokens. Where
each attribute stands first in the file, or directly behind trivia or a delimiter, the output falls
into tokens, and the significant ones are those of the file without the tokens of the attributes,
and with the markers of the items that are reported as changed edited to name the reported
conventions. -/
theorem expandSource_tokens (source : Text) (target : Target) (ts : List Token)
    (htokens : tokenize source Cursor.start = .ok ts)
    (hassigned : ∀ t ∈ ts, t.kind ≠ .unassigned)
    (hopens : ∀ r ∈ (expandSource source target).items, ∀ i (hi : i < ts.length),
      ts[i].location = r.location → Slot.Opens (ts.take i))
    (herrors : (expandSource source target).errors = []) :
    ∃ slots last ts', ts = slots.flatMap Slot.tokens ++ last ∧
      significant ts = slots.flatMap (fun s => significant s.gap ++ significant s.attr ++
        significant s.item) ++ significant last ∧
      tokenize (expandSource source target).output Cursor.start = .ok ts' ∧
      (significant ts').map Token.lexeme =
        slots.flatMap (fun s => (significant s.gap).map Token.lexeme ++
          Lexeme.significant s.text.lexemes) ++ (significant last).map Token.lexeme ∧
      Slot.Each (fun s _ r => Attribute.Written r.location s.attr ∧ s.Edited r) last slots
        (expandSource source target).items := by
  have hexpand : expandSource source target = expandTokens target ts := by
    simp only [expandSource, htokens]
  rw [hexpand] at herrors hopens ⊢
  obtain ⟨slots, last, heq, houtput, heach⟩ := exists_slots target ts herrors
  -- Each slot is looked at where it stands in the file.
  have hjoins : Slot.Each (fun s _ _ => s.Joins) last slots (expandTokens target ts).items := by
    refine @Slot.Each.imp _ _ _ [] _ _ heach fun front s behind r hsplit hr hs => ?_
    have hts : ts = front ++ s.tokens ++ behind := heq.trans hsplit
    have hbefore := hopens r hr
    simp only [hts] at htokens hassigned hbefore
    exact hs.joins htokens hassigned hbefore
  have hlast : Lexed (last.map Token.lexeme) := by
    have hlexed := (tokenize_eq_ok_iff.mp htokens).1
    rw [heq, List.map_append] at hlexed
    exact hlexed.right
  -- The output is lexed as a whole, and the lexemes are the tokens that it falls into.
  obtain ⟨hlexed, hjoin⟩ := Slot.lexed_output hjoins hlast
  have htokens' := hlexed.tokenize_join Cursor.start
  rw [hjoin, ← houtput] at htokens'
  refine ⟨slots, last, _, heq, ?_, htokens', ?_, ?_⟩
  · rw [heq]
    exact Slot.significant_slots heach
  · rw [map_lexeme_significant, Lexeme.map_lexeme_place]
    simp only [map_lexeme_significant, Lexeme.significant, Slot.outputLexemes, List.filter_append,
      List.filter_flatMap]
  · refine @Slot.Each.imp _ _ _ [] _ _ heach fun front s behind r hsplit _ hs => ?_
    rw [heq.trans hsplit] at htokens hassigned
    refine ⟨hs.written, (hs.exists_relexed htokens fun t ht => hassigned t ?_).2⟩
    simp [Slot.tokens, ht]

/-- An item directly behind a brace gets a marker, and the brace stays a token of its own. -/
theorem expandSource_tokens_brace :
    ∃ ts slots last ts', tokenize (utf8 "m! \x7b#[abi(\"C\")] fn f();\x7d") Cursor.start = .ok ts ∧
      ts = slots.flatMap Slot.tokens ++ last ∧
      tokenize (utf8 "m! \x7bextern \"C\" fn f();\x7d") Cursor.start = .ok ts' ∧
      (significant ts').map Token.lexeme =
        slots.flatMap (fun s => (significant s.gap).map Token.lexeme ++
          Lexeme.significant s.text.lexemes) ++ (significant last).map Token.lexeme ∧
      Slot.Each (fun s _ r => Attribute.Written r.location s.attr ∧ s.Edited r) last slots
        [⟨⟨1, 5, 4⟩, .function, utf8 "f", utf8 "C", true⟩] := by
  let ts : List Token := Lexeme.place Cursor.start
    [⟨.identifier, utf8 "m"⟩, ⟨.bang, utf8 "!"⟩, ⟨.whitespace, utf8 " "⟩,
      ⟨.braceLeft, utf8 "\x7b"⟩, ⟨.hash, utf8 "#"⟩, ⟨.bracketLeft, utf8 "["⟩,
      ⟨.identifier, utf8 "abi"⟩, ⟨.parenLeft, utf8 "("⟩, ⟨.string, utf8 "\"C\""⟩,
      ⟨.parenRight, utf8 ")"⟩, ⟨.bracketRight, utf8 "]"⟩, ⟨.whitespace, utf8 " "⟩,
      ⟨.identifier, utf8 "fn"⟩, ⟨.whitespace, utf8 " "⟩, ⟨.identifier, utf8 "f"⟩,
      ⟨.parenLeft, utf8 "("⟩, ⟨.parenRight, utf8 ")"⟩, ⟨.semicolon, utf8 ";"⟩,
      ⟨.braceRight, utf8 "\x7d"⟩]
  have hexpand : expandSource (utf8 "m! \x7b#[abi(\"C\")] fn f();\x7d") Target.linux64 =
      ⟨[⟨⟨1, 5, 4⟩, .function, utf8 "f", utf8 "C", true⟩], [],
        utf8 "m! \x7bextern \"C\" fn f();\x7d"⟩ := by
    decide +kernel
  have htokens : tokenize (utf8 "m! \x7b#[abi(\"C\")] fn f();\x7d") Cursor.start = .ok ts := by
    decide +kernel
  have hassigned : ∀ t ∈ ts, t.kind ≠ .unassigned := by decide +kernel
  have hopens : ∀ r ∈ (expandSource (utf8 "m! \x7b#[abi(\"C\")] fn f();\x7d") Target.linux64).items,
      ∀ i (hi : i < ts.length), ts[i].location = r.location → Slot.Opens (ts.take i) := by
    rw [hexpand]
    decide +kernel
  obtain ⟨slots, last, ts', heq, -, houtput, hlexemes, heach⟩ :=
    expandSource_tokens _ Target.linux64 ts htokens hassigned hopens (by rw [hexpand])
  rw [hexpand] at houtput heach
  exact ⟨ts, slots, last, ts', htokens, heq, houtput, hlexemes, heach⟩

end CallConv
