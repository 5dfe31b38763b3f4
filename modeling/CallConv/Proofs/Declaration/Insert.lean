import Mathlib
import CallConv.Declaration.Edit
import CallConv.Proofs.Declaration.Outline
import CallConv.Proofs.Token.Concat
import CallConv.Proofs.Token.Terminated

/-!
# The lexemes of a changed marker

Changing a marker removes at most a literal and puts in at most a keyword, a literal and spaces.
This module shows that what is put in is lexed where it stands: nothing before it and nothing behind
it falls into other tokens than before.
-/

namespace CallConv

/-- The bytes between the quotes of a name's literal. -/
def Abi.escaped (name : Text) : Text :=
  name.flatMap fun b =>
    if b = Byte.backslash ∨ b = Byte.quote then [Byte.backslash, b] else [b]

/-- The escaped bytes of a name one after the other. -/
theorem Abi.escaped_cons (b : UInt8) (name : Text) :
    Abi.escaped (b :: name) =
      (if b = Byte.backslash ∨ b = Byte.quote then [Byte.backslash, b] else [b]) ++
        Abi.escaped name := rfl

/-- The escaped bytes of a name are the body of its literal, which they do not end. -/
theorem Abi.stringBody_escaped (name : Text) : Rule.StringBody (Abi.escaped name) := by
  induction name with
  | nil => exact .nil
  | cons b name ih =>
    rw [Abi.escaped_cons]
    by_cases hb : b = Byte.backslash ∨ b = Byte.quote
    · rw [if_pos hb]
      exact .escape b ih
    · rw [if_neg hb]
      exact .byte (fun h => hb (.inr h)) (fun h => hb (.inl h)) ih

/-- The literal of a name begins with a quote. -/
theorem Abi.quoted_eq_cons (abi : Text) : ∃ t, Abi.quoted abi = Byte.quote :: t ∧ t ≠ [] :=
  ⟨_, rfl, by simp⟩

/-- The literal of a name is cut off every text that it begins, as one token. -/
theorem begins_quoted (abi rest : Text) : Begins .string (Abi.quoted abi) rest := by
  have htail : Rule.StringTail (Abi.escaped abi ++ [Byte.quote]) :=
    ⟨Abi.escaped abi, Abi.stringBody_escaped abi, rfl⟩
  exact Lexer.begins_of_opening (.string (.inl rfl))
    (Rule.shortest_of_read (fun _ rest => Rule.stringEnd?_tail rest) htail)

namespace Lexeme

/-- The keyword of a marker. -/
def externWord : Lexeme := ⟨.identifier, utf8 "extern"⟩

/-- One space. -/
def space : Lexeme := ⟨.whitespace, utf8 " "⟩

/-- The literal of a convention's name. -/
def literal (abi : Text) : Lexeme := ⟨.string, Abi.quoted abi⟩

end Lexeme

/-- The literal of a name closes itself, so it can be put in front of all lexemes. -/
theorem Lexed.cons_literal {ls : List Lexeme} (hls : Lexed ls) (abi : Text) :
    Lexed (Lexeme.literal abi :: ls) :=
  Lexed.cons (begins_quoted abi []) (by simp [Lexeme.literal])
    (Sealed.of_closed (begins_quoted abi []) rfl False.elim) hls

/-- A space can be put in front of lexemes that begin with no blank. -/
theorem Lexed.cons_space {ls : List Lexeme} {c : UInt8} {t : Text} (hls : Lexed ls)
    (hjoin : Lexeme.join ls = c :: t) (hblank : Rule.isBlank c = false)
    (hc : c ≠ Byte.apostrophe) : Lexed (Lexeme.space :: ls) := by
  have hspace : Begins .whitespace (utf8 " ") [] := rfl
  obtain ⟨a, hseam⟩ := Seam.of_whitespace hspace hblank
  refine Lexed.cons hspace (by decide) ?_ hls
  rw [hjoin]
  exact Sealed.of_seam hseam hc

/-- A space and the literal of a name can be put in front of all lexemes. -/
theorem Lexed.cons_space_literal {ls : List Lexeme} (hls : Lexed ls) (abi : Text) :
    Lexed (Lexeme.space :: Lexeme.literal abi :: ls) := by
  obtain ⟨quoted, hquoted, -⟩ := Abi.quoted_eq_cons abi
  have hjoin : Lexeme.join (Lexeme.literal abi :: ls) =
      Byte.quote :: (quoted ++ Lexeme.join ls) := by
    rw [Lexeme.join_cons, Lexeme.literal, hquoted, List.cons_append]
  exact (hls.cons_literal abi).cons_space hjoin rfl (by decide)

namespace MarkerSite

/-- The tokens of a marker that a change of it keeps. -/
def kept : MarkerSite → List Token
  | named keyword _ => [keyword]
  | bare keyword => [keyword]
  | absent _ => []

/-- The tokens that a change of a marker removes. -/
def removed : MarkerSite → List Token
  | named _ literal => [literal]
  | bare _ => []
  | absent _ => []

/-- The lexemes that a change of a marker puts in. -/
def inserted (abi : Text) : MarkerSite → List Lexeme
  | named _ _ => [Lexeme.literal abi]
  | bare _ => [Lexeme.space, Lexeme.literal abi]
  | absent _ => [Lexeme.externWord, Lexeme.space, Lexeme.literal abi, Lexeme.space]

/-- The lexemes that a change of a marker puts in before the literal. -/
def ahead : MarkerSite → List Lexeme
  | named _ _ => []
  | bare _ => [Lexeme.space]
  | absent _ => [Lexeme.externWord, Lexeme.space]

/-- The lexemes that a change of a marker puts in behind the literal. -/
def behind : MarkerSite → List Lexeme
  | absent _ => [Lexeme.space]
  | _ => []

/-- Of what a change of a marker puts in, only the literal depends on the name. -/
theorem inserted_eq (site : MarkerSite) (abi : Text) :
    site.inserted abi = site.ahead ++ Lexeme.literal abi :: site.behind := by cases site <;> rfl

/-- A change of a marker puts in the text of its lexemes. -/
theorem text_edit (site : MarkerSite) (abi : Text) :
    (site.edit abi).text = Lexeme.join (site.inserted abi) := by
  cases site with
  | absent fn => simp [edit, inserted, Lexeme.literal, Lexeme.externWord, Lexeme.space, utf8]
  | bare keyword => simp [edit, inserted, Lexeme.literal, Lexeme.space]
  | named keyword literal => simp [edit, inserted, Lexeme.literal]

/-- What a change of a marker puts in is assigned. -/
theorem assigned_inserted (site : MarkerSite) (abi : Text) :
    ∀ l ∈ site.inserted abi, l.kind ≠ .unassigned := by
  cases site <;> simp [inserted, Lexeme.externWord, Lexeme.space, Lexeme.literal]

/-- What a change of a marker puts in begins with no backslash. -/
theorem head?_inserted (site : MarkerSite) (abi : Text) :
    (Lexeme.join (site.inserted abi)).head? ≠ some Byte.backslash := by
  have hne : ∀ c : UInt8, (Lexeme.join (site.inserted abi)).head? = some c →
      c ≠ Byte.backslash → (Lexeme.join (site.inserted abi)).head? ≠ some Byte.backslash :=
    fun c hc hne heq => hne (Option.some.inj (hc.symm.trans heq))
  cases site with
  | absent fn => exact hne 0x65 rfl (by decide)
  | bare keyword => exact hne Byte.space rfl (by decide)
  | named keyword literal => exact hne Byte.quote rfl (by decide)

/-- What a change of a marker puts in is lexed. -/
theorem lexed_inserted (site : MarkerSite) (abi : Text) : Lexed (site.inserted abi) := by
  have hnil : Lexed [] := trivial
  cases site with
  | named keyword literal => exact hnil.cons_literal abi
  | bare keyword => exact hnil.cons_space_literal abi
  | absent fn =>
    have hspace : Lexed [Lexeme.space] := ⟨rfl, trivial⟩
    refine Lexed.cons rfl (by decide) ?_ (hspace.cons_space_literal abi)
    exact Sealed.of_seam (Seam.of_extern (.inr rfl)) (by decide)

end MarkerSite

/-! ## Where a marker stands among all tokens -/

section Significant

variable {ts us rest lead : List Token} {t : Token}

/-- A significant token stands behind trivia and before the other significant ones. -/
theorem exists_of_significant_cons (h : significant ts = t :: rest) :
    ∃ trivia after, ts = trivia ++ t :: after ∧ (∀ u ∈ trivia, u.isTrivia = true) ∧
      significant [t] = [t] ∧ significant after = rest := by
  obtain ⟨trivia, after, rfl, htrivia, ht, hafter⟩ := List.filter_eq_cons_iff.mp h
  exact ⟨trivia, after, rfl, fun u hu => by simpa using htrivia u hu,
    List.filter_cons_of_pos ht, hafter⟩

/-- Tokens that end with one that a marker can follow do so also with trivia among them. -/
theorem Led.exists_init (h : Led (significant ts)) :
    ∃ init trivia, ts = init ++ trivia ∧ Led init ∧ ∀ t ∈ trivia, t.isTrivia = true := by
  rcases h with hnil | ⟨t, ⟨lead, hlead⟩, ht⟩
  · refine ⟨[], ts, rfl, .inl rfl, fun t ht => ?_⟩
    simpa using List.filter_eq_nil_iff.mp hnil t ht
  · obtain ⟨us, vs, rfl, -, hvs⟩ := List.filter_eq_append_iff.mp hlead.symm
    obtain ⟨trivia, after, rfl, -, -, hafter⟩ := exists_of_significant_cons hvs
    refine ⟨us ++ trivia ++ [t], after, by simp, .inr ⟨t, List.suffix_append _ _, ht⟩, ?_⟩
    intro u hu
    simpa using List.filter_eq_nil_iff.mp hafter u hu

/-- The last of some tokens that end with trivia is the last one before it or is trivia itself. -/
theorem last_cases {init trivia us : List Token} {y : Token}
    (htrivia : ∀ t ∈ trivia, t.isTrivia = true) (h : init ++ trivia = us ++ [y]) :
    y.isTrivia = true ∨ init = us ++ [y] := by
  rcases List.eq_nil_or_concat trivia with rfl | ⟨vs, t, rfl⟩
  · rw [List.append_nil] at h
    exact .inr h
  · rw [List.concat_eq_append, ← List.append_assoc] at h
    obtain ⟨-, heq⟩ := List.append_inj' h rfl
    obtain rfl := List.singleton_inj.mp heq
    exact .inl (htrivia t (by simp))

end Significant

namespace MarkerSite

/-- The tokens before and behind what a change of a marker removes. -/
def Fits : MarkerSite → (before after : List Token) → Prop
  | named keyword literal, before, _ =>
    keyword.isWord (utf8 "extern") = true ∧ Abi.isLiteral literal = true ∧
      ∃ init trivia, before = init ++ keyword :: trivia ∧ ∀ t ∈ trivia, t.isTrivia = true
  | bare keyword, before, _ =>
    keyword.isWord (utf8 "extern") = true ∧ ∃ init, before = init ++ [keyword]
  | absent fn, before, after =>
    (∃ rest, after = fn :: rest ∧ fn.isWord (utf8 "fn") = true) ∧
      ∃ init trivia, before = init ++ trivia ∧ Led init ∧ ∀ t ∈ trivia, t.isTrivia = true

/-- A marker among the significant tokens stands among all tokens in the same way. -/
theorem exists_fit {site : MarkerSite} {ts lead tail : List Token}
    (h : significant ts = lead ++ site.tokens ++ tail) (hled : Led lead)
    (hstands : site.Stands tail) :
    ∃ before after, ts = before ++ site.removed ++ after ∧ site.Fits before after ∧
      significant before = lead ++ site.kept ∧ significant after = tail := by
  -- The tokens are cut where the significant ones are. Trivia goes to what stands before, so that
  -- nothing stands between the cut and what is removed.
  cases site with
  | absent fn =>
    obtain ⟨rest, rfl, hfn⟩ := hstands
    rw [tokens, List.append_nil] at h
    obtain ⟨us, vs, rfl, rfl, hvs⟩ := List.filter_eq_append_iff.mp h
    obtain ⟨trivia, after, rfl, htrivia, hkept, hafter⟩ := exists_of_significant_cons hvs
    obtain ⟨init, trivia', rfl, hinit, htrivia'⟩ := hled.exists_init
    refine ⟨init ++ trivia' ++ trivia, fn :: after, by simp [removed], ⟨⟨after, rfl, hfn⟩, ?_⟩,
      ?_, ?_⟩
    · refine ⟨init, trivia' ++ trivia, by simp, hinit, fun t ht => ?_⟩
      exact (List.mem_append.mp ht).elim (htrivia' t) (htrivia t)
    · rw [significant_append, significant_of_trivia htrivia]
      rfl
    · rw [← List.singleton_append, significant_append, hkept, hafter]
      rfl
  | bare keyword =>
    rw [tokens, List.append_assoc, List.singleton_append] at h
    obtain ⟨us, vs, rfl, rfl, hvs⟩ := List.filter_eq_append_iff.mp h
    obtain ⟨trivia, after, rfl, htrivia, hkept, hafter⟩ := exists_of_significant_cons hvs
    refine ⟨us ++ trivia ++ [keyword], after, by simp [removed],
      ⟨hstands, us ++ trivia, rfl⟩, ?_, hafter⟩
    rw [significant_append, significant_append, significant_of_trivia htrivia, hkept,
      List.append_nil]
    rfl
  | named keyword literal =>
    rw [tokens, List.append_assoc, List.cons_append, List.singleton_append] at h
    obtain ⟨us, vs, rfl, rfl, hvs⟩ := List.filter_eq_append_iff.mp h
    obtain ⟨trivia, ws, rfl, htrivia, hkept, hws⟩ := exists_of_significant_cons hvs
    obtain ⟨trivia', after, rfl, htrivia', -, hafter⟩ := exists_of_significant_cons hws
    refine ⟨us ++ trivia ++ ([keyword] ++ trivia'), after, by simp [removed],
      ⟨hstands.1, hstands.2, us ++ trivia, trivia', rfl, htrivia'⟩, ?_, hafter⟩
    rw [significant_append, significant_append, significant_append, significant_of_trivia htrivia,
      significant_of_trivia htrivia', hkept, List.append_nil, List.append_nil]
    rfl

/-- Before the literal, what a change of a marker keeps and puts in is a keyword. -/
theorem significant_ahead {site : MarkerSite} {tail : List Token} (h : site.Stands tail) :
    site.kept.map Token.lexeme ++ Lexeme.significant site.ahead = [Lexeme.externWord] := by
  have hkeyword : ∀ t : Token, t.isWord (utf8 "extern") = true → t.lexeme = Lexeme.externWord :=
    fun t ht => by rw [Token.lexeme, kind_of_isWord ht, content_of_isWord ht, Lexeme.externWord]
  cases site with
  | absent fn => rfl
  | bare keyword =>
    rw [kept, List.map_singleton, hkeyword keyword h]
    rfl
  | named keyword literal =>
    rw [kept, List.map_singleton, hkeyword keyword h.1]
    rfl

/-- Behind the literal, a change of a marker puts in trivia only. -/
theorem significant_behind (site : MarkerSite) : Lexeme.significant site.behind = [] := by
  cases site <;> rfl

/-- What a change of a marker keeps and puts in are a keyword and a literal. -/
theorem significant_inserted {site : MarkerSite} {tail : List Token} (h : site.Stands tail)
    (abi : Text) :
    site.kept.map Token.lexeme ++ Lexeme.significant (site.inserted abi) =
      [Lexeme.externWord, Lexeme.literal abi] := by
  rw [inserted_eq, Lexeme.significant_append, ← List.append_assoc, significant_ahead h,
    ← List.singleton_append (l := site.behind), Lexeme.significant_append, significant_behind]
  rfl

end MarkerSite

/-! ## The changed text -/

/-- An edit replaces the part of a text that lies between its offsets. -/
theorem Edit.apply_eq {e : Edit} {origin : Cursor} {p m q : Text}
    (hfirst : e.first = origin.offset + p.length)
    (hlast : e.last = origin.offset + (p ++ m).length) :
    e.apply (p ++ m ++ q) origin = p ++ e.text ++ q := by
  -- Offsets count from the file, the text from its own beginning.
  have htake : (e.first - origin.offset).toNat = p.length := by omega
  have hdrop : (e.last - origin.offset).toNat = (p ++ m).length := by omega
  rw [Edit.apply, htake, hdrop, List.drop_left, List.append_assoc p m, List.take_left]

/-- The change of a marker that names a convention begins and ends where its literal does. -/
theorem MarkerSite.edit_bounds_named {literal : Token} {source : Text} {origin : Cursor}
    {before after : List Token} (keyword : Token) (abi : Text)
    (htokens : tokenize source origin = .ok (before ++ literal :: after)) :
    ((named keyword literal).edit abi).first = origin.offset + (Token.join before).length ∧
      ((named keyword literal).edit abi).last =
        origin.offset + (Token.join before ++ literal.content).length := by
  have hoffset := location_offset_eq htokens
  refine ⟨hoffset, ?_⟩
  show literal.endOffset = _
  rw [Token.endOffset, hoffset, List.length_append]
  push_cast
  omega

namespace MarkerSite.Fits

variable {site : MarkerSite} {source : Text} {origin : Cursor} {before after : List Token}

/-- A change of a marker begins and ends where the removed tokens do. -/
theorem edit_bounds (h : site.Fits before after) (abi : Text)
    (htokens : tokenize source origin = .ok (before ++ site.removed ++ after)) :
    (site.edit abi).first = origin.offset + (Token.join before).length ∧
      (site.edit abi).last =
        origin.offset + (Token.join before ++ Token.join site.removed).length := by
  cases site with
  | absent fn =>
    obtain ⟨⟨rest, rfl, -⟩, -⟩ := h
    rw [removed, List.append_nil] at htokens
    have hoffset := location_offset_eq htokens
    exact ⟨hoffset, by simpa [edit, removed, Token.join] using hoffset⟩
  | bare keyword =>
    obtain ⟨-, init, rfl⟩ := h
    rw [removed, List.append_nil, List.append_assoc, List.singleton_append] at htokens
    have hoffset := location_offset_eq htokens
    -- The cut is behind the keyword, with nothing between its two ends.
    have hend : keyword.endOffset = origin.offset + (Token.join (init ++ [keyword])).length := by
      rw [Token.endOffset, hoffset]
      simp only [Token.join, List.flatMap_append, List.flatMap_singleton, List.length_append]
      push_cast
      omega
    exact ⟨hend, by simpa [edit, removed, Token.join] using hend⟩
  | named keyword literal =>
    rw [removed, List.append_assoc, List.singleton_append] at htokens
    simpa [removed, Token.join] using edit_bounds_named keyword abi htokens

/-- The text of a literal that can name a convention begins with no line break. -/
theorem literal_eq_cons {literal : Token} {r : Text} (hliteral : Abi.isLiteral literal = true)
    (h : Begins literal.kind literal.content r) :
    ∃ c t, literal.content = c :: t ∧ c ≠ Byte.newline := by
  -- Both kinds of literals may have a mark in front.
  have hmarked : ∃ mark c t, Rule.IsMark mark ∧ literal.content = mark ++ c :: t ∧
      c ≠ Byte.newline := by
    cases hkind : literal.kind <;> rw [hkind] at h
    case string =>
      obtain ⟨mark, t, hmark, heq, -⟩ := h.string_ends
      exact ⟨mark, _, t, hmark, heq, by decide⟩
    case rawString =>
      obtain ⟨mark, t, hmark, heq, -⟩ := h.rawString_ends
      exact ⟨mark, _, t, hmark, heq, by decide⟩
    all_goals simp [Abi.isLiteral, hkind, TokenKind.isStringLiteral] at hliteral
  obtain ⟨mark, c, t, rfl | rfl, heq, hc⟩ := hmarked
  · exact ⟨c, t, heq, hc⟩
  · exact ⟨_, _, heq, by decide⟩

/-- A token that a marker can follow is sealed before the keyword of one, if it was before `fn`. -/
theorem sealed_of_leads {strays : Prop} {kind : TokenKind} {y r s : Text}
    (hkind : kind.leads = true) (h : Begins kind y (0x66 :: r)) : Sealed strays y (0x65 :: s) := by
  have hclosed : kind.isClosed = true → Sealed strays y (0x65 :: s) := by
    intro hkind
    obtain ⟨a, hseam⟩ := Seam.of_closed h hkind
    exact Sealed.of_seam (hseam _) (by decide)
  cases kind
  -- An identifier would have taken the first letter of `fn` as well.
  case identifier => exact absurd h (Begins.not_identifier (by decide) (by decide +kernel))
  case bracketRight => exact hclosed rfl
  case parenRight => exact hclosed rfl
  case braceRight => exact hclosed rfl
  case greater =>
    rw [h.eq_utf8 (by simp [Rule.all] : Rule.exactly .greater ">" ∈ Rule.all)]
    exact Sealed.of_seam (Seam.of_sign (.inl rfl)) (by decide)
  case colon =>
    rw [h.eq_utf8 (by simp [Rule.all] : Rule.exactly .colon ":" ∈ Rule.all)]
    exact Sealed.of_seam (Seam.of_sign (.inr (.inl rfl))) (by decide)
  case equal =>
    rw [h.eq_utf8 (by simp [Rule.all] : Rule.exactly .equal "=" ∈ Rule.all)]
    exact Sealed.of_seam (Seam.of_sign (.inr (.inr rfl))) (by decide)
  all_goals exact absurd hkind (by decide)

/-- The last token before a change of a marker is sealed before what is put in. -/
theorem sealed_before (h : site.Fits before after) (abi : Text)
    (hlexed : Lexed ((before ++ site.removed ++ after).map Token.lexeme)) {us : List Token}
    {y : Token} (hlast : before = us ++ [y]) {strays : Prop} :
    Sealed strays y.content (Lexeme.join (site.inserted abi)) := by
  -- What the last token knows of the old text is that it ends before what is removed.
  have hbegins : Begins y.kind y.content
      (Lexeme.join ((site.removed ++ after).map Token.lexeme)) := by
    rw [hlast, List.append_assoc, List.append_assoc, List.singleton_append, List.map_append,
      List.map_cons] at hlexed
    exact hlexed.begins
  obtain ⟨quoted, hquoted, -⟩ := Abi.quoted_eq_cons abi
  cases site with
  | absent fn =>
    obtain ⟨⟨rest, rfl, hfn⟩, init, trivia, rfl, hled, htrivia⟩ := h
    have hcontent : fn.lexeme.content = 0x66 :: [0x6E] := content_of_isWord hfn
    rw [removed, List.nil_append, List.map_cons, Lexeme.join_cons, hcontent] at hbegins
    show Sealed strays y.content (0x65 :: _)
    -- Without trivia the marker is put directly behind the last token of the lead.
    rcases last_cases htrivia hlast with hy | rfl
    · exact Sealed.of_trivia hbegins hy (by decide) (by decide) fun h => absurd h (by decide)
    · rcases hled with hnil | ⟨t, hsuffix, ht⟩
      · simp at hnil
      · obtain ⟨vs, hvs⟩ := hsuffix
        obtain rfl := List.singleton_inj.mp (List.append_inj' hvs rfl).2
        exact sealed_of_leads ht hbegins
  | bare keyword =>
    obtain ⟨hk, init, rfl⟩ := h
    obtain rfl := List.singleton_inj.mp (List.append_inj' hlast rfl).2
    rw [content_of_isWord hk]
    exact Sealed.of_seam (Seam.of_extern (.inr rfl)) (by decide)
  | named keyword literal =>
    obtain ⟨hk, hl, init, trivia, rfl, htrivia⟩ := h
    have hjoin : Lexeme.join ((named keyword literal).inserted abi) = Byte.quote :: quoted := by
      rw [inserted, Lexeme.join_cons, Lexeme.join_nil, List.append_nil, Lexeme.literal, hquoted]
    rw [hjoin]
    rw [← List.singleton_append, ← List.append_assoc] at hlast
    -- Trivia before the literal stays before a literal; else the keyword itself is there.
    rcases last_cases htrivia hlast with hy | heq
    · have hliteral : Begins literal.kind literal.content
          (Lexeme.join (after.map Token.lexeme)) := by
        rw [removed, List.map_append, List.map_append, List.append_assoc] at hlexed
        exact hlexed.right.1
      obtain ⟨c, t, hcons, hc⟩ := literal_eq_cons hl hliteral
      have hcontent : literal.lexeme.content = c :: t := hcons
      rw [removed, List.singleton_append, List.map_cons, Lexeme.join_cons, hcontent] at hbegins
      exact Sealed.of_trivia hbegins hy hc (by decide) fun h => absurd h (by decide)
    · obtain rfl := List.singleton_inj.mp (List.append_inj' heq rfl).2
      rw [content_of_isWord hk]
      exact Sealed.of_seam (Seam.of_extern (.inl rfl)) (by decide)

/-- The changed text is lexed into what stands before, what is put in, and what stands behind. -/
theorem lexed (h : site.Fits before after) (abi : Text)
    (hlexed : Lexed ((before ++ site.removed ++ after).map Token.lexeme))
    (hcalm : Calm ((before ++ site.removed ++ after).map Token.lexeme)) :
    Lexed (before.map Token.lexeme ++ site.inserted abi ++ after.map Token.lexeme) := by
  have hbefore : ∀ us y, before.map Token.lexeme = us ++ [y] →
      Sealed (Lexeme.stray ∈ us) y.content (Lexeme.join (site.inserted abi)) := by
    intro us y heq
    obtain ⟨us', ys, hsplit, -, hys⟩ := List.map_eq_append_iff.mp heq
    obtain ⟨y', rfl, rfl⟩ := List.map_eq_singleton_iff.mp hys
    exact h.sealed_before abi hlexed hsplit
  -- The new literal closes itself, whatever follows it.
  have hliteral : ∀ strays t, Sealed strays (Lexeme.literal abi).content t := fun strays t =>
    Sealed.of_closed (begins_quoted abi []) rfl fun _ => by
      obtain ⟨quoted, hquoted, hne⟩ := Abi.quoted_eq_cons abi
      have := List.length_pos_of_ne_nil hne
      simp only [Lexeme.literal, hquoted, List.length_cons]
      omega
  have hinserted := site.lexed_inserted abi
  have hassigned := site.assigned_inserted abi
  have hhead := site.head?_inserted abi
  rw [List.map_append, List.map_append] at hlexed hcalm
  -- What is put in ends with the literal, or with a space where `fn` follows.
  cases site with
  | absent fn =>
    obtain ⟨⟨rest, rfl, hfn⟩, -⟩ := h
    show Lexed (_ ++ ([Lexeme.externWord, Lexeme.space, Lexeme.literal abi] ++ [Lexeme.space]) ++ _)
    refine Lexed.splice hlexed hcalm hinserted hassigned hhead hbefore ?_
    have hcontent : fn.lexeme.content = 0x66 :: [0x6E] := content_of_isWord hfn
    obtain ⟨a, hseam⟩ := Seam.of_whitespace (c := 0x66) (r := []) (x := utf8 " ") rfl rfl
    rw [List.map_cons, Lexeme.join_cons, hcontent]
    exact Sealed.of_seam hseam (by decide)
  | bare keyword =>
    show Lexed (_ ++ ([Lexeme.space] ++ [Lexeme.literal abi]) ++ _)
    exact Lexed.splice hlexed hcalm hinserted hassigned hhead hbefore (hliteral _ _)
  | named keyword literal =>
    show Lexed (_ ++ ([] ++ [Lexeme.literal abi]) ++ _)
    exact Lexed.splice hlexed hcalm hinserted hassigned hhead hbefore (hliteral _ _)

end MarkerSite.Fits

end CallConv
