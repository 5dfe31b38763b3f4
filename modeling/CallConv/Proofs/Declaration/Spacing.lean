import Mathlib
import CallConv.Proofs.Declaration.Angles
import CallConv.Proofs.Declaration.SetAbi
import CallConv.Proofs.Token.Removed

/-!
# White space between an angle and an equals sign

White space between an angle that closes and an equals sign behind it seems to be of no importance,
and it is of none where a comment or other white space is left between the two. Where they come to
stand side by side, though, the lexer takes them for one operator, so that the angle is closed no
more. Inside of brackets and in the value of a constant or static no angle counts, and the same
declaration is read; everywhere else none is read any more (`Declaration.classify_rest`).
-/

namespace CallConv

open scoped Computability
open Grammar

/-! ## Angles and an equals sign as one operator -/

namespace Grammar

/-- The beginnings of constants and statics whose values have begun. -/
def valued : Language Token := bindingHead * (ofKind .equal * ⊤)

variable {ts angles : List Token}

/-- Angles that close at the end do not matter to whether tokens are balanced. -/
theorem append_mem_elements_iff (h : ∀ t ∈ angles, t.kind = .greater) :
    ts ++ angles ∈ (element .value)∗ ↔ ts ∈ (element .value)∗ := by
  have hplain : ∀ t ∈ angles, Scope.value.isPlain t.kind = true := fun t ht => by
    rw [h t ht]
    decide
  constructor
  · intro hmem
    rw [← List.append_nil angles] at hmem
    rcases mem_elements_or_encloses hplain hmem with ⟨hts, -⟩ | hencloses
    · exact hts
    · obtain ⟨outer, first, inner, rest, last, after, -, hnil, -⟩ := hencloses
      simp at hnil
  · exact fun hts => append_mem_kstar hts (mem_elements_of_plain hplain)

/-- Angles that close at the end do not matter to whether a value has begun. -/
theorem append_mem_valued_iff (h : ∀ t ∈ angles, t.kind = .greater) :
    ts ++ angles ∈ valued ↔ ts ∈ valued := by
  constructor
  · intro hmem
    obtain ⟨head, hhead, rest, hrest, heq⟩ := Language.mem_mul.mp hmem
    obtain ⟨sign, value, rfl, hsign, -⟩ := mem_ofKind_mul.mp hrest
    have hnot : sign ∉ angles := fun hmem => by simp [h sign hmem] at hsign
    rcases List.append_eq_append_iff.mp heq with ⟨c, rfl, hc⟩ | ⟨c, rfl, rfl⟩
    · rcases c with _ | ⟨t, c⟩
      · obtain rfl : sign :: value = angles := hc
        exact absurd List.mem_cons_self hnot
      · obtain ⟨rfl, -⟩ := List.cons.inj hc
        exact Language.append_mem_mul hhead (mem_ofKind_mul.mpr ⟨sign, c, rfl, hsign, trivial⟩)
    · exact absurd (List.mem_append_right c List.mem_cons_self) hnot
  · intro hmem
    obtain ⟨head, hhead, rest, hrest, rfl⟩ := Language.mem_mul.mp hmem
    obtain ⟨sign, value, rfl, hsign, -⟩ := mem_ofKind_mul.mp hrest
    rw [List.append_assoc]
    exact Language.append_mem_mul hhead
      (mem_ofKind_mul.mpr ⟨sign, value ++ angles, rfl, hsign, trivial⟩)

end Grammar

/-- Before each of its tokens a list closes at most as many angles as it opens, outside of
brackets. -/
def AnglesNest (ts : List Token) : Prop := ∀ us, us <+: ts → closedAngles us ≤ openedAngles us

/-- Angles that close and an equals sign, and one operator that takes their place. -/
structure Merges (merged : List Token) (fused : Token) : Prop where
  /-- The tokens are angles that close and equals signs. -/
  kinds : ∀ t ∈ merged, t.kind = .greater ∨ t.kind = .equal
  /-- At least one is an angle. -/
  angle : ∃ t ∈ merged, t.kind = .greater
  /-- The operator is one that means nothing to a reader. -/
  operator : fused.kind = .punctuation

namespace Merges

variable {kept merged after after' us us' : List Token} {fused : Token} {kind : Kind}
  {name : Text} {site : MarkerSite} {types : Language Token}

/-- None of the tokens has to do with brackets, and none is a semicolon or opens an angle. -/
theorem plain (h : Merges merged fused) (t : Token) (ht : t ∈ merged) :
    Scope.value.isPlain t.kind = true ∧ t.kind ≠ .semicolon ∧ t.kind ≠ .less := by
  rcases h.kinds t ht with hkind | hkind <;> rw [hkind] <;> decide

/-- The operator has to do with no bracket, and is no semicolon. -/
theorem plain_fused (h : Merges merged fused) (t : Token) (ht : t ∈ [fused]) :
    Scope.value.isPlain t.kind = true ∧ t.kind ≠ .semicolon := by
  rw [List.mem_singleton.mp ht, h.operator]
  decide

/-- Inside of brackets it does not matter whether the tokens are one operator. -/
theorem sameOutside (h : Merges merged fused) (hkept : kept ∉ (element .value)∗)
    (hts : kept ++ (merged ++ after) ∈ (element .value)∗) (hafter : Alike after after') :
    SameOutside (kept ++ (merged ++ after)) (kept ++ fused :: after') := by
  rcases mem_elements_or_encloses (fun t ht => (h.plain t ht).1) hts with ⟨hmem, -⟩ | hencloses
  · exact absurd hmem hkept
  · exact SameOutside.of_encloses (fun t ht => (h.plain t ht).1)
      (fun t ht => (h.plain_fused t ht).1) (.refl kept) hafter hencloses

/-- In a value it does not matter whether the tokens are one operator. -/
theorem outline?_eq (h : Merges merged fused) (hkept : kept ∈ (element .value)∗)
    (hvalued : kept ∈ valued) (hafter : Alike after after')
    (houtline : Shape.outline? kind (kept ++ (merged ++ after)) = some (name, site)) :
    Shape.outline? kind (kept ++ fused :: after') = some (name, site) := by
  obtain ⟨head, hhead, rest, hrest, rfl⟩ := Language.mem_mul.mp hvalued
  obtain ⟨sign, value, rfl, hsign, -⟩ := mem_ofKind_mul.mp hrest
  have hplain : Scope.value.isPlain sign.kind = true := by
    rw [hsign]
    decide
  have hvalue : value ∈ (element .value)∗ := by
    rw [← passed_never] at hkept
    have hmore := (mem_passed_of_append (closesAngles_bindingHead head hhead).1 hkept).2
    rw [passed_never] at hmore
    exact mem_elements_of_cons hplain hmore
  have hne : merged ≠ [] := by
    obtain ⟨t, ht, -⟩ := h.angle
    exact List.ne_nil_of_mem ht
  rw [List.append_assoc, List.cons_append] at houtline ⊢
  exact Shape.outline?_value hhead hsign hvalue
    (fun t ht => ⟨(h.plain t ht).1, (h.plain t ht).2.1⟩) hne h.plain_fused (by simp) hafter houtline

/-- Where angles nest, the operator leaves an angle open. -/
theorem closedAngles_lt (h : Merges merged fused) (hkept : kept ∈ (element .value)∗)
    (hnest : AnglesNest (kept ++ (merged ++ us))) (hus : Alike us us') :
    closedAngles (kept ++ fused :: us') < openedAngles (kept ++ fused :: us') := by
  have hle := hnest _ List.prefix_rfl
  have hmerged : merged ∈ (element .value)∗ := mem_elements_of_plain fun t ht => (h.plain t ht).1
  have hfused : Scope.value.isPlain fused.kind = true := (h.plain_fused fused (by simp)).1
  have hone : [fused] ∈ (element .value)∗ := mem_elements_of_plain (by simpa using hfused)
  have hopened : openedAngles merged = 0 := by
    rw [openedAngles, outside_of_plain fun t ht => (h.plain t ht).1, List.countP_eq_zero]
    exact fun t ht => by simpa using (h.plain t ht).2.2
  have hclosed : 0 < closedAngles merged := by
    rw [closedAngles, outside_of_plain fun t ht => (h.plain t ht).1, List.countP_pos_iff]
    simpa using h.angle
  have hopenedOne : openedAngles [fused] = 0 := by
    rw [(angles_singleton hfused).1, if_neg (by rw [h.operator]; decide)]
  have hclosedOne : closedAngles [fused] = 0 := by
    rw [(angles_singleton hfused).2, if_neg (by rw [h.operator]; decide)]
  obtain ⟨hopenedUs, hclosedUs⟩ := angles_of_alike hus
  rw [closedAngles_append hkept, closedAngles_append hmerged, openedAngles_append hkept,
    openedAngles_append hmerged] at hle
  rw [← List.singleton_append, closedAngles_append hkept, closedAngles_append hone,
    openedAngles_append hkept, openedAngles_append hone]
  omega

/-- Where angles nest, the operator stands in no part of a constant or static: not in the type, for
an angle is left open, and not in the value, which has not begun. -/
theorem notMem_binding (h : Merges merged fused) (hkept : kept ∈ (element .value)∗)
    (hvalued : kept ∉ valued) (hnest : AnglesNest (kept ++ (merged ++ after)))
    (hafter : Alike after after') : kept ++ fused :: after' ∉ bindingHead * bindingTail := by
  intro hmem
  obtain ⟨head, hhead, tail, htail, heq⟩ := Language.mem_mul.mp hmem
  obtain ⟨sign, rest, rfl, hsign⟩ := Shape.exists_cons_of_bindingTail htail
  have hne : sign ≠ fused := by
    rintro rfl
    simp [h.operator] at hsign
  rcases List.append_eq_append_iff.mp heq with ⟨c, rfl, hrest⟩ | ⟨c, rfl, hrest⟩
  · -- The type ends before the operator, which then stands in the value.
    rcases c with _ | ⟨t, c⟩
    · exact hne (List.cons.inj hrest).1
    · obtain ⟨rfl, rfl⟩ := List.cons.inj hrest
      rcases hsign with hequal | ⟨-, hnil⟩
      · exact hvalued (Language.append_mem_mul hhead
          (mem_ofKind_mul.mpr ⟨sign, c, rfl, hequal, trivial⟩))
      · simp at hnil
  · -- The operator stands in the type, whose angles are not closed.
    rcases c with _ | ⟨t, c⟩
    · exact hne (List.cons.inj hrest).1.symm
    · obtain ⟨rfl, rfl⟩ := List.cons.inj hrest
      have hback : Alike (c ++ sign :: rest) after := Eq.symm hafter
      obtain ⟨us, ws, rfl, hus, -⟩ := Alike.append_iff.mp hback
      have hprefix : AnglesNest (kept ++ (merged ++ us)) := fun vs hvs =>
        hnest vs (hvs.trans ⟨ws, by simp⟩)
      have hlt := h.closedAngles_lt hkept hprefix (Eq.symm hus : Alike us c)
      exact absurd (closesAngles_bindingHead _ hhead).2 (not_le.mpr hlt)

/-- Where angles nest and no value has begun, nothing is declared with the operator. -/
theorem notMem (h : Merges merged fused) (hkept : kept ∈ (element .value)∗)
    (hvalued : kept ∉ valued) (hnest : AnglesNest (kept ++ (merged ++ after)))
    (hafter : Alike after after') (types : Language Token) :
    (∀ kind, kept ++ fused :: after' ∉ declaration kind) ∧
      kept ++ fused :: after' ∉ typeAlias types ∧ kept ++ fused :: after' ∉ binding types := by
  have hlt := h.closedAngles_lt hkept hnest hafter
  have hcloses : ∀ L, ClosesAngles L → kept ++ fused :: after' ∉ L := fun L hL hmem =>
    absurd (hL _ hmem).2 (not_le.mpr hlt)
  have hbinding : ∀ types, kept ++ fused :: after' ∉ binding types := fun types hmem =>
    h.notMem_binding hkept hvalued hnest hafter (binding_le types hmem)
  refine ⟨fun kind => ?_, hcloses _ (closesAngles_typeAlias types), hbinding types⟩
  by_cases hkind : kind = .binding
  · subst hkind
    exact hbinding pointerType
  · exact hcloses _ (closesAngles_declaration hkind)

end Merges

/-! ## White space in a text -/

/-- White space between an angle that closes and an equals sign, with the trivia around it and the
tokens before and behind. -/
structure Spacing where
  /-- The tokens before the angle. -/
  before : List Token
  /-- The angle. -/
  angle : Token
  /-- The trivia between the angle and the white space. -/
  left : List Token
  /-- The white space. -/
  space : Token
  /-- The trivia between the white space and the equals sign. -/
  right : List Token
  /-- The equals sign. -/
  sign : Token
  /-- The tokens behind the equals sign. -/
  after : List Token
  angle_kind : angle.kind = .greater
  sign_kind : sign.kind = .equal
  space_kind : space.kind = .whitespace ∨ space.kind = .newline
  trivia : ∀ t ∈ left ++ right, t.isTrivia = true

namespace Spacing

/-- All of the tokens. -/
def tokens (s : Spacing) : List Token :=
  s.before ++ s.angle :: (s.left ++ s.space :: (s.right ++ s.sign :: s.after))

/-- The text without the white space. -/
def rest (s : Spacing) : Text :=
  Token.join (s.before ++ s.angle :: (s.left ++ (s.right ++ s.sign :: s.after)))

/-- The white space ends no line comment, and keeps no stray apostrophe from beginning a character
literal. -/
def IsFree (s : Spacing) : Prop :=
  s.space.lexeme.IsFree ((s.before ++ s.angle :: s.left).map Token.lexeme)

/-- Without the white space the angle and the equals sign stand side by side. -/
def Joins (s : Spacing) : Prop := s.left ++ s.right = []

/-- No angle counts at the place: it is inside of brackets, or in the value of a constant or
static. -/
def AngleFree (s : Spacing) : Prop :=
  significant s.before ∉ (element .value)∗ ∨ significant s.before ∈ valued

/-- A single blank between an angle and an equals sign, with other lexemes before and behind, in a
text of its own. -/
def blank (before after : List Lexeme) : Spacing where
  before := Lexeme.place Cursor.start before
  angle := ⟨.greater, Lexeme.after Cursor.start before, utf8 ">"⟩
  left := []
  space := ⟨.whitespace, Lexeme.after Cursor.start (before ++ [⟨.greater, utf8 ">"⟩]), utf8 " "⟩
  right := []
  sign := ⟨.equal, Lexeme.after Cursor.start
    (before ++ [⟨.greater, utf8 ">"⟩, ⟨.whitespace, utf8 " "⟩]), utf8 "="⟩
  after := Lexeme.place (Lexeme.after Cursor.start
    (before ++ [⟨.greater, utf8 ">"⟩, ⟨.whitespace, utf8 " "⟩, ⟨.equal, utf8 "="⟩])) after
  angle_kind := rfl
  sign_kind := rfl
  space_kind := .inl rfl
  trivia := by simp

variable {s : Spacing} {source : Text} {origin : Cursor}

/-- The angle carries meaning. -/
theorem angle_not_trivia (s : Spacing) : s.angle.isTrivia = false := by
  simp [Token.isTrivia, s.angle_kind, TokenKind.isTrivia]

/-- The equals sign carries meaning. -/
theorem sign_not_trivia (s : Spacing) : s.sign.isTrivia = false := by
  simp [Token.isTrivia, s.sign_kind, TokenKind.isTrivia]

/-- The significant tokens are those before the angle, the angle, the equals sign and those
behind. -/
theorem significant_tokens (s : Spacing) : significant s.tokens =
    significant s.before ++ s.angle :: s.sign :: significant s.after := by
  obtain ⟨hleft, hright⟩ := List.forall_mem_append.mp s.trivia
  have hspace : s.space.isTrivia = true := by
    rcases s.space_kind with hkind | hkind <;> simp [Token.isTrivia, hkind, TokenKind.isTrivia]
  rw [tokens, significant_append, significant_cons s.angle_not_trivia, significant_append,
    significant_of_trivia hleft, List.nil_append, significant_cons_of_isTrivia hspace,
    significant_append, significant_of_trivia hright, List.nil_append,
    significant_cons s.sign_not_trivia]

/-- Where something is left between the angle and the equals sign, the significant tokens stay as
they are. -/
theorem exists_apart (h : tokenize source origin = .ok s.tokens) (hfree : s.IsFree)
    (hjoins : ¬ s.Joins) : ∃ ts, tokenize s.rest origin = .ok ts ∧
      Alike (significant s.tokens) (significant ts) := by
  obtain ⟨hleft, hright⟩ := List.forall_mem_append.mp s.trivia
  have hlexed := (tokenize_eq_ok_iff.mp h).1
  simp only [tokens, List.map_append, List.map_cons] at hlexed
  rw [IsFree, List.map_append, List.map_cons] at hfree
  obtain ⟨trivia, htrivia, hjoin, hlexed'⟩ := hlexed.remove_of_gap s.angle_kind s.sign_kind
    (List.forall_mem_map.mpr hleft) (List.forall_mem_map.mpr hright) hfree
    (by simpa [Joins] using hjoins)
  have hrest : Lexeme.join (s.before.map Token.lexeme ++ s.angle.lexeme ::
      (trivia ++ s.sign.lexeme :: s.after.map Token.lexeme)) = s.rest := by
    simp only [rest, Token.join_eq, List.map_append, List.map_cons, Lexeme.join_append,
      Lexeme.join_cons, hjoin, List.append_assoc]
  refine ⟨_, hrest ▸ hlexed'.tokenize_join origin, ?_⟩
  have hnone : Lexeme.significant trivia = [] :=
    List.filter_eq_nil_iff.mpr fun l hl => by simp [htrivia l hl]
  have hkeep : ∀ t : Token, ∀ ls, t.isTrivia = false →
      Lexeme.significant (t.lexeme :: ls) = t.lexeme :: Lexeme.significant ls := by
    intro t ls ht
    have hpos : (!t.lexeme.isTrivia) = true := congrArg not ht
    exact List.filter_cons_of_pos hpos
  rw [Alike, map_lexeme_significant (Lexeme.place _ _), Lexeme.map_lexeme_place,
    s.significant_tokens, Lexeme.significant_append, hkeep _ _ s.angle_not_trivia,
    Lexeme.significant_append, hnone, List.nil_append, hkeep _ _ s.sign_not_trivia,
    List.map_append, List.map_cons, List.map_cons, map_lexeme_significant, map_lexeme_significant]

/-- Where nothing is left between them, the lexer takes the angle and the equals sign for one
operator, together with an angle in front of them. -/
theorem exists_fused (h : tokenize source origin = .ok s.tokens) (hfree : s.IsFree)
    (hjoins : s.Joins) : ∃ kept extra fused after, s.before = kept ++ extra ∧
      (∀ t ∈ extra, t.kind = .greater) ∧ fused.kind = .punctuation ∧ Alike s.after after ∧
      tokenize s.rest origin = .ok (kept ++ fused :: after) := by
  obtain ⟨hleft, hright⟩ := List.append_eq_nil_iff.mp hjoins
  obtain ⟨hlexed, -, hplace⟩ := tokenize_eq_ok_iff.mp h
  simp only [tokens, hleft, hright, List.nil_append, List.map_append, List.map_cons] at hlexed
  rw [IsFree, hleft, List.map_append, List.map_singleton] at hfree
  have hspace : s.space.lexeme.isTrivia = true := by
    rcases s.space_kind with hkind | hkind <;>
      simp [Lexeme.isTrivia, Token.lexeme, hkind, TokenKind.isTrivia]
  obtain ⟨us, fused, hfused, hlexed', hjoin, hus⟩ :=
    hlexed.fuse s.angle_kind s.sign_kind hfree hspace
  obtain ⟨kept, extra, hbefore, rfl, hextra⟩ : ∃ kept extra, s.before = kept ++ extra ∧
      kept.map Token.lexeme = us ∧ ∀ t ∈ extra, t.kind = .greater := by
    rcases hus with rfl | ⟨g, hg, heq⟩
    · exact ⟨s.before, [], (List.append_nil _).symm, rfl, by simp⟩
    · obtain ⟨kept, extra, hbefore, hkept, hextra⟩ := List.map_eq_append_iff.mp heq
      obtain ⟨t, rfl, ht⟩ := List.map_eq_singleton_iff.mp hextra
      have hkind : t.kind = .greater := (congrArg Lexeme.kind ht).trans hg
      exact ⟨kept, [t], hbefore, hkept, by simpa using hkind⟩
  have hrest : Lexeme.join (kept.map Token.lexeme ++ fused :: s.after.map Token.lexeme) =
      s.rest := by
    rw [Lexeme.join_append, Lexeme.join_cons, ← List.append_assoc, hjoin]
    simp [rest, hleft, hright, Token.join_eq, Lexeme.join_append, Lexeme.join_cons, Token.lexeme]
  have htokens := hlexed'.tokenize_join origin
  have hkept : Lexeme.place origin (kept.map Token.lexeme) = kept := by
    rw [tokens, hbefore, List.append_assoc] at hplace
    exact (place_append_inj hplace).1
  rw [hrest, Lexeme.place_append, hkept] at htokens
  exact ⟨kept, extra, _, _, hbefore, hextra, hfused, (Lexeme.map_lexeme_place _ _).symm, htokens⟩

/-- Among the significant tokens, the angle and the equals sign then become one operator, together
with angles in front of them. -/
theorem exists_merges (h : tokenize source origin = .ok s.tokens) (hfree : s.IsFree)
    (hjoins : s.Joins) : ∃ ts kept merged fused after after', tokenize s.rest origin = .ok ts ∧
      significant s.tokens = kept ++ (merged ++ after) ∧ significant ts = kept ++ fused :: after' ∧
      Merges merged fused ∧ Alike after after' ∧
      (s.AngleFree ↔ kept ∉ (element .value)∗ ∨ kept ∈ valued) := by
  obtain ⟨kept, extra, fused, after, hbefore, hextra, hfused, hafter, hts⟩ :=
    s.exists_fused h hfree hjoins
  have hsignificant : significant s.before = significant kept ++ extra := by
    rw [hbefore, significant_append]
    congr 1
    exact List.filter_eq_self.mpr fun t ht => by
      simp [Token.isTrivia, hextra t ht, TokenKind.isTrivia]
  have hmerges : Merges (extra ++ [s.angle, s.sign]) fused := by
    refine ⟨fun t ht => ?_, ⟨s.angle, by simp, s.angle_kind⟩, hfused⟩
    rcases List.mem_append.mp ht with ht | ht
    · exact .inl (hextra t ht)
    · rcases List.mem_pair.mp ht with rfl | rfl
      · exact .inl s.angle_kind
      · exact .inr s.sign_kind
  have hfusedTrivia : fused.isTrivia = false := by
    simp [Token.isTrivia, hfused, TokenKind.isTrivia]
  refine ⟨_, significant kept, _, fused, significant s.after, significant after, hts, ?_, ?_,
    hmerges, ?_, ?_⟩
  · rw [s.significant_tokens, hsignificant]
    simp
  · rw [significant_append, significant_cons hfusedTrivia]
  · rw [Alike, map_lexeme_significant, map_lexeme_significant, hafter]
  · rw [AngleFree, hsignificant, append_mem_elements_iff hextra, append_mem_valued_iff hextra]

end Spacing

namespace Declaration

section Rest

variable {s : Spacing} {source : Text} {origin : Cursor} {d : Declaration}

/-- A declaration of which the same name and marker are found in other tokens is read there. -/
theorem exists_classify_of_outline? {source' : Text} {ts ts' : List Token}
    (h : tokenize source origin = .ok ts) (h' : tokenize source' origin = .ok ts')
    (hd : classify source origin = .ok d)
    (hread : ∀ kind name site, Shape.outline? kind (significant ts) = some (name, site) →
      ∃ site', Shape.outline? kind (significant ts') = some (name, site') ∧
        site'.marker = site.marker) :
    ∃ d', classify source' origin = .ok d' ∧ d'.kind = d.kind ∧ d'.name = d.name ∧
      d'.marker = d.marker := by
  obtain ⟨site', hsite', hmarker⟩ := hread _ _ _ (outline?_of_classify h hd).1
  obtain ⟨shape, hshape, hkind, hname, rfl⟩ := Shape.read?_of_outline? h' hsite'
  exact ⟨⟨source', origin, shape⟩, classify_of_read? h' hshape, hkind, hname, hmarker⟩

/-- The tokens of a declaration are balanced. -/
theorem mem_elements_of_classify {ts : List Token} (h : tokenize source origin = .ok ts)
    (hd : classify source origin = .ok d) : significant ts ∈ (element .value)∗ := by
  have hmem : significant ts ∈ declaration d.kind :=
    (Shape.exists_outline?_iff d.kind).mp ⟨_, (outline?_of_classify h hd).1⟩
  by_cases hkind : d.kind = .binding
  · rw [hkind] at hmem
    obtain ⟨head, hhead, tail, htail, heq⟩ := Language.mem_mul.mp (binding_le pointerType hmem)
    rw [← heq]
    exact append_mem_kstar (closesAngles_bindingHead head hhead).1
      (mem_elements_of_bindingTail htail)
  · exact (closesAngles_declaration hkind _ hmem).1

/-- White space between an angle that closes and an equals sign behind it is taken out of a
declaration. If a comment or other white space is left there, or no angle counts at the place, the
rest is read as a declaration of the same kind with the same name and the same marker. Otherwise the
two become one operator. Then the angle is closed no more, and the rest is no declaration, unless
more angles are closed than opened somewhere in it. -/
theorem classify_rest (h : tokenize source origin = .ok s.tokens)
    (hd : classify source origin = .ok d) (hfree : s.IsFree) :
    (¬ s.Joins ∨ s.AngleFree → ∃ d', classify s.rest origin = .ok d' ∧ d'.kind = d.kind ∧
      d'.name = d.name ∧ d'.marker = d.marker) ∧
    (s.Joins → ¬ s.AngleFree → AnglesNest (significant s.tokens) →
      classify s.rest origin = .error (.unsupportedItem origin)) := by
  by_cases hjoins : s.Joins
  · obtain ⟨ts, kept, merged, fused, after, after', hts, hold, hnew, hmerges, hafter, hangleFree⟩ :=
      s.exists_merges h hfree hjoins
    have helements := mem_elements_of_classify h hd
    rw [hold] at helements
    rw [hangleFree]
    refine ⟨fun hplace => ?_, fun _ hplace hnest => ?_⟩
    · refine exists_classify_of_outline? h hts hd fun kind name site houtline => ?_
      rw [hold] at houtline
      rw [hnew]
      by_cases hkept : kept ∈ (element .value)∗
      · have hvalued : kept ∈ valued := by
          rcases hplace with hnot | hnot | hvalued
          · exact absurd hjoins hnot
          · exact absurd hkept hnot
          · exact hvalued
        exact ⟨site, hmerges.outline?_eq hkept hvalued hafter houtline, rfl⟩
      · exact Shape.exists_outline? likeness_sameOutside houtline
          (hmerges.sameOutside hkept helements hafter)
    · obtain ⟨hkept, hvalued⟩ := not_or.mp hplace
      rw [hold] at hnest
      refine classify_of_forall_notMem hts ?_
      rw [hnew]
      exact hmerges.notMem (not_not.mp hkept) hvalued hnest hafter pointerTypeᶜ
  · obtain ⟨ts, hts, halike⟩ := s.exists_apart h hfree hjoins
    refine ⟨fun _ => exists_classify_of_outline? h hts hd fun _ _ _ houtline =>
      Shape.exists_outline? likeness_alike houtline halike, fun hjoins' => absurd hjoins' hjoins⟩

end Rest

/-- The space behind a return type cannot be taken out before the value of a constant, where the
angle is closed no more, but it can in the body of a function. -/
theorem classify_rest_return :
    (∃ (s : Spacing) (d : Declaration),
      tokenize (utf8 "const X: fn() -> V<T> = v;") Cursor.start = .ok s.tokens ∧
      classify (utf8 "const X: fn() -> V<T> = v;") Cursor.start = .ok d ∧ s.IsFree ∧ s.Joins ∧
      ¬ s.AngleFree ∧ AnglesNest (significant s.tokens) ∧
      classify s.rest Cursor.start = .error (.unsupportedItem Cursor.start)) ∧
    ∃ (s : Spacing) (d d' : Declaration),
      tokenize (utf8 "fn f() \x7b let v: V<T> = x; \x7d") Cursor.start = .ok s.tokens ∧
      classify (utf8 "fn f() \x7b let v: V<T> = x; \x7d") Cursor.start = .ok d ∧ s.IsFree ∧
      s.AngleFree ∧ classify s.rest Cursor.start = .ok d' ∧ d'.kind = d.kind ∧ d'.name = d.name ∧
      d'.marker = d.marker := by
  constructor
  · let s : Spacing := .blank
      [⟨.identifier, utf8 "const"⟩, ⟨.whitespace, utf8 " "⟩, ⟨.identifier, utf8 "X"⟩,
        ⟨.colon, utf8 ":"⟩, ⟨.whitespace, utf8 " "⟩, ⟨.identifier, utf8 "fn"⟩,
        ⟨.parenLeft, utf8 "("⟩, ⟨.parenRight, utf8 ")"⟩, ⟨.whitespace, utf8 " "⟩,
        ⟨.arrow, utf8 "->"⟩, ⟨.whitespace, utf8 " "⟩, ⟨.identifier, utf8 "V"⟩,
        ⟨.less, utf8 "<"⟩, ⟨.identifier, utf8 "T"⟩]
      [⟨.whitespace, utf8 " "⟩, ⟨.identifier, utf8 "v"⟩, ⟨.semicolon, utf8 ";"⟩]
    have htokens : tokenize (utf8 "const X: fn() -> V<T> = v;") Cursor.start = .ok s.tokens := by
      decide +kernel
    let d : Declaration := ⟨utf8 "const X: fn() -> V<T> = v;", Cursor.start,
      .binding (utf8 "X") (.absent ⟨.identifier, ⟨1, 10, 9⟩, utf8 "fn"⟩)⟩
    have hd : classify (utf8 "const X: fn() -> V<T> = v;") Cursor.start = .ok d := by
      decide +kernel
    have helements : significant s.before ∈ (element .value)∗ := by
      rw [← passed_never, mem_passed_iff]
      decide +kernel
    have hvalued : significant s.before ∉ valued := by
      -- No equals sign stands before the angle.
      intro hmem
      obtain ⟨head, -, rest, hrest, heq⟩ := Language.mem_mul.mp hmem
      obtain ⟨sign, value, rfl, hsign, -⟩ := mem_ofKind_mul.mp hrest
      have hnone : ∀ t ∈ significant s.before, t.kind ≠ .equal := by decide +kernel
      exact hnone sign (heq ▸ by simp) hsign
    have hnest : AnglesNest (significant s.tokens) := by
      have hinits : ∀ us ∈ (significant s.tokens).inits, closedAngles us ≤ openedAngles us := by
        decide +kernel
      exact fun us hus => hinits us (List.mem_inits _ _ |>.mpr hus)
    have hangles : ¬ s.AngleFree := not_or.mpr ⟨not_not.mpr helements, hvalued⟩
    exact ⟨s, d, htokens, hd, .inl rfl, rfl, hangles, hnest,
      (classify_rest htokens hd (.inl rfl)).2 rfl hangles hnest⟩
  · let s : Spacing := .blank
      [⟨.identifier, utf8 "fn"⟩, ⟨.whitespace, utf8 " "⟩, ⟨.identifier, utf8 "f"⟩,
        ⟨.parenLeft, utf8 "("⟩, ⟨.parenRight, utf8 ")"⟩, ⟨.whitespace, utf8 " "⟩,
        ⟨.braceLeft, utf8 "\x7b"⟩, ⟨.whitespace, utf8 " "⟩, ⟨.identifier, utf8 "let"⟩,
        ⟨.whitespace, utf8 " "⟩, ⟨.identifier, utf8 "v"⟩, ⟨.colon, utf8 ":"⟩,
        ⟨.whitespace, utf8 " "⟩, ⟨.identifier, utf8 "V"⟩, ⟨.less, utf8 "<"⟩,
        ⟨.identifier, utf8 "T"⟩]
      [⟨.whitespace, utf8 " "⟩, ⟨.identifier, utf8 "x"⟩, ⟨.semicolon, utf8 ";"⟩,
        ⟨.whitespace, utf8 " "⟩, ⟨.braceRight, utf8 "\x7d"⟩]
    have htokens : tokenize (utf8 "fn f() \x7b let v: V<T> = x; \x7d") Cursor.start =
        .ok s.tokens := by
      decide +kernel
    let d : Declaration := ⟨utf8 "fn f() \x7b let v: V<T> = x; \x7d", Cursor.start,
      .function (utf8 "f") (.absent ⟨.identifier, Cursor.start, utf8 "fn"⟩)⟩
    have hd : classify (utf8 "fn f() \x7b let v: V<T> = x; \x7d") Cursor.start = .ok d := by
      decide +kernel
    have hangles : s.AngleFree := by
      left
      rw [← passed_never, mem_passed_iff]
      decide +kernel
    obtain ⟨d', hd', hsame⟩ := (classify_rest htokens hd (.inl rfl)).1 (.inr hangles)
    exact ⟨s, d, d', htokens, hd, .inl rfl, hangles, hd', hsame⟩

/-- White space between an angle that closes and an equals sign is not of no importance: without the
space behind its parameter, an alias of a function pointer type is no declaration. -/
theorem classify_rest_alias :
    ¬ ∀ (s : Spacing) (source : Text) (origin : Cursor) (d : Declaration),
      tokenize source origin = .ok s.tokens → classify source origin = .ok d →
        ∃ d', classify s.rest origin = .ok d' ∧ d'.kind = d.kind ∧ d'.name = d.name ∧
          d'.marker = d.marker := by
  intro hall
  let s : Spacing := .blank
    [⟨.identifier, utf8 "type"⟩, ⟨.whitespace, utf8 " "⟩, ⟨.identifier, utf8 "F"⟩,
      ⟨.less, utf8 "<"⟩, ⟨.identifier, utf8 "T"⟩]
    [⟨.whitespace, utf8 " "⟩, ⟨.identifier, utf8 "fn"⟩, ⟨.parenLeft, utf8 "("⟩,
      ⟨.identifier, utf8 "T"⟩, ⟨.parenRight, utf8 ")"⟩, ⟨.semicolon, utf8 ";"⟩]
  have htokens : tokenize (utf8 "type F<T> = fn(T);") Cursor.start = .ok s.tokens := by
    decide +kernel
  have hd : classify (utf8 "type F<T> = fn(T);") Cursor.start =
      .ok ⟨utf8 "type F<T> = fn(T);", Cursor.start, .typeAlias (utf8 "F")
        ⟨utf8 "fn(T)", ⟨1, 13, 12⟩, .absent ⟨.identifier, ⟨1, 13, 12⟩, utf8 "fn"⟩⟩⟩ := by
    decide +kernel
  have hrest : classify s.rest Cursor.start = .error (.unsupportedItem Cursor.start) := by
    decide +kernel
  obtain ⟨d', hd', -⟩ := hall s _ _ _ htokens hd
  simp [hrest] at hd'

end Declaration

end CallConv
