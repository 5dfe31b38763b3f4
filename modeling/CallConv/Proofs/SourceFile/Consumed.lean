import Mathlib
import CallConv.Proofs.SourceFile.Enclosed
import CallConv.Proofs.SourceFile.Located

/-!
# Which attributes are consumed

An attribute that is expanded goes away, so its tokens should be those of a well-formed one: a hash
and a bracket, the path, and arguments without any bracket in parentheses, with a bracket behind
them. The search does not check all of that. It counts the depth of brackets without their kinds, so
that any closing bracket ends the arguments, and it reads a separator at the end of the path along
with the path. `Lexeme.Shaped` states what is left of the shape, and `expandSource_consumes` that
attributes of these shapes are consumed and all others are reported. The well-formed ones are those
with no separator and a parenthesis.
-/

namespace CallConv

namespace Lexeme

/-- The lexemes of a path: segments with separators between them. -/
inductive PathOf : List Text → List Lexeme → Prop
  | single {l : Lexeme} (hkind : l.kind = .identifier) : PathOf [l.content] [l]
  | cons {l separator : Lexeme} {segments : List Text} {ls : List Lexeme}
      (hkind : l.kind = .identifier) (hseparator : separator.kind = .pathSeparator)
      (hsegments : PathOf segments ls) : PathOf (l.content :: segments) (l :: separator :: ls)

/-- Whether a lexeme is a bracket of any kind. -/
def isBracket (l : Lexeme) : Bool := l.kind.closing?.isSome || l.kind.isClosing

/-- Whether a lexeme can stand in a path. -/
def isPathPart (l : Lexeme) : Bool := l.kind == .identifier || l.kind == .pathSeparator

/-- The significant lexemes of an attribute as it is consumed: a hash, a bracket, a path of the
attribute, which a separator may follow, arguments without any bracket between a parenthesis and a
bracket of some kind, and a bracket. -/
def Shaped (separated : Bool) (closer : TokenKind) (ls : List Lexeme) : Prop :=
  ∃ hash bracket path separators paren arguments close last,
    ls = hash :: bracket :: (path ++ separators ++ paren :: arguments ++ [close, last]) ∧
      hash.kind = .hash ∧ bracket.kind = .bracketLeft ∧
      (∃ segments, Attribute.isKnown segments = true ∧ PathOf segments path) ∧
      separators.map kind = List.replicate separated.toNat .pathSeparator ∧
      paren.kind = .parenLeft ∧ (∀ l ∈ arguments, l.isBracket = false) ∧ close.kind = closer ∧
      last.kind = .bracketRight

/-- The significant lexemes of a well-formed attribute: nothing follows the path, and a parenthesis
closes the arguments. -/
def WellFormed (ls : List Lexeme) : Prop := Shaped false .parenRight ls

section Shaped

variable {segments : List Text} {ls ls' more more' : List Lexeme} {separated separated' : Bool}
  {closer closer' : TokenKind}

/-- A path has a separator less than segments. -/
theorem PathOf.length_odd (h : PathOf segments ls) : ls.length % 2 = 1 := by
  induction h with
  | single => rfl
  | cons _ _ _ ih =>
    simp only [List.length_cons]
    omega

/-- Every lexeme of a path can stand in one. -/
theorem PathOf.isPathPart (h : PathOf segments ls) : ∀ l ∈ ls, l.isPathPart = true := by
  induction h with
  | single hkind => simp [Lexeme.isPathPart, hkind]
  | cons hkind hseparator _ ih => simpa [Lexeme.isPathPart, hkind, hseparator] using ih

/-- The path of an attribute and what separates it from the arguments are the first lexemes behind
its bracket that can stand in a path. -/
theorem PathOf.takeWhile_eq {separators : List Lexeme} {paren : Lexeme} (hpath : PathOf segments ls)
    (hseparators : separators.map kind = List.replicate separated.toNat .pathSeparator)
    (hparen : paren.kind = .parenLeft) (behind : List Lexeme) :
    (ls ++ separators ++ paren :: behind).takeWhile Lexeme.isPathPart = ls ++ separators := by
  have hpart : ∀ l ∈ ls ++ separators, l.isPathPart = true := by
    intro l hl
    rcases List.mem_append.mp hl with hl | hl
    · exact hpath.isPathPart l hl
    · have hkind := List.mem_map_of_mem (f := kind) hl
      rw [hseparators] at hkind
      simp [Lexeme.isPathPart, (List.mem_replicate.mp hkind).2]
  have hstop : ¬ paren.isPathPart = true := by simp [Lexeme.isPathPart, hparen]
  rw [List.takeWhile_append_of_pos hpart, List.takeWhile_cons_of_neg hstop, List.append_nil]

/-- The arguments of an attribute are what stands before the first bracket. -/
theorem takeWhile_arguments {arguments : List Lexeme} {close : Lexeme}
    (harguments : ∀ l ∈ arguments, l.isBracket = false) (hclose : close.kind.isClosing = true)
    (behind : List Lexeme) :
    (arguments ++ close :: behind).takeWhile (fun l => !l.isBracket) = arguments := by
  have hplain : ∀ l ∈ arguments, (!l.isBracket) = true := fun l hl => by simp [harguments l hl]
  have hstop : ¬ (!close.isBracket) = true := by simp [isBracket, hclose]
  rw [List.takeWhile_append_of_pos hplain,
    List.takeWhile_cons_of_neg (p := fun l : Lexeme => !l.isBracket) hstop, List.append_nil]

/-- Lexemes begin with an attribute of one shape at most. -/
theorem Shaped.unique (h : Shaped separated closer ls) (h' : Shaped separated' closer' ls')
    (hclosing : closer.isClosing = true) (hclosing' : closer'.isClosing = true)
    (heq : ls ++ more = ls' ++ more') : separated = separated' ∧ closer = closer' := by
  obtain ⟨hash, bracket, path, separators, paren, arguments, close, last, rfl, -, -,
    ⟨segments, -, hpath⟩, hseparators, hparen, harguments, rfl, -⟩ := h
  obtain ⟨hash', bracket', path', separators', paren', arguments', close', last', rfl, -, -,
    ⟨segments', -, hpath'⟩, hseparators', hparen', harguments', rfl, -⟩ := h'
  have hrest : path ++ separators ++ paren :: (arguments ++ close :: last :: more) =
      path' ++ separators' ++ paren' :: (arguments' ++ close' :: last' :: more') := by
    simp only [List.cons_append, List.append_assoc, List.cons.injEq] at heq ⊢
    simpa using heq.2.2
  have hfront : path ++ separators = path' ++ separators' := by
    rw [← hpath.takeWhile_eq hseparators hparen, hrest, hpath'.takeWhile_eq hseparators' hparen']
  rw [hfront] at hrest
  obtain ⟨-, hbehind⟩ := List.cons.inj (List.append_cancel_left hrest)
  constructor
  · -- A path has an odd number of lexemes, so that the parity of both together decides.
    have hlength := congrArg List.length hfront
    have hodd := hpath.length_odd
    have hodd' := hpath'.length_odd
    have hcount := congrArg List.length hseparators
    have hcount' := congrArg List.length hseparators'
    have hone := separated.toNat_le
    have hone' := separated'.toNat_le
    rw [List.length_append, List.length_append] at hlength
    rw [List.length_map, List.length_replicate] at hcount hcount'
    have hsame : separated.toNat = separated'.toNat := by omega
    cases separated <;> cases separated' <;> first | rfl | simp at hsame
  · have hsame : arguments = arguments' := by
      rw [← takeWhile_arguments harguments hclosing, hbehind,
        takeWhile_arguments harguments' hclosing']
    rw [hsame] at hbehind
    rw [(List.cons.inj (List.append_cancel_left hbehind)).1]

/-- An attribute of some shape is well-formed exactly if no separator ends its path and a
parenthesis closes its arguments. -/
theorem Shaped.wellFormed_iff (h : Shaped separated closer ls)
    (hclosing : closer.isClosing = true) :
    WellFormed ls ↔ separated = false ∧ closer = .parenRight := by
  constructor
  · have heq : ls ++ [] = ls ++ [] := rfl
    exact fun hformed => h.unique hformed hclosing rfl heq
  · rintro ⟨rfl, rfl⟩
    exact h

end Shaped

end Lexeme

/-- The tokens of a directive hold no bracket. -/
theorem Directive.Grammar.isBracket {ts : List Token} {d : Directive} (h : Grammar ts d) :
    ∀ t ∈ ts, t.lexeme.isBracket = false := by
  have hname {t : Token} (h : IsName t) : t.lexeme.isBracket = false := by
    rcases h.1 with hkind | hkind <;> simp [Lexeme.isBracket, Token.lexeme, hkind] <;> decide
  have hshortcut {t : Token} (h : IsShortcut t) : t.lexeme.isBracket = false := by
    rcases h.1 with hkind | hkind <;> simp [Lexeme.isBracket, Token.lexeme, hkind] <;> decide
  have hmark {t : Token} (h : t.kind = .equal ∨ t.kind = .comma) : t.lexeme.isBracket = false := by
    rcases h with hkind | hkind <;> simp [Lexeme.isBracket, Token.lexeme, hkind] <;> decide
  cases h with
  | direct h => simpa using hname h
  | @table ts entries hentries =>
    induction hentries with
    | last hkind hsign hliteral =>
      simpa using ⟨hshortcut hkind, hmark (.inl hsign), hname hliteral⟩
    | more hkind hsign hliteral hcomma _ ih =>
      simpa using ⟨hshortcut hkind, hmark (.inl hsign), hname hliteral, hmark (.inr hcomma), ih⟩

namespace Attribute

/-- The lexemes of a path as it is read are the path, and a separator behind it if one ends it. -/
theorem Segmented.exists_meaning {segments : List Text} {ts : List Token}
    (h : Segmented segments ts) (hne : segments ≠ []) :
    ∃ (separated : Bool) (path separators : List Lexeme), meaning ts = path ++ separators ∧
      Lexeme.PathOf segments path ∧
      separators.map Lexeme.kind = List.replicate separated.toNat .pathSeparator := by
  have hsignificant {t : Token} (h : t.kind = .identifier ∨ t.kind = .pathSeparator) :
      t.isTrivia = false := by
    rcases h with hkind | hkind <;> rw [Token.isTrivia, hkind] <;> rfl
  induction h with
  | nil => exact absurd rfl hne
  | @last trivia t htrivia hkind =>
    refine ⟨false, [t.lexeme], [], ?_, Lexeme.PathOf.single (l := t.lexeme) hkind, rfl⟩
    rw [meaning_append, meaning_of_trivia htrivia, meaning_cons (hsignificant (.inl hkind))]
    rfl
  | @more trivia trivia' ts t separator segments htrivia hkind htrivia' hseparator hsegments ih =>
    have hmeaning : meaning (trivia ++ t :: trivia' ++ separator :: ts) =
        t.lexeme :: separator.lexeme :: meaning ts := by
      rw [meaning_append, meaning_append, meaning_of_trivia htrivia,
        meaning_cons (hsignificant (.inl hkind)), meaning_of_trivia htrivia',
        meaning_cons (hsignificant (.inr hseparator))]
      rfl
    by_cases hsegments' : segments = []
    · -- Nothing follows the separator, which ends the path.
      subst hsegments'
      cases hsegments with
      | nil hrest =>
        refine ⟨true, [t.lexeme], [separator.lexeme], ?_,
          Lexeme.PathOf.single (l := t.lexeme) hkind, ?_⟩
        · rw [hmeaning, meaning_of_trivia hrest]
          rfl
        · simp [Token.lexeme, hseparator]
    · obtain ⟨separated, path, separators, hpath, hof, hseparators⟩ := ih hsegments'
      refine ⟨separated, t.lexeme :: separator.lexeme :: path, separators, ?_,
        Lexeme.PathOf.cons (l := t.lexeme) hkind hseparator hof, hseparators⟩
      rw [hmeaning, hpath]
      rfl

/-- An attribute whose arguments hold no bracket has one of the shapes. -/
theorem Spelling.Spells.shaped {s : Spelling} {a : AnnotatedItem} (h : s.Spells a)
    (harguments : ∀ t ∈ significant a.arguments, t.lexeme.isBracket = false) :
    ∃ separated, Lexeme.Shaped separated s.close.kind (meaning (s.tokens a.arguments)) := by
  obtain ⟨segments, hsegments, hpath⟩ := h.path
  have hne : segments ≠ [] := by
    rintro rfl
    exact absurd hsegments (by decide)
  obtain ⟨separated, path, separators, hmeaning, hof, hseparators⟩ := hpath.exists_meaning hne
  have hsignificant {t : Token} {kind : TokenKind} (hkind : t.kind = kind)
      (htrivia : kind.isTrivia = false) : t.isTrivia = false := by
    rw [Token.isTrivia, hkind, htrivia]
  have hclose : s.close.kind.isTrivia = false := by
    have hclosing := h.ends.close
    generalize s.close.kind = kind at hclosing ⊢
    cases kind <;> first | rfl | simp [TokenKind.isClosing] at hclosing
  refine ⟨separated, s.hash.lexeme, s.bracket.lexeme, path, separators, s.paren.lexeme,
    meaning a.arguments, s.close.lexeme, s.last.lexeme, ?_, h.hash, h.bracket,
    ⟨segments, hsegments, hof⟩, hseparators, h.ends.paren, ?_, rfl, h.ends.last⟩
  · simp only [Spelling.tokens, Ending.tokens, meaning_append, meaning_of_trivia h.afterHash,
      meaning_of_trivia h.ends.afterPath, meaning_of_trivia h.ends.afterClose, hmeaning,
      meaning_cons (hsignificant h.hash rfl), meaning_cons (hsignificant h.bracket rfl),
      meaning_cons (hsignificant h.ends.paren rfl), meaning_cons (hsignificant rfl hclose),
      meaning_cons (hsignificant h.ends.last rfl)]
    simp [meaning, Lexeme.significant]
  · rw [meaning, ← map_lexeme_significant]
    simpa using harguments

/-! ## The search finds every attribute that is spelled as one -/

section Trivia

variable {trivia ts rest : List Token} {t : Token}

theorem dropTrivia_append_of_isTrivia (h : ∀ t ∈ trivia, t.isTrivia = true) :
    dropTrivia (trivia ++ ts) = dropTrivia ts := List.dropWhile_append_of_pos h

theorem dropTrivia_cons_of_kind {kind : TokenKind} (hkind : t.kind = kind)
    (htrivia : kind.isTrivia = false) : dropTrivia (t :: ts) = t :: ts := by
  refine List.dropWhile_cons_of_neg ?_
  rw [Token.isTrivia, hkind, htrivia]
  exact Bool.false_ne_true

end Trivia

/-- The tokens of a path are read as the path in front of a token that cannot go on with it. -/
theorem Segmented.readPath {segments : List Text} {path rest behind : List Token} {t : Token}
    (h : Segmented segments path) (hrest : dropTrivia rest = t :: behind)
    (hidentifier : t.kind ≠ .identifier) (hseparator : t.kind ≠ .pathSeparator) :
    (readPath (path ++ rest)).1 = segments ∧
      dropTrivia (readPath (path ++ rest)).2 = t :: behind := by
  induction h with
  | nil htrivia =>
    rw [readPath_eq, dropTrivia_append_of_isTrivia htrivia, hrest]
    simp only [if_neg hidentifier, true_and]
    rw [← hrest, dropTrivia_dropTrivia]
  | @last trivia u htrivia hkind =>
    rw [readPath_eq, List.append_assoc, dropTrivia_append_of_isTrivia htrivia,
      List.singleton_append, dropTrivia_cons_of_kind hkind rfl]
    simp only [if_pos hkind, hrest, if_neg hseparator, true_and]
  | @more trivia trivia' ts u separator segments htrivia hkind htrivia' hsep _ ih =>
    have hsplit : trivia ++ u :: trivia' ++ separator :: ts ++ rest =
        trivia ++ (u :: (trivia' ++ (separator :: (ts ++ rest)))) := by simp
    rw [readPath_eq, hsplit, dropTrivia_append_of_isTrivia htrivia,
      dropTrivia_cons_of_kind hkind rfl]
    simp only [if_pos hkind, dropTrivia_append_of_isTrivia htrivia',
      dropTrivia_cons_of_kind hsep rfl, if_pos hsep]
    exact ⟨by rw [ih.1], ih.2⟩

/-- Behind the path of an attribute the rest of it is found as it is spelled. -/
theorem Ending.Ends.finish_eq_found {e : Ending} {a : AnnotatedItem} {ts blanks rest : List Token}
    (h : e.Ends a) (hfollowed : Followed blanks a.item rest)
    (hts : dropTrivia ts = e.paren :: (a.arguments ++ [e.close] ++
      (e.afterClose ++ e.last :: (blanks ++ (a.item ++ rest))))) :
    Attribute.finish a.location ts = .found a rest := by
  have hdepth := skipDepth?_append h.depth (e.afterClose ++ e.last :: (blanks ++ (a.item ++ rest)))
  have hlast : dropTrivia (e.afterClose ++ e.last :: (blanks ++ (a.item ++ rest))) =
      e.last :: (blanks ++ (a.item ++ rest)) := by
    rw [dropTrivia_append_of_isTrivia h.afterClose, dropTrivia_cons_of_kind h.last rfl]
  have hitem : (blanks ++ (a.item ++ rest)).dropWhile Token.isBlank = a.item ++ rest := by
    obtain ⟨t, ht, -⟩ := hfollowed.last
    rw [List.dropWhile_append_of_pos hfollowed.blank]
    obtain ⟨first, more, hfirst⟩ : ∃ first more, a.item = first :: more := by
      cases hcases : a.item with
      | nil => simp [hcases] at ht
      | cons first more => exact ⟨first, more, rfl⟩
    have hblank := hfollowed.head first (by rw [hfirst]; rfl)
    rw [hfirst, List.cons_append, List.dropWhile_cons_of_neg (by simp [hblank])]
  unfold Attribute.finish
  simp only [hts, if_pos h.paren, hdepth, List.nil_append, hlast, if_pos h.last, hitem,
    hfollowed.ends, before_append, List.dropLast_concat, List.getLast?_concat, Option.map_some,
    Option.getD_some, h.finish]

/-- The search finds exactly the attributes that are spelled as one and that an item follows. -/
theorem search_eq_found_iff {ts rest : List Token} {a : AnnotatedItem} :
    search ts = .found a rest ↔
      ∃ (s : Spelling) (blanks : List Token),
        dropTrivia ts = s.tokens a.arguments ++ blanks ++ a.item ++ rest ∧ s.Spells a ∧
          Followed blanks a.item rest := by
  refine ⟨search_spells, ?_⟩
  rintro ⟨s, blanks, hdrop, h, hfollowed⟩
  obtain ⟨segments, hsegments, hpath⟩ := h.path
  let behind : List Token := a.arguments ++ [s.close] ++
    (s.afterClose ++ s.last :: (blanks ++ (a.item ++ rest)))
  have hbehind : dropTrivia (s.afterPath ++ s.paren :: behind) = s.paren :: behind := by
    rw [dropTrivia_append_of_isTrivia h.ends.afterPath, dropTrivia_cons_of_kind h.ends.paren rfl]
  obtain ⟨hread, hafter⟩ := hpath.readPath hbehind (by simp [h.ends.paren])
    (by simp [h.ends.paren])
  have hhash : dropTrivia ts = s.hash :: (s.afterHash ++
      (s.bracket :: (s.path ++ (s.afterPath ++ s.paren :: behind)))) := by
    rw [hdrop]
    simp [Spelling.tokens, Ending.tokens, behind]
  unfold search
  simp only [hhash, if_pos h.hash, dropTrivia_append_of_isTrivia h.afterHash,
    dropTrivia_cons_of_kind h.bracket rfl, if_pos h.bracket, hread, if_pos hsegments, h.location]
  exact h.ends.finish_eq_found hfollowed hafter

/-! ## Attributes that are consumed and attributes that are reported -/

/-- The points that the search through some tokens comes to, each given by the tokens from it on. -/
inductive Visits (ts : List Token) : List Token → Prop
  | start : Visits ts ts
  | next {us rest : List Token} (h : Visits ts us) (hrest : (search us).rest? = some rest) :
      Visits ts rest

/-- The search through what is left comes to some of the points of the whole search. -/
theorem Visits.of_rest {ts us rest : List Token} (hrest : (search ts).rest? = some rest)
    (h : Visits rest us) : Visits ts us := by
  induction h with
  | start => exact .next .start hrest
  | next _ hrest' ih => exact .next ih hrest'

end Attribute

/-- At some point of a file stands an attribute, of which an item comes out: the attribute goes away
with the white space behind it. -/
def Consumes (target : Target) (us attr : List Token) (r : ExpandedItem) : Prop :=
  ∃ (a : AnnotatedItem) (s : Attribute.Spelling) (blanks rest : List Token) (text : Text),
    attr = s.tokens a.arguments ∧ dropTrivia us = attr ++ blanks ++ a.item ++ rest ∧ s.Spells a ∧
      Attribute.Followed blanks a.item rest ∧ a.expand target = .ok (r, text)

section Consumes

variable {target : Target} {ts us rest attr : List Token} {r : ExpandedItem}

/-- What the search finds and expands is consumed. -/
theorem consumes_of_search {a : AnnotatedItem} {text : Text}
    (hsearch : Attribute.search us = .found a rest) (hexpand : a.expand target = .ok (r, text)) :
    ∃ attr, Consumes target us attr r := by
  obtain ⟨s, blanks, hdrop, hspells, hfollowed⟩ := Attribute.search_spells hsearch
  exact ⟨_, a, s, blanks, rest, text, rfl, hdrop, hspells, hfollowed, hexpand⟩

/-- An attribute that is consumed has one of the shapes, and its hash is where the item is said to
stand. -/
theorem Consumes.shaped (h : Consumes target us attr r) :
    attr.head?.map Token.location = some r.location ∧
      ∃ (separated : Bool) (closer : TokenKind), closer.isClosing = true ∧
        Lexeme.Shaped separated closer (Attribute.meaning attr) := by
  obtain ⟨a, s, blanks, rest, text, rfl, -, hspells, -, hexpand⟩ := h
  obtain ⟨directive, -, -, -, hdirective, -, -, rfl, -⟩ := a.expand_eq_ok hexpand
  have hgrammar : Directive.Grammar (significant a.arguments) directive :=
    Directive.ofSignificant_eq_ok_iff.mp hdirective
  obtain ⟨separated, hshaped⟩ := hspells.shaped hgrammar.isBracket
  refine ⟨?_, separated, s.close.kind, hspells.ends.close, hshaped⟩
  rw [← hspells.location]
  rfl

/-- The items and failures from a later point of the search on are among all of them. -/
theorem subset_of_rest (target : Target) (hrest : (Attribute.search ts).rest? = some rest) :
    (expandTokens target rest).items ⊆ (expandTokens target ts).items ∧
      (expandTokens target rest).errors ⊆ (expandTokens target ts).errors := by
  rw [expandTokens_eq target ts]
  cases hsearch : Attribute.search ts with
  | finished => simp [hsearch, Finding.rest?] at hrest
  | passed e? rest' =>
    obtain rfl : rest' = rest := by simpa [hsearch, Finding.rest?] using hrest
    cases e? <;> simp [Expansion.prepend, Expansion.fail]
  | found a rest' =>
    obtain rfl : rest' = rest := by simpa [hsearch, Finding.rest?] using hrest
    cases hexpand : a.expand target with
    | error e => simp [hexpand, Expansion.fail]
    | ok found => simp [hexpand, Expansion.add, Expansion.prepend]

/-- The items and failures from a point on that the search comes to are among all of them. -/
theorem Attribute.Visits.subset (h : Attribute.Visits ts us) :
    (expandTokens target us).items ⊆ (expandTokens target ts).items ∧
      (expandTokens target us).errors ⊆ (expandTokens target ts).errors := by
  induction h with
  | start => exact ⟨List.Subset.refl _, List.Subset.refl _⟩
  | next _ hrest ih =>
    obtain ⟨hitems, herrors⟩ := subset_of_rest target hrest
    exact ⟨List.Subset.trans hitems ih.1, List.Subset.trans herrors ih.2⟩

/-- What comes out of some tokens comes out of an attribute that the search comes to. -/
theorem exists_consumes (hr : r ∈ (expandTokens target ts).items) :
    ∃ us attr, Attribute.Visits ts us ∧ Consumes target us attr r := by
  fun_induction expandTokens target ts with
  | case1 ts hsearch => simp at hr
  | case2 ts rest hsearch ih =>
    obtain ⟨us, attr, hvisits, hconsumes⟩ := ih hr
    exact ⟨us, attr, .of_rest (by rw [hsearch]; rfl) hvisits, hconsumes⟩
  | case3 ts e rest hsearch ih =>
    obtain ⟨us, attr, hvisits, hconsumes⟩ := ih hr
    exact ⟨us, attr, .of_rest (by rw [hsearch]; rfl) hvisits, hconsumes⟩
  | case4 ts a rest hsearch e hexpand ih =>
    obtain ⟨us, attr, hvisits, hconsumes⟩ := ih hr
    exact ⟨us, attr, .of_rest (by rw [hsearch]; rfl) hvisits, hconsumes⟩
  | case5 ts a rest hsearch r' text hexpand ih =>
    rcases List.mem_cons.mp hr with rfl | hr
    · obtain ⟨attr, hconsumes⟩ := consumes_of_search hsearch hexpand
      exact ⟨ts, attr, .start, hconsumes⟩
    · obtain ⟨us, attr, hvisits, hconsumes⟩ := ih hr
      exact ⟨us, attr, .of_rest (by rw [hsearch]; rfl) hvisits, hconsumes⟩

/-- An item comes out of every attribute that is consumed where the search comes to it. -/
theorem Consumes.mem_items (h : Consumes target us attr r) (hvisits : Attribute.Visits ts us) :
    r ∈ (expandTokens target ts).items := by
  obtain ⟨a, s, blanks, rest, text, rfl, hdrop, hspells, hfollowed, hexpand⟩ := h
  have hsearch : Attribute.search us = .found a rest :=
    Attribute.search_eq_found_iff.mpr ⟨s, blanks, hdrop, hspells, hfollowed⟩
  refine hvisits.subset.1 ?_
  rw [expandTokens_eq, hsearch]
  simp [hexpand, Expansion.add]

/-- An attribute that the search comes to and does not consume is reported. -/
theorem exists_fails (hvisits : Attribute.Visits ts us)
    (hopens : Lexeme.opensAttribute (Attribute.meaning us) = true)
    (hconsumes : ∀ attr r, ¬ Consumes target us attr r) :
    ∃ e ∈ (expandTokens target ts).errors, ∃ region behind,
      dropTrivia us = region ++ behind ∧ Fails target e region behind := by
  have herror {e : ExpandError} (he : e ∈ (expandTokens target us).errors) :
      e ∈ (expandTokens target ts).errors := hvisits.subset.2 he
  rcases Attribute.search_cases us with
    ⟨-, hnil⟩ | ⟨rest, -, hpasses⟩ | ⟨-, ⟨e, rest, hsearch⟩ | ⟨a, rest, hsearch⟩⟩
  · rw [hnil] at hopens
    exact absurd hopens (by decide)
  · exact absurd hopens (by rw [hpasses.not_opens]; decide)
  · obtain ⟨hash, behind, hdrop, -, -, hfails⟩ := Fails.of_passed target hsearch
    refine ⟨.attr e, herror ?_, [hash], behind, hdrop, hfails⟩
    rw [expandTokens_eq, hsearch]
    simp [Expansion.fail]
  · cases hexpand : a.expand target with
    | ok found =>
      obtain ⟨attr, hattr⟩ := consumes_of_search hsearch hexpand
      exact absurd hattr (hconsumes attr _)
    | error e =>
      obtain ⟨s, blanks, hdrop, hspells, hfollowed⟩ := Attribute.search_spells hsearch
      refine ⟨e, herror ?_, _, rest, hdrop, .item hspells hfollowed ?_ hexpand⟩
      · rw [expandTokens_eq, hsearch]
        simp [hexpand, Expansion.fail]
      · rw [← hdrop, Attribute.search_dropTrivia]
        exact hsearch

end Consumes

/-- Every item of a file comes out of an attribute that the search comes to and that has one of the
shapes; the attribute is well-formed exactly if no separator ends its path and a parenthesis closes
its arguments. An attribute that the search comes to and that is not consumed is reported, and then
there is no output, nor is there any for a file that falls into no tokens. Conversely everything
that is spelled in one of the shapes, stands before an item and can be expanded is consumed where
the search comes to it. -/
theorem expandSource_consumes (source : Text) (target : Target) :
    (∀ r ∈ (expandSource source target).items, ∃ ts us attr,
      tokenize source Cursor.start = .ok ts ∧ Attribute.Visits ts us ∧
      Consumes target us attr r ∧ attr.head?.map Token.location = some r.location ∧
      ∃ separated closer, closer.isClosing = true ∧
        Lexeme.Shaped separated closer (Attribute.meaning attr) ∧
        (Lexeme.WellFormed (Attribute.meaning attr) ↔
          separated = false ∧ closer = .parenRight)) ∧
    (∀ e, tokenize source Cursor.start = .error e →
      (expandSource source target).result = .error [.lex e]) ∧
    (∀ ts us, tokenize source Cursor.start = .ok ts → Attribute.Visits ts us →
      Lexeme.opensAttribute (Attribute.meaning us) = true →
      (∀ attr r, ¬ Consumes target us attr r) →
      (∃ e ∈ (expandSource source target).errors, ∃ region behind,
        dropTrivia us = region ++ behind ∧ Fails target e region behind) ∧
      (expandSource source target).result = .error (expandSource source target).errors) ∧
    ∀ ts us attr r, tokenize source Cursor.start = .ok ts → Attribute.Visits ts us →
      Consumes target us attr r → r ∈ (expandSource source target).items := by
  have hexpand {ts : List Token} (htokens : tokenize source Cursor.start = .ok ts) :
      expandSource source target = expandTokens target ts := by
    simp only [expandSource, htokens]
  refine ⟨fun r hr => ?_, fun e herror => ?_, fun ts us htokens hvisits hopens hconsumes => ?_,
    fun ts us attr r htokens hvisits hconsumes => ?_⟩
  · cases htokens : tokenize source Cursor.start with
    | error e => simp [expandSource, htokens] at hr
    | ok ts =>
      rw [hexpand htokens] at hr
      obtain ⟨us, attr, hvisits, hconsumes⟩ := exists_consumes hr
      obtain ⟨hlocation, separated, closer, hclosing, hshaped⟩ := hconsumes.shaped
      exact ⟨ts, us, attr, rfl, hvisits, hconsumes, hlocation, separated, closer, hclosing,
        hshaped, hshaped.wellFormed_iff hclosing⟩
  · simp [expandSource, herror, Expansion.result]
  · rw [hexpand htokens]
    obtain ⟨e, he, hfails⟩ := exists_fails hvisits hopens hconsumes
    exact ⟨⟨e, he, hfails⟩, if_neg (List.ne_nil_of_mem he)⟩
  · rw [hexpand htokens]
    exact hconsumes.mem_items hvisits

/-- The tokens of `#[abi("C")]`, with a separator behind the path or without one, and with another
token in place of the closing parenthesis. -/
def attributeLexemes (separated : Bool) (close : Lexeme) : List Lexeme :=
  [⟨.hash, utf8 "#"⟩, ⟨.bracketLeft, utf8 "["⟩, ⟨.identifier, utf8 "abi"⟩] ++
    List.replicate separated.toNat ⟨.pathSeparator, utf8 "::"⟩ ++
    [⟨.parenLeft, utf8 "("⟩, ⟨.string, utf8 "\"C\""⟩, close, ⟨.bracketRight, utf8 "]"⟩]

/-- The tokens of ` fn f();`. -/
def functionLexemes : List Lexeme :=
  [⟨.whitespace, utf8 " "⟩, ⟨.identifier, utf8 "fn"⟩, ⟨.whitespace, utf8 " "⟩,
    ⟨.identifier, utf8 "f"⟩, ⟨.parenLeft, utf8 "("⟩, ⟨.parenRight, utf8 ")"⟩,
    ⟨.semicolon, utf8 ";"⟩]

/-- They are an attribute of the shape with that separator and that closing token. -/
theorem shaped_attributeLexemes (separated : Bool) (close : Lexeme) :
    Lexeme.Shaped separated close.kind (attributeLexemes separated close) := by
  have hpath : Lexeme.PathOf [utf8 "abi"] [⟨.identifier, utf8 "abi"⟩] :=
    Lexeme.PathOf.single (l := ⟨.identifier, utf8 "abi"⟩) rfl
  refine ⟨⟨.hash, utf8 "#"⟩, ⟨.bracketLeft, utf8 "["⟩, _,
    List.replicate separated.toNat ⟨.pathSeparator, utf8 "::"⟩, ⟨.parenLeft, utf8 "("⟩,
    [⟨.string, utf8 "\"C\""⟩], close, ⟨.bracketRight, utf8 "]"⟩, by simp [attributeLexemes], rfl,
    rfl, ⟨_, by decide +kernel, hpath⟩, List.map_replicate, rfl, by decide +kernel, rfl, rfl⟩

/-- A well-formed attribute is consumed, and one without arguments is reported. -/
theorem expandSource_consumes_formed :
    (∃ us attr, Consumes Target.linux64 us attr ⟨⟨1, 1, 0⟩, .function, utf8 "f", utf8 "C", true⟩ ∧
      ∃ separated closer, Lexeme.Shaped separated closer (Attribute.meaning attr)) ∧
    (∃ e ∈ (expandSource (utf8 "#[abi]") Target.linux64).errors, ∃ region behind,
      Fails Target.linux64 e region behind) ∧
    (expandSource (utf8 "#[abi]") Target.linux64).result =
      .error [.attr (.malformed ⟨1, 1, 0⟩)] := by
  have hitem : ⟨⟨1, 1, 0⟩, .function, utf8 "f", utf8 "C", true⟩ ∈
      (expandSource (utf8 "#[abi(\"C\")] fn f();") Target.linux64).items := by decide +kernel
  have htokens : tokenize (utf8 "#[abi]") Cursor.start = .ok (Lexeme.place Cursor.start
      [⟨.hash, utf8 "#"⟩, ⟨.bracketLeft, utf8 "["⟩, ⟨.identifier, utf8 "abi"⟩,
        ⟨.bracketRight, utf8 "]"⟩]) := by decide +kernel
  have hnone : (expandSource (utf8 "#[abi]") Target.linux64).items = [] := by decide +kernel
  have herrors : (expandSource (utf8 "#[abi]") Target.linux64).errors =
      [.attr (.malformed ⟨1, 1, 0⟩)] := by decide +kernel
  obtain ⟨hconsumed, -⟩ := expandSource_consumes (utf8 "#[abi(\"C\")] fn f();") Target.linux64
  obtain ⟨-, -, hreported, hall⟩ := expandSource_consumes (utf8 "#[abi]") Target.linux64
  obtain ⟨ts, us, attr, -, -, hconsumes, -, separated, closer, -, hshaped, -⟩ := hconsumed _ hitem
  obtain ⟨⟨e, he, region, behind, -, hfails⟩, hresult⟩ :=
    hreported _ _ htokens .start (by decide +kernel) fun attr r hconsumes => by
      have hr := hall _ _ attr r htokens .start hconsumes
      rw [hnone] at hr
      exact absurd hr List.not_mem_nil
  exact ⟨⟨us, attr, hconsumes, separated, closer, hshaped⟩, ⟨e, he, region, behind, hfails⟩,
    herrors ▸ hresult⟩

/-- Tokens that begin with an attribute of another shape begin with no well-formed one. -/
theorem Lexeme.Shaped.not_wellFormed {separated : Bool} {closer : TokenKind}
    {ls : List Lexeme} (h : Shaped separated closer ls) (hclosing : closer.isClosing = true)
    (hother : ¬ (separated = false ∧ closer = .parenRight)) {ts : List Token}
    (hts : ls <+: Attribute.meaning ts) :
    ∀ attr, attr <+: ts → ¬ WellFormed (Attribute.meaning attr) := by
  rintro attr ⟨behind, rfl⟩ hformed
  obtain ⟨more, hmore⟩ := hts
  rw [Attribute.meaning_append] at hmore
  obtain ⟨rfl, rfl⟩ := h.unique hformed hclosing rfl hmore
  exact hother ⟨rfl, rfl⟩

/-- An attribute whose arguments a bracket closes and one with a separator behind its path are
consumed without a failure, although no well-formed attribute stands there. -/
theorem expandSource_consumes_malformed :
    expandSource (utf8 "#[abi(\"C\"]] fn f();") Target.linux64 =
        ⟨[⟨⟨1, 1, 0⟩, .function, utf8 "f", utf8 "C", true⟩], [], utf8 "extern \"C\" fn f();"⟩ ∧
      expandSource (utf8 "#[abi::(\"C\")] fn f();") Target.linux64 =
        ⟨[⟨⟨1, 1, 0⟩, .function, utf8 "f", utf8 "C", true⟩], [], utf8 "extern \"C\" fn f();"⟩ ∧
      (∃ ts, tokenize (utf8 "#[abi(\"C\"]] fn f();") Cursor.start = .ok ts ∧
        ∀ attr, attr <+: ts → ¬ Lexeme.WellFormed (Attribute.meaning attr)) ∧
      ∃ ts, tokenize (utf8 "#[abi::(\"C\")] fn f();") Cursor.start = .ok ts ∧
        ∀ attr, attr <+: ts → ¬ Lexeme.WellFormed (Attribute.meaning attr) := by
  refine ⟨by decide +kernel, by decide +kernel,
    ⟨Lexeme.place Cursor.start
        (attributeLexemes false ⟨.bracketRight, utf8 "]"⟩ ++ functionLexemes),
      by decide +kernel, ?_⟩,
    ⟨Lexeme.place Cursor.start (attributeLexemes true ⟨.parenRight, utf8 ")"⟩ ++ functionLexemes),
      by decide +kernel, ?_⟩⟩
  · refine (shaped_attributeLexemes false ⟨.bracketRight, utf8 "]"⟩).not_wellFormed rfl (by decide)
      ?_
    rw [Attribute.meaning, Lexeme.map_lexeme_place, Lexeme.significant_append]
    exact List.prefix_append _ _
  · refine (shaped_attributeLexemes true ⟨.parenRight, utf8 ")"⟩).not_wellFormed rfl (by decide)
      ?_
    rw [Attribute.meaning, Lexeme.map_lexeme_place, Lexeme.significant_append]
    exact List.prefix_append _ _

end CallConv
