import Mathlib
import CallConv.Proofs.Declaration.Outline

/-!
# Declarations in tokens that look the same

All readers of declarations treat tokens alike that look the same to the readers of groups and to
the searches (`Likeness`): the reader of a kind finds the same name and the same marker in both
(`exists_outline?`).
-/

namespace CallConv

namespace Shape

section Readers

variable {R : List Token → List Token → Prop} {f g : List Token → Option (List Token)}
  {ts ts' : List Token}

/-- One reader after the other treats related tokens alike if both do. -/
theorem Respects.bind (hf : Respects R f) (hg : Respects R g) :
    Respects R fun ts => (f ts).bind g := by
  intro ts rest ts' h hts
  obtain ⟨middle, hmiddle, hrest⟩ := Option.bind_eq_some_iff.mp h
  obtain ⟨middle', hmiddle', hmiddles⟩ := hf hmiddle hts
  obtain ⟨rest', hrest', hrests⟩ := hg hrest hmiddles
  exact ⟨rest', Option.bind_eq_some_iff.mpr ⟨middle', hmiddle', hrest'⟩, hrests⟩

/-- Passing over nothing treats related tokens alike. -/
theorem respects_some : Respects R some := by
  intro ts rest ts' h hts
  obtain rfl := Option.some.inj h
  exact ⟨ts', rfl, hts⟩

variable (hR : Likeness R)
include hR

/-- Related tokens lack a first keyword alike. -/
theorem acceptWord?_eq_none_of_likeness {word : Text} (h : acceptWord? word ts = none)
    (hts : R ts ts') : acceptWord? word ts' = none := by
  cases ts with
  | nil =>
    cases ts' with
    | nil => rfl
    | cons t' us' => simpa using hR.head hts
  | cons t us =>
    obtain ⟨t', us', rfl, hlexeme, -⟩ := hR.cons hts
    simp only [acceptWord?, isWord_eq_of_lexeme hlexeme] at h ⊢
    split at h
    · simp at h
    · next hword => rw [if_neg hword]

/-- What follows a keyword that may be absent is read of related tokens alike. -/
theorem respects_afterWord (hf : Respects R f) (word : Text) : Respects R (afterWord word f) := by
  intro ts rest ts' h hts
  unfold afterWord at h ⊢
  split at h
  · next t us hword =>
    obtain ⟨t', us', hword', hus⟩ := hR.acceptWord? hword hts
    rw [hword']
    exact hf h hus
  · next hnone =>
    obtain rfl := Option.some.inj h
    rw [acceptWord?_eq_none_of_likeness hR hnone hts]
    exact ⟨ts', rfl, hts⟩

/-- Parentheses that may be absent are read of related tokens alike. -/
theorem respects_skipOptionalParens? : Respects R skipOptionalParens? := by
  intro ts rest ts' h hts
  unfold skipOptionalParens? at h ⊢
  rw [← hR.startsWithKind_eq hts]
  split at h
  · next hparen =>
    rw [if_pos hparen]
    exact hR.group h hts
  · next hparen =>
    obtain rfl := Option.some.inj h
    rw [if_neg hparen]
    exact ⟨ts', rfl, hts⟩

/-- An attribute begins tokens where one begins related tokens. -/
theorem startsAttribute_of_likeness (hts : R ts ts') (h : StartsAttribute ts') :
    StartsAttribute ts := by
  obtain ⟨hash', bracket', body', rfl, hhash, hbracket⟩ := h
  have hkind := hR.head_kind hts
  rcases ts with _ | ⟨hash, us⟩
  · simp at hkind
  have hhash : hash.kind = .hash := by simpa [hhash] using hkind
  have hus := hR.tail hts (by rw [hhash]; rfl)
  have hkind' := hR.head_kind hus
  rcases us with _ | ⟨bracket, body⟩
  · simp at hkind'
  exact ⟨hash, bracket, body, rfl, hhash, by simpa [hbracket] using hkind'⟩

/-- Attributes are read of related tokens alike. -/
theorem respects_skipAttributes? : Respects R skipAttributes? := by
  intro ts rest ts' h hts
  induction hlen : ts.length using Nat.strong_induction_on generalizing ts ts' with
  | _ n ih =>
    by_cases hattr : StartsAttribute ts
    · obtain ⟨hash, bracket, body, rfl, hhash, hbracket⟩ := hattr
      obtain ⟨hash', us', rfl, hlexeme, hus⟩ := hR.cons hts
      have hus := hus (by rw [hhash]; rfl)
      obtain ⟨bracket', body', rfl, hlexeme', -⟩ := hR.cons hus
      rw [skipAttributes?_attribute body hhash hbracket, Option.bind_eq_some_iff] at h
      obtain ⟨middle, hclose, hmiddle⟩ := h
      have hgroup : skipGroup? (bracket :: body) = some middle := by
        simpa [skipGroup?, hbracket, TokenKind.closing?] using hclose
      obtain ⟨middle', hgroup', hmiddles⟩ := hR.group hgroup hus
      have hle := Group.length_le_of_close hclose
      simp only [List.length_cons] at hlen
      obtain ⟨rest', hrest', hrests⟩ := ih middle.length (by omega) hmiddle hmiddles rfl
      rw [kind_eq_of_lexeme hlexeme] at hhash
      rw [kind_eq_of_lexeme hlexeme'] at hbracket
      refine ⟨rest', ?_, hrests⟩
      have hclose' : Group.close [.bracketRight] body' = some middle' := by
        simpa [skipGroup?, hbracket, TokenKind.closing?] using hgroup'
      rw [skipAttributes?_attribute body' hhash hbracket, hclose', Option.bind_some]
      exact hrest'
    · rw [skipAttributes?_of_not hattr] at h
      obtain rfl := Option.some.inj h
      rw [skipAttributes?_of_not (mt (startsAttribute_of_likeness hR hts) hattr)]
      exact ⟨ts', rfl, hts⟩

/-- The head of an item is read of related tokens alike. -/
theorem respects_skipItemHead? : Respects R skipItemHead? := by
  unfold skipItemHead?
  rw [skipVisibility?_eq]
  exact Respects.bind (respects_skipAttributes? hR)
    (respects_afterWord hR (respects_skipOptionalParens? hR) _)

/-- What leads to the marker of a function is read of related tokens alike. -/
theorem respects_functionHead? : Respects R functionHead? := by
  have hword : ∀ word, Respects R (afterWord word some) := respects_afterWord hR respects_some
  exact Respects.bind (Respects.bind (Respects.bind (respects_skipItemHead? hR) (hword _))
    (hword _)) (hword _)

/-- What leads to the marker of a function pointer type is read of related tokens alike. -/
theorem respects_pointerHead? : Respects R pointerHead? := by
  unfold pointerHead?
  rw [skipForAngles?_eq]
  exact Respects.bind (respects_afterWord hR hR.angles _) (respects_afterWord hR respects_some _)

/-- What leads to the marker of a foreign block is read of related tokens alike. -/
theorem respects_foreignHead? : Respects R foreignHead? :=
  Respects.bind (respects_skipAttributes? hR) (respects_afterWord hR respects_some _)

/-- The keyword of a constant or static is read of related tokens alike. -/
theorem respects_skipBindingKeyword? : Respects R skipBindingKeyword? := by
  intro ts rest ts' h hts
  unfold skipBindingKeyword? at h ⊢
  split at h
  · next t us hconst =>
    obtain rfl := Option.some.inj h
    obtain ⟨t', us', hconst', hus⟩ := hR.acceptWord? hconst hts
    rw [hconst']
    exact ⟨us', rfl, hus⟩
  · next hconst =>
    obtain ⟨⟨t, us⟩, hstatic, hrest⟩ := Option.map_eq_some_iff.mp h
    obtain ⟨t', us', hstatic', hus⟩ := hR.acceptWord? hstatic hts
    rw [acceptWord?_eq_none_of_likeness hR hconst hts, hstatic']
    have hmut : afterWord (utf8 "mut") some us = some rest := by
      rw [← some_skipWord, ← hrest]
    obtain ⟨rest', hrest', hrests⟩ := respects_afterWord hR respects_some _ hmut hus
    rw [← some_skipWord] at hrest'
    exact ⟨rest', hrest', hrests⟩

/-- A marker is read of related tokens alike. -/
theorem read_of_likeness (hts : R ts ts') :
    (MarkerSite.read ts').1.map MarkerSite.marker = (MarkerSite.read ts).1.map MarkerSite.marker ∧
      R (MarkerSite.read ts).2 (MarkerSite.read ts').2 := by
  cases hword : acceptWord? (utf8 "extern") ts with
  | none =>
    have hword' := acceptWord?_eq_none_of_likeness hR hword hts
    simp only [MarkerSite.read, hword, hword']
    exact ⟨trivial, hts⟩
  | some found =>
    obtain ⟨keyword, us⟩ := found
    obtain ⟨keyword', us', hword', hus⟩ := hR.acceptWord? hword hts
    cases us with
    | nil =>
      obtain rfl : us' = [] := by simpa using hR.isEmpty_eq hus
      simp only [MarkerSite.read, hword, hword']
      exact ⟨rfl, hus⟩
    | cons t rest =>
      obtain ⟨t', rest', rfl, hlexeme, hrest⟩ := hR.cons hus
      have hliteral : Abi.isLiteral t' = Abi.isLiteral t := by
        rw [Abi.isLiteral, Abi.isLiteral, kind_eq_of_lexeme hlexeme, content_eq_of_lexeme hlexeme]
      simp only [MarkerSite.read, hword, hword', hliteral]
      split
      · next hl =>
        have hname : Abi.ofLiteral t' = Abi.ofLiteral t := by
          rw [Abi.ofLiteral, Abi.ofLiteral, kind_eq_of_lexeme hlexeme,
            content_eq_of_lexeme hlexeme]
        refine ⟨congrArg (fun name => some (Marker.named name)) hname, hrest ?_⟩
        simp only [Abi.isLiteral, Bool.and_eq_true] at hl
        revert hl
        cases t.kind <;> simp [TokenKind.isStringLiteral, TokenKind.closing?]
      · exact ⟨rfl, hus⟩

/-- The name of an alias and the aliased type are read of related tokens alike. -/
theorem exists_aliasParts?_alike {name : Text} {inner : List Token}
    (h : aliasParts? ts = some (name, inner)) (hts : R ts ts') :
    ∃ inner', aliasParts? ts' = some (name, inner') ∧ R inner inner' := by
  simp only [aliasParts?, Option.bind_eq_bind, Option.bind_eq_some_iff, Prod.exists,
    Option.some.injEq, Prod.mk.injEq] at h
  obtain ⟨us₁, hhead, type, us₂, htype, t, us₃, hname, us₄, hangles, sign, us₅, hsign, inner, us₆,
    hsplit, ⟨⟩, hne, semicolon, us₇, hsemicolon, ⟨⟩, hempty, rfl, rfl⟩ := h
  obtain ⟨us₁', hhead', hus₁⟩ := respects_skipItemHead? hR hhead hts
  obtain ⟨type', us₂', htype', hus₂⟩ := hR.acceptWord? htype hus₁
  obtain ⟨t', us₃', hname', hlexeme, hus₃⟩ := hR.accept? rfl hname hus₂
  obtain ⟨us₄', hangles', hus₄⟩ := respects_skipOptionalAngles? hR hangles hus₃
  obtain ⟨sign', us₅', hsign', -, hus₅⟩ := hR.accept? rfl hsign hus₄
  have hstop : ∀ t t' : Token, t.lexeme = t'.lexeme → isSemicolon t = isSemicolon t' :=
    fun _ _ h => congrArg (fun l : Lexeme => l.kind == .semicolon) h
  obtain ⟨inner', us₆', hsplit', hinner, hus₆⟩ := hR.search hstop hsplit hus₅
  obtain ⟨semicolon', us₇', hsemicolon', -, hus₇⟩ := hR.accept? rfl hsemicolon hus₆
  rw [hR.isEmpty_eq hinner] at hne
  rw [hR.isEmpty_eq hus₇] at hempty
  refine ⟨inner', ?_, hinner⟩
  simp only [aliasParts?, Option.bind_eq_bind, Option.bind_some, hhead', htype', hname', hangles',
    hsign', hsplit', hne, hsemicolon', hempty, content_eq_of_lexeme hlexeme]

/-- The name of a constant or static and its type are read of related tokens alike. -/
theorem exists_bindingParts?_alike {name : Text} {inner : List Token}
    (h : bindingParts? ts = some (name, inner)) (hts : R ts ts') :
    ∃ inner', bindingParts? ts' = some (name, inner') ∧ R inner inner' := by
  simp only [bindingParts?, Option.bind_eq_bind, Option.bind_eq_some_iff, Prod.exists,
    Option.some.injEq, Prod.mk.injEq] at h
  obtain ⟨us₁, hhead, us₂, hkeyword, t, us₃, hname, sign, us₄, hsign, inner, us₅, hsplit, ⟨⟩, hne,
    us₆, hvalue, semicolon, us₇, hsemicolon, ⟨⟩, hempty, rfl, rfl⟩ := h
  obtain ⟨us₁', hhead', hus₁⟩ := respects_skipItemHead? hR hhead hts
  obtain ⟨us₂', hkeyword', hus₂⟩ := respects_skipBindingKeyword? hR hkeyword hus₁
  obtain ⟨t', us₃', hname', hlexeme, hus₃⟩ := hR.accept? rfl hname hus₂
  obtain ⟨sign', us₄', hsign', -, hus₄⟩ := hR.accept? rfl hsign hus₃
  have hstop : ∀ t t' : Token, t.lexeme = t'.lexeme → isTypeEnd t = isTypeEnd t' :=
    fun _ _ h => congrArg (fun l : Lexeme => l.kind == .equal || l.kind == .semicolon) h
  obtain ⟨inner', us₅', hsplit', hinner, hus₅⟩ := hR.search hstop hsplit hus₄
  obtain ⟨us₆', hvalue', hus₆⟩ := hR.skipValue? hvalue hus₅
  obtain ⟨semicolon', us₇', hsemicolon', -, hus₇⟩ := hR.accept? rfl hsemicolon hus₆
  rw [hR.isEmpty_eq hinner] at hne
  rw [hR.isEmpty_eq hus₇] at hempty
  refine ⟨inner', ?_, hinner⟩
  simp only [bindingParts?, Option.bind_eq_bind, Option.bind_some, hhead', hkeyword', hname',
    hsign', hsplit', hne, hvalue', hsemicolon', hempty, content_eq_of_lexeme hlexeme]

/-- What stands around a marker is read of related tokens alike, if what leads to the marker and
what follows it is. -/
theorem exists_readMarked {head : List Token → Option (List Token)}
    {tail : List Token → Option (Token × Text)} (hhead : Respects R head)
    (htail : ∀ {ts ts' fn name}, tail ts = some (fn, name) → R ts ts' →
      ∃ fn', tail ts' = some (fn', name))
    {name : Text} {site : MarkerSite} (h : readMarked head tail ts = some (name, site))
    (hts : R ts ts') :
    ∃ site', readMarked head tail ts' = some (name, site') ∧ site'.marker = site.marker := by
  simp only [readMarked, Option.bind_eq_some_iff, Option.map_eq_some_iff, Prod.mk.injEq,
    Prod.exists] at h
  obtain ⟨middle, hmiddle, fn, name, hread, rfl, rfl⟩ := h
  obtain ⟨middle', hmiddle', hmiddles⟩ := hhead hmiddle hts
  obtain ⟨hmarker, hrest⟩ := read_of_likeness hR hmiddles
  obtain ⟨fn', hread'⟩ := htail hread hrest
  refine ⟨(MarkerSite.read middle').1.getD (.absent fn'), ?_, ?_⟩
  · simp only [readMarked, hmiddle', Option.bind_some, hread', Option.map_some]
  · cases hsite : (MarkerSite.read middle).1 <;> cases hsite' : (MarkerSite.read middle').1 <;>
      simp_all [MarkerSite.marker]

/-- A function pointer type is read of related tokens alike. -/
theorem exists_pointerSite? {site : MarkerSite} (h : pointerSite? ts = some site)
    (hts : R ts ts') : ∃ site', pointerSite? ts' = some site' ∧ site'.marker = site.marker := by
  rw [pointerSite?_eq, Option.map_eq_some_iff] at h
  obtain ⟨⟨name, site⟩, hread, rfl⟩ := h
  obtain ⟨site', hread', hmarker⟩ := exists_readMarked hR (respects_pointerHead? hR)
    (exists_pointerTail? hR) hread hts
  exact ⟨site', by rw [pointerSite?_eq, hread']; rfl, hmarker⟩

/-- A name with a function pointer type is read of related tokens alike, if its parts are. -/
theorem exists_readFramed {parts : List Token → Option (Text × List Token)}
    (hparts : ∀ {name inner}, parts ts = some (name, inner) →
      ∃ inner', parts ts' = some (name, inner') ∧ R inner inner')
    {name : Text} {site : MarkerSite} (h : readFramed parts ts = some (name, site)) :
    ∃ site', readFramed parts ts' = some (name, site') ∧ site'.marker = site.marker := by
  simp only [readFramed, Option.bind_eq_some_iff, Option.map_eq_some_iff, Prod.mk.injEq,
    Prod.exists] at h
  obtain ⟨name, inner, hfound, site, hsite, rfl, rfl⟩ := h
  obtain ⟨inner', hfound', hinner⟩ := hparts hfound
  obtain ⟨site', hsite', hmarker⟩ := exists_pointerSite? hR hsite hinner
  exact ⟨site', by simp only [readFramed, hfound', Option.bind_some, hsite', Option.map_some],
    hmarker⟩

/-- The reader of a kind finds the same name and the same marker in related tokens. -/
theorem exists_outline? {kind : Kind} {name : Text} {site : MarkerSite}
    (h : outline? kind ts = some (name, site)) (hts : R ts ts') :
    ∃ site', outline? kind ts' = some (name, site') ∧ site'.marker = site.marker := by
  cases kind with
  | function =>
    exact exists_readMarked hR (respects_functionHead? hR) (exists_functionTail? hR) h hts
  | pointerType =>
    obtain ⟨site, hsite, heq⟩ := Option.map_eq_some_iff.mp h
    obtain ⟨rfl, rfl⟩ := Prod.mk.inj heq
    obtain ⟨site', hsite', hmarker⟩ := exists_pointerSite? hR hsite hts
    exact ⟨site', Option.map_eq_some_iff.mpr ⟨site', hsite', rfl⟩, hmarker⟩
  | typeAlias => exact exists_readFramed hR (fun h => exists_aliasParts?_alike hR h hts) h
  | binding => exact exists_readFramed hR (fun h => exists_bindingParts?_alike hR h hts) h
  | foreignBlock =>
    obtain ⟨shape, hshape, heq⟩ := Option.map_eq_some_iff.mp h
    obtain ⟨middle, site', rest, hhead, hread, hblock, rfl⟩ := foreignBlock?_eq_some_iff.mp hshape
    obtain ⟨rfl, rfl⟩ := Prod.mk.inj heq
    obtain ⟨middle', hhead', hmiddles⟩ := respects_foreignHead? hR hhead hts
    obtain ⟨hmarker, hrest⟩ := read_of_likeness hR hmiddles
    rw [hread] at hmarker hrest
    obtain ⟨site'', hsite, hmarker⟩ := Option.map_eq_some_iff.mp hmarker
    refine ⟨site'', Option.map_eq_some_iff.mpr ⟨.foreignBlock site'', ?_, rfl⟩, hmarker⟩
    exact foreignBlock?_eq_some_iff.mpr ⟨middle', site'', _, hhead', Prod.ext hsite rfl,
      skipBlock?_of_likeness hR hblock hrest, rfl⟩

end Readers

end Shape

end CallConv
