import Mathlib
import CallConv.Proofs.Declaration.Remark

/-!
# What a declaration is read as

The outline of a declaration is its kind, its name and the site of its marker. No two readers
recognise the same tokens, so the order in which they are tried does not matter to what is read,
and the outline of the significant tokens of a text is all that `Shape.read?` depends on.
-/

namespace CallConv

namespace Shape

/-- The name and the marker that the reader of a kind finds. -/
def outline? : Kind → List Token → Option (Text × MarkerSite)
  | .function => readMarked functionHead? functionTail?
  | .pointerType => fun ts => (pointerSite? ts).map fun site => ([], site)
  | .typeAlias => readFramed aliasParts?
  | .binding => readFramed bindingParts?
  | .foreignBlock => fun ts => (foreignBlock? ts).map fun shape => (shape.name, shape.site)

/-- Declarations of every kind can be given another marker. -/
theorem remarks_outline? (kind : Kind) : Remarks (outline? kind) := by
  cases kind with
  | function => exact remarks_readMarked isHead_functionHead? follower_functionTail?
  | pointerType => exact remarks_pointerSite?
  | typeAlias => exact remarks_readFramed frames_aliasParts?
  | binding => exact remarks_readFramed frames_bindingParts?
  | foreignBlock => exact remarks_foreignBlock?

/-! ## No two readers recognise the same tokens -/

section Exclusive

variable {ts us rest : List Token} {t : Token} {word word' : Text}

/-- A token is at most one keyword. -/
theorem isWord_eq_false (h : t.isWord word = true) (hne : word ≠ word') :
    t.isWord word' = false := by
  rw [Bool.eq_false_iff]
  intro h'
  exact hne ((content_of_isWord h).symm.trans (content_of_isWord h'))

/-- A token of another kind is no keyword. -/
theorem isWord_eq_false_of_kind (h : t.kind ≠ .identifier) : t.isWord word = false := by
  rw [Bool.eq_false_iff]
  exact fun h' => h (kind_of_isWord h')

/-- A keyword is there only if the first token is it. -/
theorem acceptWord?_eq_none (h : t.isWord word = false) : acceptWord? word (t :: us) = none := by
  simp [acceptWord?, h]

/-- A first token that is another keyword is kept. -/
theorem skipWord_of_not (h : t.isWord word = false) : skipWord word (t :: us) = t :: us := by
  simp [skipWord, acceptWord?, h]

/-- A first token that is the keyword is passed over. -/
theorem skipWord_of_isWord (h : t.isWord word = true) : skipWord word (t :: us) = us := by
  simp [skipWord, acceptWord?, h]

/-- There is no marker where `extern` is not. -/
theorem read_of_not (h : t.isWord (utf8 "extern") = false) :
    MarkerSite.read (t :: us) = (none, t :: us) := by
  simp [MarkerSite.read, acceptWord?, h]

/-- The head of an item is nothing, or begins with an attribute or a visibility. -/
theorem first_of_skipItemHead? (h : skipItemHead? ts = some rest) :
    ts = rest ∨ ∃ t us, ts = t :: us ∧ (t.kind = .hash ∨ t.isWord (utf8 "pub") = true) := by
  by_cases hattr : StartsAttribute ts
  · obtain ⟨hash, bracket, body, rfl, hhash, -⟩ := hattr
    exact .inr ⟨hash, _, rfl, .inl hhash⟩
  · rw [skipItemHead?, skipAttributes?_of_not hattr, Option.bind_some, skipVisibility?_eq] at h
    cases hpub : acceptWord? (utf8 "pub") ts with
    | none =>
      rw [afterWord_of_none hpub] at h
      exact .inl (Option.some.inj h)
    | some found =>
      obtain ⟨rfl, hword⟩ := acceptWord?_eq_some_iff.mp hpub
      exact .inr ⟨_, _, rfl, .inr hword⟩

/-- Tokens that begin with neither an attribute nor a visibility have no head of an item. -/
theorem skipItemHead?_of_not (hhash : t.kind ≠ .hash) (hpub : t.isWord (utf8 "pub") = false) :
    skipItemHead? (t :: us) = some (t :: us) := by
  have hattr : ¬ StartsAttribute (t :: us) := by
    rintro ⟨hash, bracket, body, heq, hkind, -⟩
    obtain ⟨rfl, -⟩ := List.cons.inj heq
    exact hhash hkind
  rw [skipItemHead?, skipAttributes?_of_not hattr, Option.bind_some, skipVisibility?_eq]
  exact afterWord_of_none (acceptWord?_eq_none hpub)

/-- What leads to the marker of a function is the head of an item and qualifiers. -/
theorem functionHead?_of_skipItemHead? (h : skipItemHead? ts = some rest) :
    functionHead? ts = some
      (skipWord (utf8 "unsafe") (skipWord (utf8 "async") (skipWord (utf8 "const") rest))) := by
  simp only [functionHead?, h, ← some_skipWord, Option.bind_some]

/-- There is no function where none follows the marker. -/
theorem function?_eq_none (hhead : functionHead? ts = some rest)
    (htail : functionTail? (MarkerSite.read rest).2 = none) : function? ts = none := by
  rw [function?_eq, readMarked, hhead, Option.bind_some, htail]
  rfl

/-- What follows the marker of a function begins with `fn`. -/
theorem functionTail?_eq_none (h : t.isWord (utf8 "fn") = false) :
    functionTail? (t :: us) = none := by
  simp [functionTail?, acceptWord?_eq_none h]

/-- A function has a name. -/
theorem functionTail?_eq_none_of_name {fn : Token} (h : t.kind ≠ .identifier) :
    functionTail? (fn :: t :: us) = none := by
  unfold functionTail?
  cases hfn : acceptWord? (utf8 "fn") (fn :: t :: us) with
  | none => rfl
  | some found =>
    obtain ⟨heq, -⟩ := acceptWord?_eq_some_iff.mp hfn
    obtain ⟨fn', us'⟩ := found
    obtain ⟨rfl, rfl⟩ := List.cons.inj heq
    simp [accept?, h]

/-- A function pointer type begins with one of four keywords. -/
theorem pointerSite?_eq_none (hfor : t.isWord (utf8 "for") = false)
    (hunsafeWord : t.isWord (utf8 "unsafe") = false)
    (hexternWord : t.isWord (utf8 "extern") = false)
    (hfn : t.isWord (utf8 "fn") = false) : pointerSite? (t :: us) = none := by
  have hhead : skipForAngles? (t :: us) = some (t :: us) := by
    rw [skipForAngles?_eq]
    exact afterWord_of_none (acceptWord?_eq_none hfor)
  simp [pointerSite?, hhead, skipWord_of_not hunsafeWord, read_of_not hexternWord,
    acceptWord?_eq_none hfn]

/-- An item that begins with another keyword is no function pointer type. -/
theorem pointerSite?_eq_none_of_skipItemHead? (h : skipItemHead? ts = some (t :: us))
    (ht : t.isWord word = true)
    (hword : word ∉ [utf8 "for", utf8 "unsafe", utf8 "extern", utf8 "fn"]) :
    pointerSite? ts = none := by
  simp only [List.mem_cons, List.not_mem_nil, or_false, not_or] at hword
  rcases first_of_skipItemHead? h with rfl | ⟨t', us', rfl, hhash | hpub⟩
  · exact pointerSite?_eq_none (isWord_eq_false ht hword.1) (isWord_eq_false ht hword.2.1)
      (isWord_eq_false ht hword.2.2.1) (isWord_eq_false ht hword.2.2.2)
  · have hkind : t'.kind ≠ .identifier := by
      rw [hhash]
      decide
    exact pointerSite?_eq_none (isWord_eq_false_of_kind hkind) (isWord_eq_false_of_kind hkind)
      (isWord_eq_false_of_kind hkind) (isWord_eq_false_of_kind hkind)
  · exact pointerSite?_eq_none (isWord_eq_false hpub (by decide)) (isWord_eq_false hpub (by decide))
      (isWord_eq_false hpub (by decide)) (isWord_eq_false hpub (by decide))

/-- A token that is one of some keywords is none of the others. -/
theorem isWord_eq_false_of_mem {words : List Text} (h : ∃ word ∈ words, t.isWord word = true)
    (hword : word' ∉ words) : t.isWord word' = false := by
  obtain ⟨word, hmem, ht⟩ := h
  exact isWord_eq_false ht fun heq => hword (heq ▸ hmem)

/-- Tokens that begin with one of some keywords have only qualifiers before a marker. -/
theorem functionHead?_of_word {words : List Text} (h : ∃ word ∈ words, t.isWord word = true)
    (hwords : utf8 "pub" ∉ words ∧ utf8 "const" ∉ words ∧ utf8 "async" ∉ words) :
    functionHead? (t :: us) = some (skipWord (utf8 "unsafe") (t :: us)) := by
  have hkind : t.kind ≠ .hash := by
    obtain ⟨word, -, ht⟩ := h
    rw [kind_of_isWord ht]
    decide
  rw [functionHead?_of_skipItemHead?
      (skipItemHead?_of_not hkind (isWord_eq_false_of_mem h hwords.1)),
    skipWord_of_not (isWord_eq_false_of_mem h hwords.2.1),
    skipWord_of_not (isWord_eq_false_of_mem h hwords.2.2)]

/-- Where `fn` follows a marker that may be absent, the first token is one of two keywords. -/
theorem word_of_read {fn : Token} (h : (MarkerSite.read (t :: us)).2 = fn :: rest)
    (hfn : fn.isWord (utf8 "fn") = true) :
    t.isWord (utf8 "extern") = true ∨ t.isWord (utf8 "fn") = true := by
  rcases MarkerSite.read_spec (t :: us) with hnone | ⟨site, rest', -, heq, hne, hstands⟩
  · rw [hnone] at h
    obtain ⟨rfl, -⟩ := List.cons.inj h
    exact .inr hfn
  · left
    cases site with
    | absent fn => exact absurd rfl hne
    | bare keyword =>
      obtain ⟨rfl, -⟩ := List.cons.inj heq
      exact hstands
    | named keyword literal =>
      obtain ⟨rfl, -⟩ := List.cons.inj heq
      exact hstands.1

/-- A function pointer type is no function. -/
theorem function?_eq_none_of_pointerSite? {site : MarkerSite} (h : pointerSite? ts = some site) :
    function? ts = none := by
  simp only [pointerSite?, Option.bind_eq_bind, Option.bind_eq_some_iff, Prod.exists] at h
  obtain ⟨us₁, hfor, fn, us₂, hfn, ⟨⟩, hparen, -⟩ := h
  obtain ⟨hread, hword⟩ := acceptWord?_eq_some_iff.mp hfn
  rw [skipForAngles?_eq] at hfor
  -- Behind `for` no function begins; without it the two readers share their head.
  cases haccept : acceptWord? (utf8 "for") ts with
  | some found =>
    obtain ⟨t, us⟩ := found
    obtain ⟨rfl, ht⟩ := acceptWord?_eq_some_iff.mp haccept
    have hmem : ∃ word ∈ [utf8 "for"], t.isWord word = true := ⟨_, List.mem_singleton_self _, ht⟩
    refine function?_eq_none (functionHead?_of_word hmem (by decide)) ?_
    rw [skipWord_of_not (isWord_eq_false_of_mem hmem (by decide)),
      read_of_not (isWord_eq_false_of_mem hmem (by decide))]
    exact functionTail?_eq_none (isWord_eq_false_of_mem hmem (by decide))
  | none =>
    rw [afterWord_of_none haccept] at hfor
    obtain rfl := Option.some.inj hfor
    -- The tail of a function pointer type has parentheses where a function has its name.
    have htail : functionTail? (MarkerSite.read (skipWord (utf8 "unsafe") ts)).2 = none := by
      rw [hread]
      cases us₂ with
      | nil => simp [startsWithKind] at hparen
      | cons paren us₂ =>
        refine functionTail?_eq_none_of_name fun hkind => ?_
        simp [startsWithKind, hkind] at hparen
    cases ts with
    | nil => simp [skipWord, acceptWord?, MarkerSite.read] at hread
    | cons t us =>
      have hmem : ∃ word ∈ [utf8 "unsafe", utf8 "extern", utf8 "fn"], t.isWord word = true := by
        by_cases hunsafeWord : t.isWord (utf8 "unsafe") = true
        · exact ⟨_, by simp, hunsafeWord⟩
        · rw [skipWord_of_not (by simpa using hunsafeWord)] at hread
          rcases word_of_read hread hword with h | h
          · exact ⟨_, by simp, h⟩
          · exact ⟨_, by simp, h⟩
      exact function?_eq_none (functionHead?_of_word hmem (by decide)) htail

/-- An alias is no function and no function pointer type. -/
theorem eq_none_of_aliasParts? {parts : Text × List Token} (h : aliasParts? ts = some parts) :
    function? ts = none ∧ pointerSite? ts = none := by
  simp only [aliasParts?, Option.bind_eq_bind, Option.bind_eq_some_iff, Prod.exists] at h
  obtain ⟨us₁, hhead, t, us₂, htype, -⟩ := h
  obtain ⟨rfl, ht⟩ := acceptWord?_eq_some_iff.mp htype
  refine ⟨function?_eq_none (functionHead?_of_skipItemHead? hhead) ?_,
    pointerSite?_eq_none_of_skipItemHead? hhead ht (by decide)⟩
  -- The reader of functions stops at `type`, which is none of its words.
  rw [skipWord_of_not (isWord_eq_false ht (by decide)),
    skipWord_of_not (isWord_eq_false ht (by decide)),
    skipWord_of_not (isWord_eq_false ht (by decide)), read_of_not (isWord_eq_false ht (by decide))]
  exact functionTail?_eq_none (isWord_eq_false ht (by decide))

/-- No function goes on behind a word and a colon. -/
theorem functionTail?_eq_none_of_colon {colon : Token} (hcolon : colon.kind = .colon) :
    functionTail? (MarkerSite.read (skipWord (utf8 "unsafe")
      (skipWord (utf8 "async") (t :: colon :: us)))).2 = none := by
  have hkind : colon.kind ≠ .identifier := by
    rw [hcolon]
    decide
  have hat : functionTail? (MarkerSite.read (colon :: us)).2 = none := by
    rw [read_of_not (isWord_eq_false_of_kind hkind)]
    exact functionTail?_eq_none (isWord_eq_false_of_kind hkind)
  -- The word may be any of the keywords, and the colon ends it all the same.
  by_cases hasync : t.isWord (utf8 "async") = true
  · rw [skipWord_of_isWord hasync, skipWord_of_not (isWord_eq_false_of_kind hkind)]
    exact hat
  rw [skipWord_of_not (by simpa using hasync)]
  by_cases hunsafeWord : t.isWord (utf8 "unsafe") = true
  · rw [skipWord_of_isWord hunsafeWord]
    exact hat
  rw [skipWord_of_not (by simpa using hunsafeWord)]
  by_cases hexternWord : t.isWord (utf8 "extern") = true
  · have hread : MarkerSite.read (t :: colon :: us) = (some (.bare t), colon :: us) := by
      simp [MarkerSite.read, acceptWord?, hexternWord, Abi.isLiteral, hcolon,
        TokenKind.isStringLiteral]
    rw [hread]
    exact functionTail?_eq_none (isWord_eq_false_of_kind hkind)
  · rw [read_of_not (by simpa using hexternWord)]
    exact functionTail?_eq_none_of_name hkind

/-- What begins as a constant or static, up to the colon behind the name, is no function, no
function pointer type and no alias. -/
theorem eq_none_of_bindingKeyword? {name colon : Token} {us₁ us₂ : List Token}
    (hhead : skipItemHead? ts = some us₁)
    (hkeyword : skipBindingKeyword? us₁ = some (name :: colon :: us₂))
    (hkind : colon.kind = .colon) :
    function? ts = none ∧ pointerSite? ts = none ∧ aliasParts? ts = none := by
  obtain ⟨t, taken, rfl, hword, -⟩ := skipBindingKeyword?_spec hkeyword
  have halias : t.isWord (utf8 "type") = false → aliasParts? ts = none := by
    intro htype
    simp [aliasParts?, hhead, acceptWord?_eq_none htype]
  rcases hword with ⟨hconst, rfl⟩ | hstatic
  · -- A function may be `const` as well, but the colon behind the name ends it.
    refine ⟨function?_eq_none (functionHead?_of_skipItemHead? hhead) ?_,
      pointerSite?_eq_none_of_skipItemHead? hhead hconst (by decide),
      halias (isWord_eq_false hconst (by decide))⟩
    rw [skipWord_of_isWord hconst]
    exact functionTail?_eq_none_of_colon hkind
  · refine ⟨function?_eq_none (functionHead?_of_skipItemHead? hhead) ?_,
      pointerSite?_eq_none_of_skipItemHead? hhead hstatic (by decide),
      halias (isWord_eq_false hstatic (by decide))⟩
    rw [skipWord_of_not (isWord_eq_false hstatic (by decide)),
      skipWord_of_not (isWord_eq_false hstatic (by decide)),
      skipWord_of_not (isWord_eq_false hstatic (by decide)),
      read_of_not (isWord_eq_false hstatic (by decide))]
    exact functionTail?_eq_none (isWord_eq_false hstatic (by decide))

/-- A constant or static is no function, no function pointer type and no alias. -/
theorem eq_none_of_bindingParts? {parts : Text × List Token} (h : bindingParts? ts = some parts) :
    function? ts = none ∧ pointerSite? ts = none ∧ aliasParts? ts = none := by
  simp only [bindingParts?, Option.bind_eq_bind, Option.bind_eq_some_iff, Prod.exists] at h
  obtain ⟨us₁, hhead, us₂, hkeyword, name, us₃, hname, colon, us₄, hcolon, -⟩ := h
  obtain ⟨rfl, -⟩ := accept?_eq_some_iff.mp hname
  obtain ⟨rfl, hkind⟩ := accept?_eq_some_iff.mp hcolon
  exact eq_none_of_bindingKeyword? hhead hkeyword hkind

/-- A foreign block begins, behind its attributes, with one of two keywords, and braces follow its
marker. -/
theorem words_of_foreignBlock? {shape : Shape} (h : foreignBlock? ts = some shape) :
    ∃ t us brace rest, skipItemHead? ts = some (t :: us) ∧
      (∃ word ∈ [utf8 "unsafe", utf8 "extern"], t.isWord word = true) ∧
      (MarkerSite.read (skipWord (utf8 "unsafe") (t :: us))).2 = brace :: rest ∧
      brace.kind = .braceLeft := by
  obtain ⟨middle, site, rest, hhead, hread, hblock, rfl⟩ := foreignBlock?_eq_some_iff.mp h
  obtain ⟨us₁, hattributes, hunsafeWord⟩ := Option.bind_eq_some_iff.mp hhead
  rw [← some_skipWord, Option.some.injEq] at hunsafeWord
  obtain ⟨brace, rest, rfl, hbrace⟩ : ∃ brace us, rest = brace :: us ∧ brace.kind = .braceLeft := by
    simp only [skipBlock?, Option.bind_eq_bind, Option.bind_eq_some_iff] at hblock
    obtain ⟨⟨⟩, hbrace, -⟩ := hblock
    cases rest with
    | nil => simp [startsWithKind] at hbrace
    | cons brace us => exact ⟨brace, us, rfl, by simpa [startsWithKind] using hbrace⟩
  -- Without `unsafe` the marker has to be there, and it begins with `extern`.
  cases us₁ with
  | nil =>
    obtain rfl : [] = middle := hunsafeWord
    simp [MarkerSite.read, acceptWord?] at hread
  | cons t us =>
    have hmem : ∃ word ∈ [utf8 "unsafe", utf8 "extern"], t.isWord word = true := by
      by_cases hword : t.isWord (utf8 "unsafe") = true
      · exact ⟨_, by simp, hword⟩
      · rw [skipWord_of_not (by simpa using hword)] at hunsafeWord
        subst hunsafeWord
        by_cases hexternWord : t.isWord (utf8 "extern") = true
        · exact ⟨_, by simp, hexternWord⟩
        · rw [read_of_not (by simpa using hexternWord)] at hread
          simp at hread
    refine ⟨t, us, brace, rest, ?_, hmem, by rw [hunsafeWord, hread], hbrace⟩
    rw [skipItemHead?, hattributes, Option.bind_some, skipVisibility?_eq]
    exact afterWord_of_none (acceptWord?_eq_none (isWord_eq_false_of_mem hmem (by decide)))

/-- A foreign block has not the keyword of a constant or static. -/
theorem skipBindingKeyword?_of_foreignBlock? {shape : Shape} (h : foreignBlock? ts = some shape)
    (hhead : skipItemHead? ts = some us) : skipBindingKeyword? us = none := by
  obtain ⟨t, us', -, -, hhead', hmem, -⟩ := words_of_foreignBlock? h
  obtain rfl := Option.some.inj (hhead.symm.trans hhead')
  have hconst : t.isWord (utf8 "const") = false := isWord_eq_false_of_mem hmem (by decide)
  have hstatic : t.isWord (utf8 "static") = false := isWord_eq_false_of_mem hmem (by decide)
  simp [skipBindingKeyword?, acceptWord?_eq_none hconst, acceptWord?_eq_none hstatic]

/-- A foreign block is no other declaration. -/
theorem eq_none_of_foreignBlock? {shape : Shape} (h : foreignBlock? ts = some shape) :
    function? ts = none ∧ pointerSite? ts = none ∧ aliasParts? ts = none ∧
      bindingParts? ts = none := by
  obtain ⟨t, us, brace, rest, hhead, hmem, hread, hbrace⟩ := words_of_foreignBlock? h
  have hkind : brace.kind ≠ .identifier := by
    rw [hbrace]
    decide
  refine ⟨function?_eq_none (functionHead?_of_skipItemHead? hhead) ?_, ?_, ?_, ?_⟩
  · -- Where `fn` would stand there is a brace.
    rw [skipWord_of_not (isWord_eq_false_of_mem hmem (by decide)),
      skipWord_of_not (isWord_eq_false_of_mem hmem (by decide)), hread]
    exact functionTail?_eq_none (isWord_eq_false_of_kind hkind)
  · -- The block may begin with an attribute or `pub`, as no function pointer type does.
    rcases first_of_skipItemHead? hhead with rfl | ⟨t', us', rfl, hhash | hpub⟩
    · have hfor : skipForAngles? (t :: us) = some (t :: us) := by
        rw [skipForAngles?_eq]
        exact afterWord_of_none (acceptWord?_eq_none (isWord_eq_false_of_mem hmem (by decide)))
      simp [pointerSite?, hfor, hread, acceptWord?_eq_none (isWord_eq_false_of_kind hkind)]
    · have hkind' : t'.kind ≠ .identifier := by
        rw [hhash]
        decide
      exact pointerSite?_eq_none (isWord_eq_false_of_kind hkind') (isWord_eq_false_of_kind hkind')
        (isWord_eq_false_of_kind hkind') (isWord_eq_false_of_kind hkind')
    · exact pointerSite?_eq_none (isWord_eq_false hpub (by decide))
        (isWord_eq_false hpub (by decide)) (isWord_eq_false hpub (by decide))
        (isWord_eq_false hpub (by decide))
  · have htype : t.isWord (utf8 "type") = false := isWord_eq_false_of_mem hmem (by decide)
    simp [aliasParts?, hhead, acceptWord?_eq_none htype]
  · simp [bindingParts?, hhead, skipBindingKeyword?_of_foreignBlock? h hhead]

end Exclusive

/-! ## The aliased type is read as it stands in the alias -/

/-- The part of a text from a token up to another is the text of the tokens between. -/
theorem slice_eq_join {source : Text} {origin : Cursor} {before middle after : List Token}
    {first last : Token}
    (h : tokenize source origin = .ok (before ++ (first :: middle) ++ after))
    (hlast : [last] <:+ first :: middle) :
    slice source origin first.location.offset last.endOffset = Token.join (first :: middle) := by
  have hfirst : first.location.offset = origin.offset + (Token.join before).length := by
    rw [List.append_assoc] at h
    exact location_offset_eq h
  obtain ⟨init, hinit⟩ := hlast
  have hend : last.endOffset = first.location.offset + (Token.join (first :: middle)).length := by
    rw [← hinit, ← List.append_assoc, List.append_assoc, List.singleton_append] at h
    rw [Token.endOffset, location_offset_eq h, hfirst, ← hinit]
    simp only [Token.join, List.flatMap_append, List.length_append, List.flatMap_singleton]
    push_cast
    omega
  have hsource : source =
      Token.join before ++ (Token.join (first :: middle) ++ Token.join after) := by
    rw [← join_of_tokenize h]
    simp [Token.join]
  -- Both cuts fall between tokens.
  have hdrop : (first.location.offset - origin.offset).toNat = (Token.join before).length := by
    omega
  have htake : (last.endOffset - first.location.offset).toNat =
      (Token.join (first :: middle)).length := by
    omega
  rw [slice, hdrop, htake, hsource, List.drop_left, List.take_left]

/-- Significant tokens in a row lie in a row of tokens that they begin and end. -/
theorem exists_span {ts lead more tail : List Token} {first : Token}
    (h : significant ts = lead ++ (first :: more) ++ tail) :
    ∃ before middle after, ts = before ++ (first :: middle) ++ after ∧
      significant (first :: middle) = first :: more ∧
      [more.getLast?.getD first] <:+ first :: middle := by
  have hsignificant : first.isTrivia = false := by
    have hmem : first ∈ significant ts := by simp [h]
    simpa [significant] using List.of_mem_filter hmem
  obtain ⟨us, after, rfl, hus, -⟩ := List.filter_eq_append_iff.mp h
  obtain ⟨before, vs, rfl, -, hvs⟩ := List.filter_eq_append_iff.mp hus
  obtain ⟨trivia, ws, rfl, -, -, hws⟩ := List.filter_eq_cons_iff.mp hvs
  -- The row ends with the last of its significant tokens, without the trivia behind it.
  rcases List.eq_nil_or_concat more with rfl | ⟨init, last, rfl⟩
  · refine ⟨before ++ trivia, [], ws ++ after, by simp, ?_, by simp⟩
    simp [significant, hsignificant]
  · rw [List.concat_eq_append] at hws ⊢
    obtain ⟨xs, ys, rfl, hxs, hys⟩ := List.filter_eq_append_iff.mp hws
    obtain ⟨trivia', zs, rfl, htrivia, hlast, hzs⟩ := List.filter_eq_cons_iff.mp hys
    refine ⟨before ++ trivia, xs ++ trivia' ++ [last], zs ++ after, by simp, ?_, ?_⟩
    · have hnone : trivia'.filter (fun t => !t.isTrivia) = [] :=
        List.filter_eq_nil_iff.mpr fun t ht => by simpa using htrivia t ht
      have hsome : [last].filter (fun t => !t.isTrivia) = [last] := by simpa using hlast
      rw [significant, List.filter_cons_of_pos (by simp [hsignificant]), List.filter_append,
        List.filter_append, hxs, hnone, List.append_nil, hsome]
    · rw [List.getLast?_append]
      exact ⟨first :: (xs ++ trivia'), by simp⟩

/-- The tokens of an aliased type are not empty. -/
theorem ne_nil_of_aliasParts? {ts inner : List Token} {name : Text}
    (h : aliasParts? ts = some (name, inner)) : inner ≠ [] := by
  rintro rfl
  simp [aliasParts?, Option.bind_eq_some_iff] at h

/-- The tokens of the type of a constant or static are not empty. -/
theorem ne_nil_of_bindingParts? {ts inner : List Token} {name : Text}
    (h : bindingParts? ts = some (name, inner)) : inner ≠ [] := by
  rintro rfl
  simp [bindingParts?, Option.bind_eq_some_iff] at h

/-- The aliased type is made of tokens in a row, and its marker is found among them. -/
def Aliased (ts : List Token) (aliased : PointerType) : Prop :=
  ∃ before first middle after, ts = before ++ (first :: middle) ++ after ∧
    aliased.origin = first.location ∧ aliased.source = Token.join (first :: middle) ∧
    pointerSite? (significant (first :: middle)) = some aliased.site

/-- An alias is read from the tokens of the aliased type as they stand in it. -/
theorem typeAlias?_spec {source : Text} {origin : Cursor} {ts inner : List Token} {name : Text}
    (h : tokenize source origin = .ok ts)
    (hparts : aliasParts? (significant ts) = some (name, inner)) :
    ∃ text location, typeAlias? source origin (significant ts) =
        some (match pointerSite? inner with
          | some site => .ok (.typeAlias name ⟨text, location, site⟩)
          | none => .error (.unsupportedAlias location name)) ∧
      ∀ site, pointerSite? inner = some site → Aliased ts ⟨text, location, site⟩ := by
  obtain ⟨first, more, rfl⟩ := List.exists_cons_of_ne_nil (ne_nil_of_aliasParts? hparts)
  obtain ⟨lead, tail, hsignificant, -, -⟩ := frames_aliasParts? hparts
  obtain ⟨before, middle, after, rfl, hinner, hlast⟩ := exists_span hsignificant
  refine ⟨Token.join (first :: middle), first.location, ?_, fun site hsite => ?_⟩
  · -- The aliased type is read again, as a text of its own that falls into the same tokens.
    have htokens : tokenize (Token.join (first :: middle)) first.location =
        .ok (first :: middle) := by
      rw [List.append_assoc] at h
      exact tokenize_middle h
    simp only [typeAlias?, hparts, slice_eq_join h hlast, readPointerType, htokens, hinner]
    cases pointerSite? (first :: more) with
    | none => rfl
    | some site => rfl
  · exact ⟨before, first, middle, after, rfl, rfl, rfl, by rw [hinner]; exact hsite⟩

/-! ## The shape of a text -/

section Reading

variable {source : Text} {origin : Cursor} {ts : List Token}

/-- What the readers find of a kind is what is read. -/
theorem read?_of_outline? (h : tokenize source origin = .ok ts) {kind : Kind} {name : Text}
    {site : MarkerSite} (houtline : outline? kind (significant ts) = some (name, site)) :
    ∃ shape, read? source origin (significant ts) = some (.ok shape) ∧ shape.kind = kind ∧
      shape.name = name ∧ shape.site = site := by
  -- The readers are tried in this order, so each must be refused by those before it.
  cases kind with
  | function =>
    refine ⟨.function name site, ?_, rfl, rfl, rfl⟩
    have hfunction : function? (significant ts) = some (.function name site) := by
      rw [function?_eq]
      exact Option.map_eq_some_iff.mpr ⟨(name, site), houtline, rfl⟩
    simp [read?, hfunction]
  | pointerType =>
    obtain ⟨site, hsite, heq⟩ := Option.map_eq_some_iff.mp houtline
    obtain ⟨rfl, rfl⟩ := Prod.mk.inj heq
    refine ⟨.pointerType site, ?_, rfl, rfl, rfl⟩
    simp [read?, function?_eq_none_of_pointerSite? hsite, pointerType?, hsite]
  | typeAlias =>
    simp only [outline?, readFramed, Option.bind_eq_some_iff, Option.map_eq_some_iff, Prod.mk.injEq,
      Prod.exists] at houtline
    obtain ⟨name, inner, hparts, site, hsite, rfl, rfl⟩ := houtline
    obtain ⟨text, location, hread, -⟩ := typeAlias?_spec h hparts
    rw [hsite] at hread
    obtain ⟨hfunction, hpointer⟩ := eq_none_of_aliasParts? hparts
    refine ⟨.typeAlias name ⟨text, location, site⟩, ?_, rfl, rfl, rfl⟩
    simp [read?, hfunction, pointerType?, hpointer, hread]
  | binding =>
    simp only [outline?, readFramed, Option.bind_eq_some_iff, Option.map_eq_some_iff, Prod.mk.injEq,
      Prod.exists] at houtline
    obtain ⟨name, inner, hparts, site, hsite, rfl, rfl⟩ := houtline
    obtain ⟨hfunction, hpointer, halias⟩ := eq_none_of_bindingParts? hparts
    obtain ⟨first, more, rfl⟩ := List.exists_cons_of_ne_nil (ne_nil_of_bindingParts? hparts)
    refine ⟨.binding name site, ?_, rfl, rfl, rfl⟩
    simp [read?, hfunction, pointerType?, hpointer, typeAlias?, halias, binding?, hparts, hsite]
  | foreignBlock =>
    obtain ⟨shape, hshape, heq⟩ := Option.map_eq_some_iff.mp houtline
    obtain ⟨hfunction, hpointer, halias, hbinding⟩ := eq_none_of_foreignBlock? hshape
    obtain ⟨-, site', -, -, -, -, rfl⟩ := foreignBlock?_eq_some_iff.mp hshape
    obtain ⟨rfl, rfl⟩ := Prod.mk.inj heq
    refine ⟨.foreignBlock site', ?_, rfl, rfl, rfl⟩
    simp [read?, hfunction, pointerType?, hpointer, typeAlias?, halias, binding?, hbinding, hshape]

/-- What is read is what the reader of its kind finds. -/
theorem outline?_of_read? (h : tokenize source origin = .ok ts) {shape : Shape}
    (hread : read? source origin (significant ts) = some (.ok shape)) :
    outline? shape.kind (significant ts) = some (shape.name, shape.site) ∧
      ∀ name aliased, shape = .typeAlias name aliased → Aliased ts aliased := by
  -- The cases follow the order of the readers: the first that answers decides.
  cases hfunction : function? (significant ts) with
  | some found =>
    obtain rfl : found = shape := by simpa [read?, hfunction] using hread
    rw [function?_eq] at hfunction
    obtain ⟨⟨name, site⟩, hmarked, rfl⟩ := Option.map_eq_some_iff.mp hfunction
    exact ⟨hmarked, by simp⟩
  | none =>
  cases hpointer : pointerSite? (significant ts) with
  | some site =>
    obtain rfl : .pointerType site = shape := by
      simpa [read?, hfunction, pointerType?, hpointer] using hread
    refine ⟨?_, by simp⟩
    simp only [outline?, Shape.kind, hpointer]
    rfl
  | none =>
  cases halias : aliasParts? (significant ts) with
  | some parts =>
    obtain ⟨name, inner⟩ := parts
    obtain ⟨text, location, htypeAlias, haliased⟩ := typeAlias?_spec h halias
    -- An alias of another type is a failure of its own and ends the reading.
    cases hsite : pointerSite? inner with
    | none =>
      rw [hsite] at htypeAlias
      simp [read?, hfunction, pointerType?, hpointer, htypeAlias] at hread
    | some site =>
      rw [hsite] at htypeAlias
      obtain rfl : .typeAlias name ⟨text, location, site⟩ = shape := by
        simpa [read?, hfunction, pointerType?, hpointer, htypeAlias] using hread
      refine ⟨?_, fun name' aliased heq => ?_⟩
      · simp only [outline?, readFramed, Shape.kind, halias, Option.bind_some, hsite]
        rfl
      · obtain ⟨-, rfl⟩ := Shape.typeAlias.inj heq
        exact haliased site hsite
  | none =>
  cases hbinding : bindingParts? (significant ts) with
  | some parts =>
    obtain ⟨name, inner⟩ := parts
    obtain ⟨first, more, rfl⟩ := List.exists_cons_of_ne_nil (ne_nil_of_bindingParts? hbinding)
    cases hsite : pointerSite? (first :: more) with
    | none =>
      simp [read?, hfunction, pointerType?, hpointer, typeAlias?, halias, binding?, hbinding,
        hsite] at hread
    | some site =>
      obtain rfl : .binding name site = shape := by
        simpa [read?, hfunction, pointerType?, hpointer, typeAlias?, halias, binding?, hbinding,
          hsite] using hread
      refine ⟨?_, by simp⟩
      simp only [outline?, readFramed, Shape.kind, hbinding, Option.bind_some, hsite]
      rfl
  | none =>
    -- All other readers have been refused.
    have hforeign : foreignBlock? (significant ts) = some shape := by
      simpa [read?, hfunction, pointerType?, hpointer, typeAlias?, halias, binding?,
        hbinding] using hread
    obtain ⟨-, site, -, -, -, -, rfl⟩ := foreignBlock?_eq_some_iff.mp hforeign
    refine ⟨?_, by simp⟩
    simp only [outline?, Shape.kind, hforeign]
    rfl

end Reading

end Shape

end CallConv
