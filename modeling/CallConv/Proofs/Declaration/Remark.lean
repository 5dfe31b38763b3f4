import Mathlib
import CallConv.Proofs.Declaration.Skip

/-!
# Reading a declaration with another marker

Each reader of declarations passes over what leads to the marker, reads the marker, and then reads
what follows it to the end. `Remarks` states what this means for a change of the marker: a reader
that finds a declaration finds the same one, with the new marker, when the marker is replaced by
any keyword and literal, and what stands around it by tokens with the same lexemes. All five
readers have this property.
-/

namespace CallConv

namespace MarkerSite

/-- The tokens of a marker. -/
def tokens : MarkerSite → List Token
  | absent _ => []
  | bare keyword => [keyword]
  | named keyword literal => [keyword, literal]

/-- The tokens of a marker are what a marker consists of, and without one `fn` follows. -/
def Stands : MarkerSite → (tail : List Token) → Prop
  | absent fn, tail => ∃ rest, tail = fn :: rest ∧ fn.isWord (utf8 "fn") = true
  | bare keyword, _ => keyword.isWord (utf8 "extern") = true
  | named keyword literal, _ =>
    keyword.isWord (utf8 "extern") = true ∧ Abi.isLiteral literal = true

/-- Reading a marker gives its tokens, if they are there. -/
theorem read_spec (ts : List Token) :
    read ts = (none, ts) ∨
      ∃ site rest, read ts = (some site, rest) ∧ ts = site.tokens ++ rest ∧ site.tokens ≠ [] ∧
        site.Stands rest := by
  unfold read
  split
  · exact .inl rfl
  · next keyword h =>
    obtain ⟨rfl, hk⟩ := acceptWord?_eq_some_iff.mp h
    exact .inr ⟨bare keyword, [], rfl, rfl, List.cons_ne_nil _ _, hk⟩
  · next keyword t rest h =>
    obtain ⟨rfl, hk⟩ := acceptWord?_eq_some_iff.mp h
    right
    split
    · next hl => exact ⟨named keyword t, rest, rfl, rfl, List.cons_ne_nil _ _, hk, hl⟩
    · exact ⟨bare keyword, t :: rest, rfl, rfl, List.cons_ne_nil _ _, hk⟩

/-- A keyword and a literal are read as a marker. -/
theorem read_named {keyword literal : Token} (rest : List Token)
    (hk : keyword.isWord (utf8 "extern") = true) (hl : Abi.isLiteral literal = true) :
    read (keyword :: literal :: rest) = (some (named keyword literal), rest) := by
  simp [read, acceptWord?, hk, hl]

end MarkerSite

/-- The reader finds the same declaration with any other marker that names a convention. -/
def Remarks (reader : List Token → Option (Text × MarkerSite)) : Prop :=
  ∀ ⦃ts name site⦄, reader ts = some (name, site) →
    ∃ lead tail, ts = lead ++ site.tokens ++ tail ∧ Led lead ∧ site.Stands tail ∧
      ∀ lead' tail' keyword literal, Alike lead lead' → Alike tail tail' →
        keyword.isWord (utf8 "extern") = true → Abi.isLiteral literal = true →
        reader (lead' ++ keyword :: literal :: tail') = some (name, .named keyword literal)

namespace Shape

/-- What leads to a marker, the marker, and what follows it. Without a marker the first token of
what follows is where one would stand. -/
def readMarked (head : List Token → Option (List Token))
    (tail : List Token → Option (Token × Text)) (ts : List Token) : Option (Text × MarkerSite) :=
  (head ts).bind fun ts => (tail (MarkerSite.read ts).2).map fun (fn, name) =>
    (name, (MarkerSite.read ts).1.getD (.absent fn))

/-- What follows a marker begins with `fn`, and is read by its lexemes. -/
def Follower (tail : List Token → Option (Token × Text)) : Prop :=
  ∀ ⦃ts fn name⦄, tail ts = some (fn, name) →
    (∃ rest, ts = fn :: rest) ∧ fn.isWord (utf8 "fn") = true ∧
      ∀ ts', Alike ts ts' → ∃ fn', tail ts' = some (fn', name)

/-- Before another marker a steady reader leaves off at the same place. -/
theorem follows_marker {site : MarkerSite} {rest rest' : List Token} {keyword literal : Token}
    (hstands : site.Stands rest) (hk : keyword.isWord (utf8 "extern") = true) :
    Follows (site.tokens ++ rest) (keyword :: literal :: rest') := by
  have hkind : keyword.kind ≠ .hash := by
    rw [kind_of_isWord hk]
    decide
  have hcontent : keyword.content ∈ markWords := by
    rw [content_of_isWord hk]
    decide
  -- Whatever was there, a word stands at this place that no head passes over.
  cases site with
  | absent fn =>
    obtain ⟨us, rfl, hfn⟩ := hstands
    refine .inr ⟨fn, us, keyword, _, rfl, rfl, ?_, hkind, .inr ⟨?_, hcontent⟩⟩
    · rw [kind_of_isWord hfn, kind_of_isWord hk]
    · rw [content_of_isWord hfn]
      decide
  | bare k =>
    refine .inr ⟨k, rest, keyword, _, rfl, rfl, ?_, hkind, .inl ?_⟩
    · rw [kind_of_isWord hstands, kind_of_isWord hk]
    · rw [content_of_isWord hstands, content_of_isWord hk]
  | named k l =>
    refine .inr ⟨k, l :: rest, keyword, _, rfl, rfl, ?_, hkind, .inl ?_⟩
    · rw [kind_of_isWord hstands.1, kind_of_isWord hk]
    · rw [content_of_isWord hstands.1, content_of_isWord hk]

/-- A declaration whose marker stands between a steady head and a tail can be given another
marker. -/
theorem remarks_readMarked {head : List Token → Option (List Token)}
    {tail : List Token → Option (Token × Text)} (hhead : IsHead head) (htail : Follower tail) :
    Remarks (readMarked head tail) := by
  intro ts name site h
  simp only [readMarked, Option.bind_eq_some_iff, Option.map_eq_some_iff, Prod.mk.injEq,
    Prod.exists] at h
  obtain ⟨middle, hmiddle, fn, name', hread, rfl, hsite⟩ := h
  obtain ⟨⟨us, hfn⟩, hword, hsame⟩ := htail hread
  obtain ⟨lead, rfl, hlead⟩ := hhead.steady hmiddle
  -- The tokens of the marker, or `fn` at its place, stand between head and tail.
  have hmarker : middle = site.tokens ++ (MarkerSite.read middle).2 ∧
      site.Stands (MarkerSite.read middle).2 := by
    rcases MarkerSite.read_spec middle with hnone | ⟨site', rest, hsome, heq, -, hstands⟩
    · rw [hnone] at hsite hfn ⊢
      obtain rfl : MarkerSite.absent fn = site := hsite
      exact ⟨rfl, us, hfn, hword⟩
    · rw [hsome] at hsite ⊢
      obtain rfl : site' = site := hsite
      exact ⟨heq, hstands⟩
  generalize (MarkerSite.read middle).2 = rest at hread hfn hsame hmarker
  obtain ⟨rfl, hstands⟩ := hmarker
  refine ⟨lead, rest, by rw [List.append_assoc], hhead.leads hmiddle, hstands, ?_⟩
  -- The head leaves off before the new marker, and the tail sees only what follows it.
  intro lead' tail' keyword literal hlead' htail' hk hl
  obtain ⟨fn', hfn'⟩ := hsame tail' htail'
  simp only [readMarked, hlead lead' _ hlead' (follows_marker hstands hk),
    Option.bind_some, MarkerSite.read_named tail' hk hl, hfn', Option.map_some, Option.getD_some]

/-! ## Functions and function pointer types -/

/-- What leads to the marker of a function. -/
def functionHead? (ts : List Token) : Option (List Token) :=
  (((skipItemHead? ts).bind (afterWord (utf8 "const") some)).bind
    (afterWord (utf8 "async") some)).bind (afterWord (utf8 "unsafe") some)

/-- What leads to the marker of a function can be followed by one. -/
theorem isHead_functionHead? : IsHead functionHead? :=
  ((isHead_skipItemHead?.word (by decide)).word (by decide)).word (by decide)

/-- The end of a function: a semicolon, or a body. -/
def skipBody? (ts : List Token) : Option (List Token) :=
  match accept? .semicolon ts with
  | some (_, rest) => some rest
  | none => skipGroup? ts

/-- What follows the name of a function: generics, parameters, return type and body. -/
def skipSignature? (ts : List Token) : Option (List Token) := do
  let ts ← skipOptionalAngles? ts
  guard (startsWithKind .parenLeft ts)
  let ts ← skipGroup? ts
  let (_, ts) ← splitUntil? isBodyStart true ts
  skipBody? ts

/-- What follows the marker of a function, with the name of the function. -/
def functionTail? (ts : List Token) : Option (Token × Text) := do
  let (fn, ts) ← acceptWord? (utf8 "fn") ts
  let (name, ts) ← accept? .identifier ts
  let rest ← skipSignature? ts
  guard rest.isEmpty
  some (fn, name.content)

/-- A function is a head, a marker and a tail. -/
theorem function?_eq (ts : List Token) :
    function? ts = (readMarked functionHead? functionTail? ts).map fun (name, site) =>
      .function name site := by
  unfold function? readMarked functionHead? functionTail? skipSignature? skipBody?
  cases skipItemHead? ts with
  | none => rfl
  | some ts =>
    simp only [← some_skipWord, Option.bind_some, Option.bind_eq_bind, Option.map_bind,
      Option.bind_assoc, Function.comp_def, Option.map_some]
    -- Both sides read the same up to the end, where the body is a case of its own.
    congr; funext fn; congr; funext name; congr; funext generics; congr; funext u; congr
    funext params; congr; funext signature
    cases accept? .semicolon signature.2 with
    | none => rfl
    | some found => rfl

section Likeness

variable {R : List Token → List Token → Prop} (hR : Likeness R)
include hR

/-- The end of a function is read of related tokens alike. -/
theorem respects_skipBody? : Respects R skipBody? := by
  intro ts rest ts' h hts
  unfold skipBody? at h ⊢
  split at h
  · next t us hsome =>
    obtain rfl := Option.some.inj h
    obtain ⟨t', us', hsome', -, hus⟩ := hR.accept? rfl hsome hts
    rw [hsome']
    exact ⟨us', rfl, hus⟩
  · next hnone =>
    rw [hR.accept?_eq_none hnone hts]
    exact hR.group h hts

/-- Generics that may be absent are read of related tokens alike. -/
theorem respects_skipOptionalAngles? : Respects R skipOptionalAngles? := by
  intro ts rest ts' h hts
  unfold skipOptionalAngles? at h ⊢
  rw [← hR.head_kind hts]
  split at h
  · next hless =>
    rw [if_pos hless]
    exact hR.angles h hts
  · next hless =>
    obtain rfl := Option.some.inj h
    rw [if_neg hless]
    exact ⟨ts', rfl, hts⟩

/-- What follows the name of a function is read of related tokens alike. -/
theorem respects_skipSignature? : Respects R skipSignature? := by
  intro ts rest ts' h hts
  simp only [skipSignature?, Option.bind_eq_bind, Option.bind_eq_some_iff, Prod.exists] at h ⊢
  obtain ⟨us₁, h₁, ⟨⟩, hparen, us₂, h₂, skipped, us₃, h₃, h₄⟩ := h
  -- Each step leaves related tokens to the next.
  obtain ⟨us₁', h₁', hus₁⟩ := respects_skipOptionalAngles? hR h₁ hts
  obtain ⟨us₂', h₂', hus₂⟩ := hR.group h₂ hus₁
  obtain ⟨skipped', us₃', h₃', -, hus₃⟩ := hR.search
    (fun _ _ h => congrArg (fun l : Lexeme => l.kind == .braceLeft || l.kind == .semicolon) h)
    h₃ hus₂
  obtain ⟨rest', h₄', hrest⟩ := respects_skipBody? hR h₄ hus₃
  rw [hR.startsWithKind_eq hus₁] at hparen
  exact ⟨rest', ⟨us₁', h₁', (), hparen, us₂', h₂', skipped', us₃', h₃', h₄'⟩, hrest⟩

/-- What follows the marker of a function is read of related tokens alike. -/
theorem exists_functionTail? {ts ts' : List Token} {fn : Token} {name : Text}
    (h : functionTail? ts = some (fn, name)) (hts : R ts ts') :
    ∃ fn', functionTail? ts' = some (fn', name) := by
  simp only [functionTail?, Option.bind_eq_bind, Option.bind_eq_some_iff, Prod.exists,
    Option.some.injEq, Prod.mk.injEq] at h
  obtain ⟨fn, us₁, hfn, t, us₂, hname, us₃, hsignature, ⟨⟩, hempty, rfl, rfl⟩ := h
  obtain ⟨fn', us₁', hfn', hus₁⟩ := hR.acceptWord? hfn hts
  obtain ⟨t', us₂', hname', hlexeme, hus₂⟩ := hR.accept? rfl hname hus₁
  obtain ⟨us₃', hsignature', hus₃⟩ := respects_skipSignature? hR hsignature hus₂
  rw [hR.isEmpty_eq hus₃] at hempty
  refine ⟨fn', ?_⟩
  simp only [functionTail?, Option.bind_eq_bind, hfn', hname', hsignature', hempty,
    Option.bind_some, content_eq_of_lexeme hlexeme]

end Likeness

/-- What follows the marker of a function is read by its lexemes. -/
theorem follower_functionTail? : Follower functionTail? := by
  intro ts fn name h
  refine ⟨?_, ?_, fun ts' halike => exists_functionTail? likeness_alike h halike⟩
  all_goals
    simp only [functionTail?, Option.bind_eq_bind, Option.bind_eq_some_iff, Prod.exists,
      Option.some.injEq, Prod.mk.injEq] at h
    obtain ⟨fn, us₁, hfn, -, -, -, -, -, -, -, rfl, -⟩ := h
    obtain ⟨rfl, hword⟩ := acceptWord?_eq_some_iff.mp hfn
  · exact ⟨us₁, rfl⟩
  · exact hword

/-- What leads to the marker of a function pointer type. -/
def pointerHead? (ts : List Token) : Option (List Token) :=
  (skipForAngles? ts).bind (afterWord (utf8 "unsafe") some)

/-- What follows the marker of a function pointer type, which has no name. -/
def pointerTail? (ts : List Token) : Option (Token × Text) := do
  let (fn, ts) ← acceptWord? (utf8 "fn") ts
  guard (startsWithKind .parenLeft ts)
  let ts ← skipGroup? ts
  let rest ← skipReturnType? ts
  guard rest.isEmpty
  some (fn, [])

/-- A function pointer type is a head, a marker and a tail. -/
theorem pointerSite?_eq (ts : List Token) :
    pointerSite? ts = (readMarked pointerHead? pointerTail? ts).map Prod.snd := by
  unfold pointerSite? readMarked pointerHead? pointerTail?
  cases skipForAngles? ts with
  | none => rfl
  | some ts =>
    simp only [← some_skipWord, Option.bind_some, Option.bind_eq_bind, Option.map_bind,
      Function.comp_def, Option.map_some]

/-- What leads to the marker of a function pointer type can be followed by one. -/
theorem isHead_pointerHead? : IsHead pointerHead? := by
  have hfor : IsHead fun ts => (some ts).bind (afterWord (utf8 "for") skipAngles?) :=
    isHead_some.bind ⟨steady_skipAngles?, leads_skipAngles?⟩ (by decide)
  unfold pointerHead?
  rw [skipForAngles?_eq]
  exact hfor.word (by decide)

/-- What follows the marker of a function pointer type is read of related tokens alike. -/
theorem exists_pointerTail? {R : List Token → List Token → Prop} (hR : Likeness R)
    {ts ts' : List Token} {fn : Token} {name : Text} (h : pointerTail? ts = some (fn, name))
    (hts : R ts ts') : ∃ fn', pointerTail? ts' = some (fn', name) := by
  simp only [pointerTail?, Option.bind_eq_bind, Option.bind_eq_some_iff, Prod.exists,
    Option.some.injEq, Prod.mk.injEq] at h
  obtain ⟨fn, us₁, hfn, ⟨⟩, hparen, us₂, hgroup, us₃, hreturn, ⟨⟩, hempty, rfl, rfl⟩ := h
  obtain ⟨fn', us₁', hfn', hus₁⟩ := hR.acceptWord? hfn hts
  obtain ⟨us₂', hgroup', hus₂⟩ := hR.group hgroup hus₁
  obtain ⟨us₃', hreturn', hus₃⟩ := hR.skipReturnType? hreturn hus₂
  rw [hR.isEmpty_eq hus₃] at hempty
  rw [hR.startsWithKind_eq hus₁] at hparen
  refine ⟨fn', ?_⟩
  simp only [pointerTail?, Option.bind_eq_bind, hfn', hparen, hgroup', hreturn', hempty,
    Option.bind_some]

/-- What follows the marker of a function pointer type is read by its lexemes. -/
theorem follower_pointerTail? : Follower pointerTail? := by
  intro ts fn name h
  refine ⟨?_, ?_, fun ts' halike => exists_pointerTail? likeness_alike h halike⟩
  all_goals
    simp only [pointerTail?, Option.bind_eq_bind, Option.bind_eq_some_iff, Prod.exists,
      Option.some.injEq, Prod.mk.injEq] at h
    obtain ⟨fn, us₁, hfn, -, -, -, -, -, -, -, -, rfl, -⟩ := h
    obtain ⟨rfl, hword⟩ := acceptWord?_eq_some_iff.mp hfn
  · exact ⟨us₁, rfl⟩
  · exact hword

/-! ## Blocks of foreign items -/

/-- What leads to the marker of a foreign block. -/
def foreignHead? (ts : List Token) : Option (List Token) :=
  (skipAttributes? ts).bind (afterWord (utf8 "unsafe") some)

/-- The block after the marker, which ends the tokens. -/
def skipBlock? (ts : List Token) : Option Unit := do
  guard (startsWithKind .braceLeft ts)
  let rest ← skipGroup? ts
  guard rest.isEmpty

/-- A foreign block is a head, a marker that is there, and a block. -/
theorem foreignBlock?_eq_some_iff {ts : List Token} {shape : Shape} :
    foreignBlock? ts = some shape ↔ ∃ middle site rest, foreignHead? ts = some middle ∧
      MarkerSite.read middle = (some site, rest) ∧ skipBlock? rest = some () ∧
      shape = .foreignBlock site := by
  unfold foreignBlock? foreignHead? skipBlock?
  simp only [Option.bind_eq_bind, Option.bind_eq_some_iff, ← some_skipWord, Option.some.injEq]
  constructor
  · rintro ⟨us, hattributes, site, hsite, ⟨⟩, hbrace, rest, hgroup, ⟨⟩, hempty, rfl⟩
    exact ⟨_, site, _, ⟨us, hattributes, rfl⟩, Prod.ext hsite rfl,
      ⟨(), hbrace, rest, hgroup, hempty⟩, rfl⟩
  · rintro ⟨middle, site, us, ⟨us', hattributes, rfl⟩, hread,
      ⟨⟨⟩, hbrace, rest, hgroup, hempty⟩, rfl⟩
    refine ⟨us', hattributes, site, by rw [hread], (), ?_, rest, ?_, (), hempty, rfl⟩
    · rw [hread]
      exact hbrace
    · rw [hread]
      exact hgroup

/-- A block is read of related tokens alike. -/
theorem skipBlock?_of_likeness {R : List Token → List Token → Prop} (hR : Likeness R)
    {ts ts' : List Token} (h : skipBlock? ts = some ()) (hts : R ts ts') :
    skipBlock? ts' = some () := by
  simp only [skipBlock?, Option.bind_eq_bind, Option.bind_eq_some_iff] at h ⊢
  obtain ⟨⟨⟩, hbrace, us, hgroup, hempty⟩ := h
  obtain ⟨us', hgroup', hus⟩ := hR.group hgroup hts
  rw [hR.startsWithKind_eq hts] at hbrace
  rw [hR.isEmpty_eq hus] at hempty
  exact ⟨(), hbrace, us', hgroup', hempty⟩

/-- A foreign block can be given another marker. -/
theorem remarks_foreignBlock? :
    Remarks fun ts => (foreignBlock? ts).map fun shape => (shape.name, shape.site) := by
  intro ts name site h
  obtain ⟨shape, hshape, heq⟩ := Option.map_eq_some_iff.mp h
  obtain ⟨middle, site', rest, hhead, hread, hblock, rfl⟩ := foreignBlock?_eq_some_iff.mp hshape
  obtain ⟨rfl, rfl⟩ : [] = name ∧ site' = site := by simpa [Shape.name, Shape.site] using heq
  -- A block of foreign items always has a marker.
  have hfound : middle = site'.tokens ++ rest ∧ site'.Stands rest := by
    rcases MarkerSite.read_spec middle with hnone | ⟨site, rest', hsome, heq, -, hstands⟩
    · simp [hnone] at hread
    · rw [hread] at hsome
      simp only [Prod.mk.injEq, Option.some.injEq] at hsome
      obtain ⟨rfl, rfl⟩ := hsome
      exact ⟨heq, hstands⟩
  obtain ⟨rfl, hstands⟩ := hfound
  have hishead : IsHead foreignHead? := isHead_skipAttributes?.word (by decide)
  obtain ⟨lead, rfl, hlead⟩ := hishead.steady hhead
  refine ⟨lead, rest, by rw [List.append_assoc], hishead.leads hhead, hstands, ?_⟩
  intro lead' tail' keyword literal hlead' htail' hk hl
  refine Option.map_eq_some_iff.mpr ⟨.foreignBlock (.named keyword literal), ?_, rfl⟩
  refine foreignBlock?_eq_some_iff.mpr ⟨_, _, tail',
    hlead lead' _ hlead' (follows_marker hstands hk), MarkerSite.read_named tail' hk hl, ?_, rfl⟩
  exact skipBlock?_of_likeness likeness_alike hblock htail'

/-! ## Aliases, constants and statics -/

/-- The kinds of the tokens of a marker. -/
def isMarkerKind : TokenKind → Bool
  | .identifier | .string | .rawString => true
  | _ => false

/-- The tokens of a marker do not end a search unless its stop is one of them. -/
theorem neutral_of_isMarkerKind {stop : Token → Bool} {t : Token} (hstop : stop t = false)
    (h : isMarkerKind t.kind = true) : Group.Neutral stop t := by
  refine ⟨hstop, ?_⟩
  revert h
  generalize t.kind = kind
  cases kind <;> decide

/-- The tokens of a marker have the kinds of such tokens. -/
theorem isMarkerKind_of_mem {site : MarkerSite} {rest : List Token} (h : site.Stands rest) :
    ∀ t ∈ site.tokens, isMarkerKind t.kind = true := by
  have hliteral : ∀ t : Token, Abi.isLiteral t = true → isMarkerKind t.kind = true := by
    intro t ht
    simp only [Abi.isLiteral, Bool.and_eq_true] at ht
    revert ht
    generalize t.kind = kind
    cases kind <;> simp [TokenKind.isStringLiteral, isMarkerKind]
  intro t ht
  cases site with
  | absent fn => simp [MarkerSite.tokens] at ht
  | bare k =>
    obtain rfl := List.mem_singleton.mp ht
    rw [kind_of_isWord h]
    rfl
  | named k l =>
    simp only [MarkerSite.tokens, List.mem_cons, List.not_mem_nil, or_false] at ht
    rcases ht with rfl | rfl
    · rw [kind_of_isWord h.1]
      rfl
    · exact hliteral t h.2

/-- The reader finds a type between what leads to it and what follows it, and finds the type with
another marker in it as well. -/
def Frames (parts : List Token → Option (Text × List Token)) : Prop :=
  ∀ ⦃ts name inner⦄, parts ts = some (name, inner) →
    ∃ lead tail, ts = lead ++ inner ++ tail ∧ Led lead ∧
      ∀ before ms after, inner = before ++ (ms ++ after) →
        (∀ t ∈ ms, isMarkerKind t.kind = true) →
        ∀ lead' before' ms' after' tail', Alike lead lead' → Alike before before' →
          Alike after after' → Alike tail tail' → ms' ≠ [] →
          (∀ t ∈ ms', isMarkerKind t.kind = true) →
          parts (lead' ++ (before' ++ (ms' ++ after')) ++ tail') =
            some (name, before' ++ (ms' ++ after'))

/-- The declaration of a name with a function pointer type. -/
def readFramed (parts : List Token → Option (Text × List Token)) (ts : List Token) :
    Option (Text × MarkerSite) :=
  (parts ts).bind fun (name, inner) => (pointerSite? inner).map fun site => (name, site)

/-- A function pointer type can be given another marker. -/
theorem remarks_pointerSite? : Remarks fun ts => (pointerSite? ts).map fun site => ([], site) := by
  have hmarked := remarks_readMarked isHead_pointerHead? follower_pointerTail?
  have heq : (fun ts => (pointerSite? ts).map fun site => (([] : Text), site)) =
      readMarked pointerHead? pointerTail? := by
    funext ts
    rw [pointerSite?_eq, Option.map_map]
    cases hread : readMarked pointerHead? pointerTail? ts with
    | none => rfl
    | some found =>
      -- The tail of a function pointer type gives no name.
      simp only [readMarked, Option.bind_eq_some_iff, Option.map_eq_some_iff, Prod.exists] at hread
      obtain ⟨middle, -, fn, name, htail, rfl⟩ := hread
      simp only [pointerTail?, Option.bind_eq_bind, Option.bind_eq_some_iff, Option.some.injEq,
        Prod.mk.injEq, Prod.exists] at htail
      obtain ⟨-, -, -, -, -, -, -, -, -, -, -, -, rfl⟩ := htail
      rfl
  rw [heq]
  exact hmarked

/-- A declaration of a name with a function pointer type can be given another marker. -/
theorem remarks_readFramed {parts : List Token → Option (Text × List Token)}
    (hparts : Frames parts) : Remarks (readFramed parts) := by
  intro ts name site h
  simp only [readFramed, Option.bind_eq_some_iff, Option.map_eq_some_iff, Prod.mk.injEq,
    Prod.exists] at h
  obtain ⟨name, inner, hinner, site, hsite, rfl, rfl⟩ := h
  obtain ⟨outer, close, rfl, houter, hsame⟩ := hparts hinner
  obtain ⟨lead, tail, rfl, hlead, hstands, hremark⟩ :=
    remarks_pointerSite? (Option.map_eq_some_iff.mpr ⟨site, hsite, rfl⟩)
  -- What leads to the type leads to the marker, and what follows the type follows it.
  refine ⟨outer ++ lead, tail ++ close, by simp, houter.append hlead, ?_, ?_⟩
  · cases site with
    | absent fn =>
      obtain ⟨rest, rfl, hfn⟩ := hstands
      exact ⟨rest ++ close, rfl, hfn⟩
    | bare k => exact hstands
    | named k l => exact hstands
  intro lead' tail' keyword literal hlead' htail' hk hl
  obtain ⟨outer', lead', rfl, houter', hlead'⟩ := Alike.append_iff.mp hlead'
  obtain ⟨tail', close', rfl, htail', hclose'⟩ := Alike.append_iff.mp htail'
  have hnew : MarkerSite.Stands (.named keyword literal) tail' := ⟨hk, hl⟩
  -- First the frame with the changed type in it, then the changed type itself.
  have hframe := hsame lead site.tokens tail (by rw [List.append_assoc])
    (isMarkerKind_of_mem hstands) outer' lead' [keyword, literal] tail' close' houter' hlead' htail'
    hclose' (List.cons_ne_nil _ _) (isMarkerKind_of_mem hnew)
  obtain ⟨site', hsite', heq⟩ :=
    Option.map_eq_some_iff.mp (hremark lead' tail' keyword literal hlead' htail' hk hl)
  obtain rfl : site' = .named keyword literal := (Prod.mk.inj heq).2
  have hjoin : outer' ++ lead' ++ keyword :: literal :: (tail' ++ close') =
      outer' ++ (lead' ++ ([keyword, literal] ++ tail')) ++ close' := by simp
  simp only [readFramed, hjoin, hframe, Option.bind_some]
  rw [show lead' ++ ([keyword, literal] ++ tail') = lead' ++ keyword :: literal :: tail' from rfl,
    hsite']
  rfl

/-- A search takes a type with another marker in it as well. -/
theorem splitUntil?_remark {stop : Token → Bool} {us inner after before ms rest : List Token}
    {before' ms' rest' after' : List Token}
    (hstop : ∀ t t' : Token, t.lexeme = t'.lexeme → stop t = stop t')
    (hmarker : ∀ t : Token, isMarkerKind t.kind = true → stop t = false)
    (h : splitUntil? stop true us = some (inner, after)) (hinner : inner = before ++ (ms ++ rest))
    (hms : ∀ t ∈ ms, isMarkerKind t.kind = true) (hms' : ∀ t ∈ ms', isMarkerKind t.kind = true)
    (hbefore : Alike before before') (hrest : Alike rest rest') (hafter : Alike after after') :
    splitUntil? stop true (before' ++ (ms' ++ rest') ++ after') =
      some (before' ++ (ms' ++ rest'), after') := by
  subst hinner
  obtain ⟨rfl, hstops, -⟩ := Group.splitUntil_spec h
  -- Only the tokens of the marker are replaced first, and then the lexemes around them.
  have hreplaced : Group.splitUntil stop true [] (before ++ (ms' ++ (rest ++ after))) =
      some (before ++ (ms' ++ rest), after) := by
    have hold : Group.splitUntil stop true [] (before ++ (ms ++ (rest ++ after))) =
        some (before ++ (ms ++ rest), after) := by
      rw [← List.append_assoc ms, ← List.append_assoc before]
      exact h
    exact Group.splitUntil_replace (by simp [Group.Owes])
      (fun t ht => neutral_of_isMarkerKind (hmarker t (hms t ht)) (hms t ht))
      (fun t ht => neutral_of_isMarkerKind (hmarker t (hms' t ht)) (hms' t ht)) hold
  obtain ⟨-, -, hsame⟩ := Group.splitUntil_spec hreplaced
  refine hsame hstop _ after' (hbefore.append ((Alike.refl ms').append hrest)) ?_
  rcases hstops with rfl | ⟨t, us, rfl, ht⟩
  · exact .inl (Alike.nil_iff.mp hafter)
  · obtain ⟨t', us', rfl, hlexeme, -⟩ := Alike.cons_iff.mp hafter
    exact .inr ⟨t', us', rfl, hstop t t' hlexeme ▸ ht⟩

/-- The tokens of a marker are no semicolons. -/
theorem isSemicolon_eq_false {t : Token} (h : isMarkerKind t.kind = true) :
    isSemicolon t = false := by
  unfold isSemicolon
  revert h
  generalize t.kind = kind
  cases kind <;> decide

/-- The tokens of a marker do not end the type of a constant or static. -/
theorem isTypeEnd_eq_false {t : Token} (h : isMarkerKind t.kind = true) : isTypeEnd t = false := by
  unfold isTypeEnd
  revert h
  generalize t.kind = kind
  cases kind <;> decide

/-- Something stands in a type that has a marker. -/
theorem guard_remark {before ms after : List Token} (h : ms ≠ []) :
    (guard (!(before ++ (ms ++ after)).isEmpty) : Option Unit) = some () := by
  have hne : (before ++ (ms ++ after)).isEmpty = false := by simp [h]
  rw [hne]
  rfl

/-- The name of a declaration and the type that stands between what leads to it and what closes the
declaration. -/
def readTyped (lead? : List Token → Option (Text × List Token)) (stop : Token → Bool)
    (close? : List Token → Option Unit) (ts : List Token) : Option (Text × List Token) := do
  let (name, ts) ← lead? ts
  let (type, ts) ← splitUntil? stop true ts
  guard (!type.isEmpty)
  close? ts
  some (name, type)

/-- What leads to a type is read by its lexemes, whatever type follows. -/
def Leader (lead? : List Token → Option (Text × List Token)) : Prop :=
  ∀ ⦃ts name rest⦄, lead? ts = some (name, rest) →
    ∃ lead, ts = lead ++ rest ∧ Led lead ∧
      ∀ lead' rest', Alike lead lead' → lead? (lead' ++ rest') = some (name, rest')

/-- A type between what leads to it and what closes the declaration can be given another marker. -/
theorem frames_readTyped {lead? : List Token → Option (Text × List Token)} {stop : Token → Bool}
    {close? : List Token → Option Unit} (hlead : Leader lead?)
    (hstop : ∀ t t' : Token, t.lexeme = t'.lexeme → stop t = stop t')
    (hmarker : ∀ t : Token, isMarkerKind t.kind = true → stop t = false)
    (hclose : ∀ ⦃ts ts'⦄, close? ts = some () → Alike ts ts' → close? ts' = some ()) :
    Frames (readTyped lead? stop close?) := by
  intro ts name inner h
  simp only [readTyped, Option.bind_eq_bind, Option.bind_eq_some_iff, Prod.exists,
    Option.some.injEq, Prod.mk.injEq] at h
  obtain ⟨name, us, hread, inner, tail, hsplit, ⟨⟩, -, ⟨⟩, hclosed, rfl, rfl⟩ := h
  obtain ⟨lead, rfl, hled, hsame⟩ := hlead hread
  obtain ⟨rfl, -, -⟩ := Group.splitUntil_spec hsplit
  refine ⟨lead, tail, by rw [List.append_assoc], hled, ?_⟩
  intro before ms after hinner hms lead' before' ms' after' tail' hlead' hbefore hafter htail hne
    hms'
  have hsplit' :=
    splitUntil?_remark hstop hmarker hsplit hinner hms hms' hbefore hafter htail
  simp only [readTyped, Option.bind_eq_bind, Option.bind_eq_some_iff, Prod.exists,
    Option.some.injEq, Prod.mk.injEq]
  rw [List.append_assoc]
  exact ⟨_, _, hsame lead' _ hlead', _, _, hsplit', (), guard_remark hne, (),
    hclose hclosed htail, rfl, rfl⟩

/-- What leads to the aliased type, with the name of the alias. -/
def aliasLead? (ts : List Token) : Option (Text × List Token) := do
  let ts ← skipItemHead? ts
  let (_, ts) ← acceptWord? (utf8 "type") ts
  let (name, ts) ← accept? .identifier ts
  let ts ← skipOptionalAngles? ts
  let (_, ts) ← accept? .equal ts
  some (name.content, ts)

/-- The semicolon that ends a declaration, behind which nothing stands. -/
def acceptEnd? (ts : List Token) : Option Unit := do
  let (_, rest) ← accept? .semicolon ts
  guard rest.isEmpty

/-- The value of a constant or static, if it has one, and the semicolon behind it. -/
def bindingEnd? (ts : List Token) : Option Unit := (skipValue? ts).bind acceptEnd?

/-- What leads to the type of a constant or static, with its name. -/
def bindingLead? (ts : List Token) : Option (Text × List Token) := do
  let ts ← skipItemHead? ts
  let ts ← skipBindingKeyword? ts
  let (name, ts) ← accept? .identifier ts
  let (_, ts) ← accept? .colon ts
  some (name.content, ts)

/-- The parts of an alias are a lead, a type and a semicolon. -/
theorem aliasParts?_eq : aliasParts? = readTyped aliasLead? isSemicolon acceptEnd? := by
  funext ts
  simp [aliasParts?, readTyped, aliasLead?, acceptEnd?, Option.bind_assoc]

/-- The parts of a constant or static are a lead, a type, a value and a semicolon. -/
theorem bindingParts?_eq : bindingParts? = readTyped bindingLead? isTypeEnd bindingEnd? := by
  funext ts
  simp [bindingParts?, readTyped, bindingLead?, bindingEnd?, acceptEnd?, Option.bind_assoc]

/-- The semicolon that ends a declaration is read by its lexemes. -/
theorem acceptEnd?_of_alike {ts ts' : List Token} (h : acceptEnd? ts = some ())
    (hts : Alike ts ts') : acceptEnd? ts' = some () := by
  simp only [acceptEnd?, Option.bind_eq_bind, Option.bind_eq_some_iff, Prod.exists] at h ⊢
  obtain ⟨semicolon, us, hsemicolon, hempty⟩ := h
  obtain ⟨semicolon', us', hsemicolon', -, hus⟩ := likeness_alike.accept? rfl hsemicolon hts
  rw [hus.isEmpty_eq] at hempty
  exact ⟨semicolon', us', hsemicolon', hempty⟩

/-- The value of a constant or static is read by its lexemes up to the end. -/
theorem bindingEnd?_of_alike {ts ts' : List Token} (h : bindingEnd? ts = some ())
    (hts : Alike ts ts') : bindingEnd? ts' = some () := by
  obtain ⟨us, hvalue, hend⟩ := Option.bind_eq_some_iff.mp h
  obtain ⟨us', hvalue', hus⟩ := likeness_alike.skipValue? hvalue hts
  exact Option.bind_eq_some_iff.mpr ⟨us', hvalue', acceptEnd?_of_alike hend hus⟩

/-- What leads to the aliased type is read by its lexemes. -/
theorem leader_aliasLead? : Leader aliasLead? := by
  intro ts name rest h
  simp only [aliasLead?, Option.bind_eq_bind, Option.bind_eq_some_iff, Prod.exists,
    Option.some.injEq, Prod.mk.injEq] at h
  obtain ⟨us₁, hhead, type, us₂, htype, t, us₃, hname, us₄, hangles, sign, rest, hsign, rfl,
    rfl⟩ := h
  obtain ⟨rfl, hword⟩ := acceptWord?_eq_some_iff.mp htype
  obtain ⟨rfl, hident⟩ := accept?_eq_some_iff.mp hname
  obtain ⟨rfl, hequal⟩ := accept?_eq_some_iff.mp hsign
  obtain ⟨head, rfl, hheads⟩ := isHead_skipItemHead?.steady hhead
  obtain ⟨angles, rfl, hangless⟩ := steady_skipOptionalAngles? hangles
  refine ⟨head ++ type :: t :: (angles ++ [sign]), by simp,
    .inr ⟨sign, ⟨head ++ type :: t :: angles, by simp⟩, by rw [hequal]; rfl⟩, ?_⟩
  -- The lead falls into the same pieces on the other side.
  intro lead' rest' hlead
  obtain ⟨head', us, rfl, hhead', hlead⟩ := Alike.append_iff.mp hlead
  obtain ⟨type', us, rfl, htype', hlead⟩ := Alike.cons_iff.mp hlead
  obtain ⟨t', us, rfl, ht', hlead⟩ := Alike.cons_iff.mp hlead
  obtain ⟨angles', us, rfl, hangles', hlead⟩ := Alike.append_iff.mp hlead
  obtain ⟨sign', us, rfl, hsign', hlead⟩ := Alike.cons_iff.mp hlead
  obtain rfl := Alike.nil_iff.mp hlead
  -- The readers of the pieces look one token ahead, at `type` and at the equal sign.
  have hfollows : Follows (type :: t :: (angles ++ sign :: rest))
      (type' :: t' :: (angles' ++ sign' :: rest')) :=
    Follows.cons htype' (by rw [kind_of_isWord hword]; decide)
  have hfollows' : Follows (sign :: rest) (sign' :: rest') :=
    Follows.cons hsign' (by rw [hequal]; decide)
  rw [isWord_eq_of_lexeme htype'] at hword
  rw [kind_eq_of_lexeme ht'] at hident
  rw [kind_eq_of_lexeme hsign'] at hequal
  have hjoin : head' ++ type' :: t' :: (angles' ++ [sign']) ++ rest' =
      head' ++ type' :: t' :: (angles' ++ sign' :: rest') := by simp
  simp only [aliasLead?, hjoin, Option.bind_eq_bind, Option.bind_eq_some_iff, Prod.exists,
    Option.some.injEq, Prod.mk.injEq]
  -- Step for step the reader does what it did before.
  exact ⟨_, hheads head' _ hhead' hfollows, type', _, acceptWord?_eq_some_iff.mpr ⟨rfl, hword⟩,
    t', _, accept?_eq_some_iff.mpr ⟨rfl, hident⟩, _, hangless angles' _ hangles' hfollows', sign',
    _, accept?_eq_some_iff.mpr ⟨rfl, hequal⟩, (content_eq_of_lexeme ht').symm, rfl⟩

/-- The keyword of a constant or static is passed over by its lexemes, and begins the tokens. -/
theorem skipBindingKeyword?_spec {ts rest : List Token} (h : skipBindingKeyword? ts = some rest) :
    ∃ t taken, ts = t :: (taken ++ rest) ∧
      (t.isWord (utf8 "const") = true ∧ taken = [] ∨ t.isWord (utf8 "static") = true) ∧
      ∀ t' taken' rest', t.lexeme = t'.lexeme → Alike taken taken' → Follows rest rest' →
        skipBindingKeyword? (t' :: (taken' ++ rest')) = some rest' := by
  unfold skipBindingKeyword? at h
  split at h
  · next t us hconst =>
    obtain rfl := Option.some.inj h
    obtain ⟨rfl, hword⟩ := acceptWord?_eq_some_iff.mp hconst
    refine ⟨t, [], rfl, .inl ⟨hword, rfl⟩, fun t' taken' rest' ht' htaken hrest => ?_⟩
    rw [isWord_eq_of_lexeme ht'] at hword
    rw [Alike.nil_iff.mp htaken, skipBindingKeyword?,
      acceptWord?_eq_some_iff.mpr ⟨rfl, hword⟩]
    rfl
  · next hconst =>
    obtain ⟨⟨t, us⟩, hstatic, hrest⟩ := Option.map_eq_some_iff.mp h
    obtain ⟨rfl, hword⟩ := acceptWord?_eq_some_iff.mp hstatic
    have hmut : afterWord (utf8 "mut") some us = some rest := by
      rw [← some_skipWord, ← hrest]
    obtain ⟨taken, rfl, hsame⟩ := (steady_some.afterWord (by decide)) hmut
    refine ⟨t, taken, rfl, .inr hword, fun t' taken' rest' ht' htaken hfollows => ?_⟩
    -- `static` is asked for only where `const` is not, on both sides.
    have hconst' : acceptWord? (utf8 "const") (t' :: (taken' ++ rest')) = none :=
      (Follows.cons ht' (by rw [kind_of_isWord hword]; decide)).isNone_acceptWord? (by decide)
        hconst
    rw [isWord_eq_of_lexeme ht'] at hword
    have hmut' := hsame taken' rest' htaken hfollows
    rw [← some_skipWord] at hmut'
    rw [skipBindingKeyword?, hconst', acceptWord?_eq_some_iff.mpr ⟨rfl, hword⟩]
    exact hmut'

/-- What leads to the type of a constant or static is read by its lexemes. -/
theorem leader_bindingLead? : Leader bindingLead? := by
  intro ts name rest h
  simp only [bindingLead?, Option.bind_eq_bind, Option.bind_eq_some_iff, Prod.exists,
    Option.some.injEq, Prod.mk.injEq] at h
  obtain ⟨us₁, hhead, us₂, hkeyword, t, us₃, hname, sign, rest, hsign, rfl, rfl⟩ := h
  obtain ⟨keyword, taken, rfl, hword, hkeywords⟩ := skipBindingKeyword?_spec hkeyword
  obtain ⟨rfl, hident⟩ := accept?_eq_some_iff.mp hname
  obtain ⟨rfl, hcolon⟩ := accept?_eq_some_iff.mp hsign
  obtain ⟨head, rfl, hheads⟩ := isHead_skipItemHead?.steady hhead
  refine ⟨head ++ keyword :: (taken ++ [t, sign]), by simp,
    .inr ⟨sign, ⟨head ++ keyword :: (taken ++ [t]), by simp⟩, by rw [hcolon]; rfl⟩, ?_⟩
  -- As for aliases: the lead falls into the same pieces on the other side.
  intro lead' rest' hlead
  obtain ⟨head', us, rfl, hhead', hlead⟩ := Alike.append_iff.mp hlead
  obtain ⟨keyword', us, rfl, hkeyword', hlead⟩ := Alike.cons_iff.mp hlead
  obtain ⟨taken', us, rfl, htaken', hlead⟩ := Alike.append_iff.mp hlead
  obtain ⟨t', us, rfl, ht', hlead⟩ := Alike.cons_iff.mp hlead
  obtain ⟨sign', us, rfl, hsign', hlead⟩ := Alike.cons_iff.mp hlead
  obtain rfl := Alike.nil_iff.mp hlead
  -- The readers of the pieces look one token ahead, at the keyword and at the name.
  have hkind : keyword.kind = .identifier := by
    rcases hword with ⟨hword, -⟩ | hword
    · exact kind_of_isWord hword
    · exact kind_of_isWord hword
  have hfollows : Follows (keyword :: (taken ++ t :: sign :: rest))
      (keyword' :: (taken' ++ t' :: sign' :: rest')) :=
    Follows.cons hkeyword' (by rw [hkind]; decide)
  have hfollows' : Follows (t :: sign :: rest) (t' :: sign' :: rest') :=
    Follows.cons ht' (by rw [hident]; decide)
  rw [kind_eq_of_lexeme ht'] at hident
  rw [kind_eq_of_lexeme hsign'] at hcolon
  have hjoin : head' ++ keyword' :: (taken' ++ [t', sign']) ++ rest' =
      head' ++ keyword' :: (taken' ++ t' :: sign' :: rest') := by simp
  simp only [bindingLead?, hjoin, Option.bind_eq_bind, Option.bind_eq_some_iff, Prod.exists,
    Option.some.injEq, Prod.mk.injEq]
  exact ⟨_, hheads head' _ hhead' hfollows, _, hkeywords keyword' taken' _ hkeyword' htaken'
    hfollows', t', _, accept?_eq_some_iff.mpr ⟨rfl, hident⟩, sign', _,
    accept?_eq_some_iff.mpr ⟨rfl, hcolon⟩, (content_eq_of_lexeme ht').symm, rfl⟩

/-- An alias can be given another marker in the aliased type. -/
theorem frames_aliasParts? : Frames aliasParts? := by
  rw [aliasParts?_eq]
  exact frames_readTyped leader_aliasLead?
    (fun _ _ h => congrArg (fun l : Lexeme => l.kind == .semicolon) h)
    (fun _ => isSemicolon_eq_false) fun _ _ => acceptEnd?_of_alike

/-- A constant or static can be given another marker in its type. -/
theorem frames_bindingParts? : Frames bindingParts? := by
  rw [bindingParts?_eq]
  exact frames_readTyped leader_bindingLead?
    (fun _ _ h => congrArg (fun l : Lexeme => l.kind == .equal || l.kind == .semicolon) h)
    (fun _ => isTypeEnd_eq_false) fun _ _ => bindingEnd?_of_alike

end Shape

end CallConv
