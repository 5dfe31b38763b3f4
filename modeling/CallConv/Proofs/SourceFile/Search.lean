import Mathlib
import CallConv.SourceFile.Attribute

/-!
# What the search for attributes finds

Every function of the search answers with the tokens from a later point on. This module says what
lies between the two points: `search_found` takes an attribute, the white space after it and the
item apart, and `suffix_of_search` says that the search never leaves the tokens of the file.
-/

namespace CallConv

/-- What lies before the rest of some tokens was passed over. -/
@[simp]
theorem before_append (taken rest : List Token) : before (taken ++ rest) rest = taken := by
  simp [before]

/-- Tokens are the trivia in front of them and what follows it. -/
theorem takeWhile_append_dropTrivia (ts : List Token) :
    ts.takeWhile Token.isTrivia ++ dropTrivia ts = ts := List.takeWhile_append_dropWhile

/-- Tokens in front of which there is trivia. -/
theorem exists_of_dropTrivia {ts rest : List Token} (h : dropTrivia ts = rest) :
    ∃ trivia, ts = trivia ++ rest ∧ ∀ t ∈ trivia, t.isTrivia = true :=
  ⟨ts.takeWhile Token.isTrivia, by rw [← h, takeWhile_append_dropTrivia], fun _ ht =>
    List.mem_takeWhile_imp ht⟩

/-- Whether an item can end with tokens of a kind. -/
def TokenKind.isFinal (kind : TokenKind) : Bool := kind == .semicolon || kind.isClosing

/-- At depth zero nothing is passed over. -/
theorem skipDepth?_zero (ts : List Token) : skipDepth? 0 ts = some ts := by
  cases ts <;> rfl

/-- The tokens passed over to the point where the depth is zero close their last group. -/
theorem skipDepth?_spec {depth : Nat} {ts rest : List Token} (h : skipDepth? depth ts = some rest) :
    ∃ taken, ts = taken ++ rest ∧ skipDepth? depth taken = some [] ∧
      (depth ≠ 0 → ∃ t, [t] <:+ taken ∧ t.kind.isClosing = true) := by
  induction ts generalizing depth with
  | nil =>
    cases depth with
    | zero =>
      obtain rfl := Option.some.inj h
      exact ⟨[], rfl, rfl, fun hne => absurd rfl hne⟩
    | succ depth => simp [skipDepth?] at h
  | cons t ts ih =>
    cases depth with
    | zero =>
      obtain rfl := Option.some.inj h
      exact ⟨[], rfl, rfl, fun hne => absurd rfl hne⟩
    | succ depth =>
      -- A closing token stays the last one with a token in front.
      have hcons : ∀ taken, (∃ u, [u] <:+ taken ∧ u.kind.isClosing = true) →
          ∃ u, [u] <:+ t :: taken ∧ u.kind.isClosing = true := by
        rintro taken ⟨u, hu, hkind⟩
        exact ⟨u, hu.trans (List.suffix_cons t taken), hkind⟩
      simp only [skipDepth?] at h ⊢
      split at h
      · next hopen =>
        obtain ⟨taken, rfl, htaken, hlast⟩ := ih h
        refine ⟨t :: taken, rfl, ?_, fun _ => hcons taken (hlast (by omega))⟩
        simp only [skipDepth?, if_pos hopen, htaken]
      · next hopen =>
        split at h
        · next hclose =>
          obtain ⟨taken, rfl, htaken, hlast⟩ := ih h
          refine ⟨t :: taken, rfl, by simp only [skipDepth?, if_neg hopen, if_pos hclose, htaken],
            fun _ => ?_⟩
          rcases Nat.eq_zero_or_pos depth with rfl | hpos
          · -- The depth is back at zero, so that this token is the last one.
            obtain rfl : taken = [] := Option.some.inj ((skipDepth?_zero taken).symm.trans htaken)
            exact ⟨t, List.suffix_rfl, hclose⟩
          · exact hcons taken (hlast (by omega))
        · next hclose =>
          obtain ⟨taken, rfl, htaken, hlast⟩ := ih h
          refine ⟨t :: taken, rfl, ?_, fun _ => hcons taken (hlast (by omega))⟩
          simp only [skipDepth?, if_neg hopen, if_neg hclose, htaken]

namespace Attribute

/-- A path consists of its segments, separators and trivia. -/
def IsPath (segments : List Text) (ts : List Token) : Prop :=
  (ts.filter (·.kind == .identifier)).map Token.content = segments ∧
    ∀ t ∈ ts, t.isTrivia = true ∨ t.kind = .identifier ∨ t.kind = .pathSeparator

/-- The segments of two paths in a row are those of the one and then those of the other. -/
theorem IsPath.append {segments segments' : List Text} {ts ts' : List Token}
    (h : IsPath segments ts) (h' : IsPath segments' ts') :
    IsPath (segments ++ segments') (ts ++ ts') := by
  refine ⟨?_, fun t ht => (List.mem_append.mp ht).elim (h.2 t) (h'.2 t)⟩
  rw [List.filter_append, List.map_append, h.1, h'.1]

/-- Trivia is a path without segments. -/
theorem isPath_trivia {trivia : List Token} (h : ∀ t ∈ trivia, t.isTrivia = true) :
    IsPath [] trivia := by
  refine ⟨?_, fun t ht => .inl (h t ht)⟩
  rw [List.map_eq_nil_iff, List.filter_eq_nil_iff]
  intro t ht hkind
  have htrivia := h t ht
  rw [Token.isTrivia, beq_iff_eq.mp hkind] at htrivia
  exact absurd htrivia (by decide)

/-- A segment is a path. -/
theorem isPath_segment {t : Token} (h : t.kind = .identifier) : IsPath [t.content] [t] :=
  ⟨by simp [h], by simp [h]⟩

/-- A separator is a path without segments. -/
theorem isPath_separator {t : Token} (h : t.kind = .pathSeparator) : IsPath [] [t] :=
  ⟨by simp [h], by simp [h]⟩

/-- The tokens of a path in their order: segments with separators between them, and trivia in front
of each. A separator may end the path. -/
inductive Segmented : List Text → List Token → Prop
  | nil {trivia : List Token} (htrivia : ∀ t ∈ trivia, t.isTrivia = true) : Segmented [] trivia
  | last {trivia : List Token} {t : Token} (htrivia : ∀ t ∈ trivia, t.isTrivia = true)
      (hkind : t.kind = .identifier) : Segmented [t.content] (trivia ++ [t])
  | more {trivia trivia' ts : List Token} {t separator : Token} {segments : List Text}
      (htrivia : ∀ t ∈ trivia, t.isTrivia = true) (hkind : t.kind = .identifier)
      (htrivia' : ∀ t ∈ trivia', t.isTrivia = true) (hseparator : separator.kind = .pathSeparator)
      (hsegments : Segmented segments ts) :
      Segmented (t.content :: segments) (trivia ++ t :: trivia' ++ separator :: ts)

/-- The tokens of a path are a path. -/
theorem Segmented.isPath {segments : List Text} {ts : List Token} (h : Segmented segments ts) :
    IsPath segments ts := by
  induction h with
  | nil htrivia => exact isPath_trivia htrivia
  | last htrivia hkind => exact (isPath_trivia htrivia).append (isPath_segment hkind)
  | @more trivia trivia' ts t separator segments htrivia hkind htrivia' hseparator _ ih =>
    have hsplit : trivia ++ t :: trivia' ++ separator :: ts =
        trivia ++ ([t] ++ (trivia' ++ ([separator] ++ ts))) := by simp
    rw [hsplit]
    exact (isPath_trivia htrivia).append ((isPath_segment hkind).append
      ((isPath_trivia htrivia').append ((isPath_separator hseparator).append ih)))

/-- Reading a path passes over the tokens of the path. -/
theorem exists_segmented (ts : List Token) :
    ∃ taken, ts = taken ++ (readPath ts).2 ∧ Segmented (readPath ts).1 taken := by
  fun_induction readPath ts with
  | case1 ts h =>
    obtain ⟨trivia, rfl, htrivia⟩ := exists_of_dropTrivia h
    exact ⟨trivia, rfl, .nil htrivia⟩
  | case2 ts t rest h hkind _ =>
    obtain ⟨trivia, rfl, htrivia⟩ := exists_of_dropTrivia h
    exact ⟨trivia ++ [t], by simp, .last htrivia hkind⟩
  | case3 ts t rest h hkind sep rest' h' hsep segments after hpath ih =>
    obtain ⟨trivia, rfl, htrivia⟩ := exists_of_dropTrivia h
    obtain ⟨trivia', rfl, htrivia'⟩ := exists_of_dropTrivia h'
    -- The rest of the path stands behind the separator.
    obtain ⟨taken, htaken, hsegments⟩ := ih
    rw [hpath] at htaken hsegments
    exact ⟨trivia ++ t :: trivia' ++ sep :: taken, by simp [htaken],
      .more htrivia hkind htrivia' hsep hsegments⟩
  | case4 ts t rest h hkind sep rest' h' hsep =>
    obtain ⟨trivia, rfl, htrivia⟩ := exists_of_dropTrivia h
    exact ⟨trivia ++ [t], by simp, .last htrivia hkind⟩
  | case5 ts t rest h hkind =>
    obtain ⟨trivia, rfl, htrivia⟩ := exists_of_dropTrivia h
    exact ⟨trivia, rfl, .nil htrivia⟩

/-- The tokens passed over by reading a path are a path. -/
theorem readPath_spec (ts : List Token) :
    ∃ taken, ts = taken ++ (readPath ts).2 ∧ IsPath (readPath ts).1 taken := by
  obtain ⟨taken, htaken, hsegments⟩ := exists_segmented ts
  exact ⟨taken, htaken, hsegments.isPath⟩

/-! ## Items -/

/-- The attributes of an item stand before the rest of it. -/
theorem suffix_of_skipItemAttributes? {ts rest : List Token}
    (h : skipItemAttributes? ts = some rest) : rest <:+ ts := by
  fun_induction skipItemAttributes? ts with
  | case1 ts h' =>
    obtain rfl := Option.some.inj h
    exact List.nil_suffix
  | case2 => simp at h
  | case3 ts hash inner h₁ _ bracket inner' h₂ _ after h₃ ih =>
    obtain ⟨trivia, rfl, -⟩ := exists_of_dropTrivia h₁
    obtain ⟨trivia', rfl, -⟩ := exists_of_dropTrivia h₂
    obtain ⟨taken, rfl, -⟩ := skipDepth?_spec h₃
    exact (ih h).trans ⟨trivia ++ hash :: trivia' ++ bracket :: taken, by simp⟩
  | case4 => simp at h
  | case5 => simp at h
  | case6 ts hash inner h₁ _ =>
    obtain rfl := Option.some.inj h
    obtain ⟨trivia, rfl, -⟩ := exists_of_dropTrivia h₁
    exact List.suffix_append _ _

/-- The body of an item ends with a semicolon or with a closing bracket. -/
theorem skipItemBody?_spec {needsSemicolon : Bool} {depth : Nat} {ts rest : List Token}
    (h : skipItemBody? needsSemicolon depth ts = some rest) :
    ∃ taken, ts = taken ++ rest ∧ ∃ t, [t] <:+ taken ∧ t.kind.isFinal = true := by
  induction ts generalizing depth with
  | nil => cases depth <;> simp [skipItemBody?] at h
  | cons t ts ih =>
    -- In all cases but the semicolon the item goes on, and its end is that of the rest.
    have hcons : (∃ taken, ts = taken ++ rest ∧ ∃ u, [u] <:+ taken ∧ u.kind.isFinal = true) →
        ∃ taken, t :: ts = taken ++ rest ∧ ∃ u, [u] <:+ taken ∧ u.kind.isFinal = true := by
      rintro ⟨taken, rfl, u, hu, hkind⟩
      exact ⟨t :: taken, rfl, u, hu.trans (List.suffix_cons t taken), hkind⟩
    cases depth with
    | zero =>
      simp only [skipItemBody?] at h
      split at h
      · next hsemicolon =>
        obtain rfl := Option.some.inj h
        exact ⟨[t], rfl, t, List.suffix_rfl, by rw [hsemicolon]; rfl⟩
      · split at h
        · obtain ⟨taken, htaken, -, hlast⟩ := skipDepth?_spec h
          obtain ⟨u, hu, hclosing⟩ := hlast (by decide)
          exact hcons ⟨taken, htaken, u, hu, by rw [TokenKind.isFinal, hclosing, Bool.or_true]⟩
        · split at h
          · exact hcons (ih h)
          · split at h
            · simp at h
            · exact hcons (ih h)
    | succ depth =>
      simp only [skipItemBody?] at h
      split at h
      · exact hcons (ih h)
      · split at h
        · exact hcons (ih h)
        · exact hcons (ih h)

/-- An item is not empty, and ends with a semicolon or with a closing bracket. -/
theorem skipItem?_spec {ts rest : List Token} (h : skipItem? ts = some rest) :
    ∃ item, ts = item ++ rest ∧ ∃ t, [t] <:+ item ∧ t.kind.isFinal = true := by
  obtain ⟨body, hbody, h⟩ := Option.bind_eq_some_iff.mp h
  obtain ⟨taken, rfl, t, ht, hkind⟩ := skipItemBody?_spec h
  obtain ⟨front, rfl⟩ := suffix_of_skipItemAttributes? hbody
  exact ⟨front ++ taken, by simp, t, ht.trans (List.suffix_append front taken), hkind⟩

/-! ## Attributes -/

/-- The tokens of an `abi` attribute that begins at `location`, from its hash to its closing
bracket: a known path and arguments in parentheses, with trivia around them. -/
def Written (location : Cursor) (ts : List Token) : Prop :=
  ∃ hash bracket paren closing trivia path enclosed trivia' segments,
    ts = hash :: trivia ++ bracket :: path ++ paren :: enclosed ++ trivia' ++ [closing] ∧
      hash.kind = .hash ∧ hash.location = location ∧ bracket.kind = .bracketLeft ∧
      isKnown segments = true ∧ IsPath segments path ∧ paren.kind = .parenLeft ∧
      skipDepth? 1 enclosed = some [] ∧ closing.kind = .bracketRight ∧
      ∀ t ∈ trivia ++ trivia', t.isTrivia = true

/-- What the search needs of the tokens behind an attribute: white space, and an item that does not
begin with any. -/
structure Followed (blanks item rest : List Token) : Prop where
  /-- The white space goes away with the attribute. -/
  blank : ∀ t ∈ blanks, t.isBlank = true
  /-- All of the white space does. -/
  head : ∀ t ∈ item.head?, t.isBlank = false
  /-- The item ends where one that begins there does. -/
  ends : skipItem? (item ++ rest) = some rest
  /-- The item ends with a semicolon or with a closing bracket. -/
  last : ∃ t, [t] <:+ item ∧ t.kind.isFinal = true

/-- An item that is not empty begins with the token that the tokens from it on begin with. -/
theorem head?_append_of_last {item : List Token} {t : Token} (rest : List Token)
    (h : [t] <:+ item) :
    (item ++ rest).head? = item.head? := by
  have hne : item ≠ [] := by
    rintro rfl
    simp at h
  exact List.head?_append_of_ne_nil _ hne

/-- The tokens behind the path of an `abi` attribute, besides its arguments. -/
structure Ending where
  /-- Trivia behind the path. -/
  afterPath : List Token
  /-- The opening parenthesis. -/
  paren : Token
  /-- What closes the group of the arguments. -/
  close : Token
  /-- Trivia behind the arguments. -/
  afterClose : List Token
  /-- The closing bracket. -/
  last : Token

/-- The tokens of an `abi` attribute, from its hash to its closing bracket, besides its
arguments. -/
structure Spelling extends Ending where
  /-- The hash. -/
  hash : Token
  /-- Trivia behind the hash. -/
  afterHash : List Token
  /-- The opening bracket. -/
  bracket : Token
  /-- The path. -/
  path : List Token

/-- The end of an attribute with the given arguments. -/
def Ending.tokens (e : Ending) (arguments : List Token) : List Token :=
  e.afterPath ++ e.paren :: (arguments ++ [e.close]) ++ e.afterClose ++ [e.last]

/-- The tokens of an attribute with the given arguments. -/
def Spelling.tokens (s : Spelling) (arguments : List Token) : List Token :=
  s.hash :: s.afterHash ++ s.bracket :: s.path ++ s.toEnding.tokens arguments

/-- What the search checks behind the path of an attribute. -/
structure Ending.Ends (e : Ending) (a : AnnotatedItem) : Prop where
  /-- Trivia may stand between the path and the arguments. -/
  afterPath : ∀ t ∈ e.afterPath, t.isTrivia = true
  /-- A parenthesis opens the arguments. -/
  paren : e.paren.kind = .parenLeft
  /-- The group of the arguments ends where its depth is back at zero. -/
  depth : skipDepth? 1 (a.arguments ++ [e.close]) = some []
  /-- A bracket of any kind closes the arguments. -/
  close : e.close.kind.isClosing = true
  /-- The arguments end where it stands. -/
  finish : e.close.location = a.finish
  /-- Trivia may stand between the arguments and the bracket. -/
  afterClose : ∀ t ∈ e.afterClose, t.isTrivia = true
  /-- A bracket ends the attribute. -/
  last : e.last.kind = .bracketRight

/-- What the search checks of an attribute. -/
structure Spelling.Spells (s : Spelling) (a : AnnotatedItem) : Prop where
  /-- The attribute begins with a hash. -/
  hash : s.hash.kind = .hash
  /-- It stands where its hash does. -/
  location : s.hash.location = a.location
  /-- Trivia may stand between the hash and the bracket. -/
  afterHash : ∀ t ∈ s.afterHash, t.isTrivia = true
  /-- A bracket follows the hash. -/
  bracket : s.bracket.kind = .bracketLeft
  /-- The path is one of those known for the attribute. -/
  path : ∃ segments, isKnown segments = true ∧ Segmented segments s.path
  /-- The attribute goes on behind the path. -/
  ends : s.toEnding.Ends a

/-- An attribute that the search finds is written as one. -/
theorem Spelling.Spells.written {s : Spelling} {a : AnnotatedItem} (h : s.Spells a) :
    Written a.location (s.tokens a.arguments) := by
  obtain ⟨segments, hsegments, hpath⟩ := h.path
  -- Trivia before the parenthesis counts as a part of the path.
  have happend := hpath.isPath.append (isPath_trivia h.ends.afterPath)
  rw [List.append_nil] at happend
  exact ⟨s.hash, s.bracket, s.paren, s.last, s.afterHash, s.path ++ s.afterPath,
    a.arguments ++ [s.close], s.afterClose, segments, by simp [tokens, Ending.tokens], h.hash,
    h.location, h.bracket, hsegments, happend, h.ends.paren, h.ends.depth, h.ends.last,
    fun t ht => (List.mem_append.mp ht).elim (h.afterHash t) (h.ends.afterClose t)⟩

/-- An attribute is found with its arguments, its closing bracket and its item. -/
theorem finish_found {location : Cursor} {ts rest : List Token} {a : AnnotatedItem}
    (h : finish location ts = .found a rest) :
    ∃ (e : Ending) (blanks : List Token),
      ts = e.tokens a.arguments ++ blanks ++ a.item ++ rest ∧ a.location = location ∧ e.Ends a ∧
        Followed blanks a.item rest := by
  unfold finish at h
  split at h
  · simp at h
  · next paren arguments hparen =>
    split at h
    · next hkind =>
      split at h
      · simp at h
      · next afterArguments hargs =>
        split at h
        · simp at h
        · next last afterAttribute hlast =>
          split at h
          · next hbracket =>
            simp only at h
            split at h
            · simp at h
            · next rest' hitem =>
              -- All checks passed: the tokens are cut where the steps of the search left off.
              obtain ⟨trivia, rfl, htrivia⟩ := exists_of_dropTrivia hparen
              obtain ⟨enclosed, rfl, henclosed, hclose⟩ := skipDepth?_spec hargs
              obtain ⟨close, ⟨inner, rfl⟩, hclosing⟩ := hclose one_ne_zero
              obtain ⟨trivia', rfl, htrivia'⟩ := exists_of_dropTrivia hlast
              obtain ⟨item, heq, t, ht, hfinal⟩ := skipItem?_spec hitem
              simp only [Finding.found.injEq, before_append, List.dropLast_concat,
                List.getLast?_concat, Option.map_some, Option.getD_some] at h
              obtain ⟨rfl, rfl⟩ := h
              have htaken : before (afterAttribute.dropWhile Token.isBlank) rest' = item := by
                rw [heq, before_append]
              have hsplit : afterAttribute =
                  afterAttribute.takeWhile Token.isBlank ++ (item ++ rest') := by
                rw [← heq, List.takeWhile_append_dropWhile]
              rw [heq] at hitem
              -- The white space was taken as far as it goes.
              have hhead : ∀ t ∈ item.head?, t.isBlank = false := by
                intro u hu
                rw [← head?_append_of_last rest' ht, ← heq] at hu
                have := List.head?_dropWhile_not Token.isBlank afterAttribute
                rw [hu] at this
                simpa using this
              refine ⟨⟨trivia, paren, close, trivia', last⟩,
                afterAttribute.takeWhile Token.isBlank, ?_, rfl,
                ⟨htrivia, hkind, henclosed, hclosing, rfl, htrivia', hbracket⟩, ?_⟩
              · simp only [htaken, Ending.tokens]
                conv_lhs => rw [hsplit]
                simp
              · simp only [htaken]
                exact ⟨fun t ht => List.mem_takeWhile_imp ht, hhead, hitem, t, ht, hfinal⟩
          · simp at h
    · simp at h

/-- What the search finds stands behind trivia: an attribute as it is spelled, white space, and an
item. -/
theorem search_spells {ts rest : List Token} {a : AnnotatedItem} (h : search ts = .found a rest) :
    ∃ (s : Spelling) (blanks : List Token),
      dropTrivia ts = s.tokens a.arguments ++ blanks ++ a.item ++ rest ∧ s.Spells a ∧
        Followed blanks a.item rest := by
  unfold search at h
  split at h
  · simp at h
  · next hash inner hhash =>
    split at h
    · next hkind =>
      split at h
      · next bracket inner' hbracket =>
        split at h
        · next hbracketKind =>
          simp only at h
          split at h
          · next hpath =>
            obtain ⟨trivia, rfl, htrivia⟩ := exists_of_dropTrivia hbracket
            obtain ⟨path, hsplit, hsegmented⟩ := exists_segmented inner'
            obtain ⟨e, blanks, hafter, hlocation, hends, hfollowed⟩ := finish_found h
            refine ⟨⟨e, hash, trivia, bracket, path⟩, blanks, ?_, ⟨hkind, hlocation.symm, htrivia,
              hbracketKind, ⟨_, hpath, hsegmented⟩, hends⟩, hfollowed⟩
            rw [hhash, hsplit, hafter]
            simp [Spelling.tokens]
          · simp at h
        · simp at h
      · simp at h
    · simp at h

/-- What the search finds stands behind trivia: an attribute, white space, and an item. -/
theorem search_found {ts rest : List Token} {a : AnnotatedItem} (h : search ts = .found a rest) :
    ∃ attr blanks,
      ts = ts.takeWhile Token.isTrivia ++ attr ++ blanks ++ a.item ++ rest ∧
        Written a.location attr ∧ Followed blanks a.item rest := by
  obtain ⟨s, blanks, hdrop, hspells, hfollowed⟩ := search_spells h
  refine ⟨s.tokens a.arguments, blanks, ?_, hspells.written, hfollowed⟩
  conv_lhs => rw [← takeWhile_append_dropTrivia ts, hdrop]
  simp

/-- The tokens after a path are the last ones of those before it. -/
theorem suffix_of_readPath (ts : List Token) : (readPath ts).2 <:+ ts := by
  obtain ⟨taken, htaken, -⟩ := readPath_spec ts
  exact ⟨taken, htaken.symm⟩

/-- Behind trivia stand the last of some tokens. -/
theorem suffix_of_dropTrivia {ts rest : List Token} (h : dropTrivia ts = rest) : rest <:+ ts :=
  h ▸ List.dropWhile_suffix _

/-- The search goes on with the last of the tokens after the path of an attribute. -/
theorem suffix_of_finish {location : Cursor} {ts rest : List Token}
    (h : (finish location ts).rest? = some rest) : rest <:+ ts := by
  cases hfinding : finish location ts with
  | finished => simp [hfinding, Finding.rest?] at h
  | found a rest' =>
    obtain rfl : rest' = rest := by simpa [hfinding, Finding.rest?] using h
    obtain ⟨e, blanks, heq, -⟩ := finish_found hfinding
    rw [heq]
    exact List.suffix_append _ _
  | passed error? rest' =>
    obtain rfl : rest' = rest := by simpa [hfinding, Finding.rest?] using h
    -- After a failure the search goes on behind what was read, or not at all.
    unfold finish at hfinding
    split at hfinding
    · simp only [Finding.passed.injEq] at hfinding
      exact hfinding.2 ▸ List.nil_suffix
    · next paren arguments hparen =>
      have hinner : arguments <:+ ts := (List.suffix_cons _ _).trans (suffix_of_dropTrivia hparen)
      split at hfinding
      · split at hfinding
        · simp only [Finding.passed.injEq] at hfinding
          exact hfinding.2 ▸ List.nil_suffix
        · next afterArguments hargs =>
          obtain ⟨taken, htaken, -⟩ := skipDepth?_spec hargs
          have hafter : afterArguments <:+ ts := List.IsSuffix.trans ⟨taken, htaken.symm⟩ hinner
          split at hfinding
          · simp only [Finding.passed.injEq] at hfinding
            exact hfinding.2 ▸ hafter
          · split at hfinding
            · simp only at hfinding
              split at hfinding
              · simp only [Finding.passed.injEq] at hfinding
                exact hfinding.2 ▸ List.nil_suffix
              · simp at hfinding
            · simp only [Finding.passed.injEq] at hfinding
              exact hfinding.2 ▸ hafter
      · simp only [Finding.passed.injEq] at hfinding
        exact hfinding.2 ▸ suffix_of_dropTrivia hparen

/-- The search goes on with the last of the tokens. -/
theorem suffix_of_search {ts rest : List Token} (h : (search ts).rest? = some rest) :
    rest <:+ ts := by
  unfold search at h
  split at h
  · simp [Finding.rest?] at h
  · next hash inner hhash =>
    have hinner : inner <:+ ts := (List.suffix_cons _ _).trans (suffix_of_dropTrivia hhash)
    split at h
    · split at h
      · next bracket inner' hbracket =>
        have hinner' : inner' <:+ ts :=
          ((List.suffix_cons _ _).trans (suffix_of_dropTrivia hbracket)).trans hinner
        split at h
        · simp only at h
          split at h
          · exact ((suffix_of_finish h).trans (suffix_of_readPath inner')).trans hinner'
          · exact Option.some.inj h ▸ hinner'
        · exact Option.some.inj h ▸ hinner
      · exact Option.some.inj h ▸ hinner
    · exact Option.some.inj h ▸ hinner

end Attribute

end CallConv
