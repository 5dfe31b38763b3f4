import Mathlib
import CallConv.Proofs.Token.Seam

/-!
# Putting lexed texts together

Where the last token of one text and the first byte of another make a seam, the tokens of the two
texts together are those of the first and then those of the second. Tokens that end with a
delimiter make a seam with every byte, white space makes one with everything that is not white
space, and the few other seams that changing a marker needs are between fixed tokens.
-/

namespace CallConv

/-- The token of an apostrophe that begins neither a lifetime nor a character literal. -/
def Lexeme.stray : Lexeme := ⟨.unassigned, [Byte.apostrophe]⟩

/-- No stray apostrophe stands directly before a backslash. -/
def Calm (ls : List Lexeme) : Prop :=
  ls.IsChain fun l l' => ¬ (l = Lexeme.stray ∧ l'.content.head? = some Byte.backslash)

/-- Calmness of given lexemes can be decided. -/
instance Calm.instDecidable (ls : List Lexeme) : Decidable (Calm ls) :=
  inferInstanceAs (Decidable (ls.IsChain _))

/-- Lexemes without unassigned ones are calm. -/
theorem Calm.of_assigned {ls : List Lexeme} (h : ∀ l ∈ ls, l.kind ≠ .unassigned) : Calm ls := by
  refine List.isChain_iff_forall_rel_of_append_cons_cons.mpr ?_
  rintro l l' before after rfl ⟨rfl, -⟩
  exact h Lexeme.stray (by simp) rfl

/-- A part of calm lexemes is calm. -/
theorem Calm.part {ls ls' : List Lexeme} (h : Calm ls) (hpart : ls' <:+: ls) : Calm ls' :=
  List.IsChain.infix h hpart

/-- The text `t` can follow the token `y` without changing `y` or a token before it. The last
condition is on stray apostrophes, of which there is one only if `strays` holds. -/
def Sealed (strays : Prop) (y t : Text) : Prop :=
  ∀ c s, t = c :: s → (∃ a, Seam y a c) ∧ (c = Byte.apostrophe → strays → 2 ≤ y.length)

namespace Lexed

variable {ls ls' : List Lexeme} {y : Lexeme}

/-- No rule finds a token that reaches beyond the first lexeme. -/
theorem size?_le (h : Lexed (ls ++ ls')) (hne : ls ≠ []) {rule : Rule} {n : Nat}
    (hrule : rule ∈ Rule.all) (hn : rule.size? (Lexeme.join (ls ++ ls')) = some n) :
    n ≤ (Lexeme.join ls).length := by
  rcases ls with _ | ⟨l, ls⟩
  · exact absurd rfl hne
  · have := h.1.size?_le hrule hn
    rw [Lexeme.join_cons, List.length_append]
    omega

/-- The lexemes of two texts with a seam between them are those of the two texts together. -/
theorem append (h : Lexed (ls ++ [y])) (h' : Lexed ls') (hcalm : Calm (ls ++ [y]))
    (hseal : Sealed (Lexeme.stray ∈ ls) y.content (Lexeme.join ls')) :
    Lexed (ls ++ [y] ++ ls') := by
  induction ls with
  | nil =>
    refine ⟨?_, h'⟩
    show Begins y.kind y.content (Lexeme.join ls')
    cases ht : Lexeme.join ls' with
    | nil => exact h.1
    | cons c s =>
      obtain ⟨⟨a, hseam⟩, -⟩ := hseal c s ht
      exact hseam.begins h.1 (.inl (List.append_nil _).symm) (fun hne => absurd rfl hne)
        (fun _ hx => absurd hx hseam.stray)
  | cons l ls ih =>
    obtain ⟨hnext, hcalm'⟩ := List.isChain_cons.mp hcalm
    have htail : Lexed (ls ++ [y] ++ ls') := ih h.2 hcalm' fun c s ht =>
      ⟨(hseal c s ht).1, fun hc hmem => (hseal c s ht).2 hc (List.mem_cons_of_mem l hmem)⟩
    refine ⟨?_, htail⟩
    have hb : Begins l.kind l.content (Lexeme.join (ls ++ [y])) := h.1
    show Begins l.kind l.content (Lexeme.join (ls ++ [y] ++ ls'))
    rw [Lexeme.join_append]
    cases ht : Lexeme.join ls' with
    | nil =>
      rw [List.append_nil]
      exact hb
    | cons c s =>
      obtain ⟨⟨a, hseam⟩, hquote⟩ := hseal c s ht
      have hsuffix : y.content <:+ Lexeme.join (ls ++ [y]) := by
        rw [Lexeme.join_append, Lexeme.join_cons, Lexeme.join_nil, List.append_nil]
        exact List.suffix_append _ _
      -- Character literals are the one rule that needs to know how the tokens behind are cut.
      refine hseam.begins hb (.inr hsuffix) (fun _ n hn => ?_) (fun hkind hx => ?_)
      · rw [← ht, ← Lexeme.join_append] at hn
        exact htail.size?_le (by simp)
          (by simp [Rule.all] : ⟨.character, Rule.characterSize?⟩ ∈ Rule.all) hn
      · have hstray : l = Lexeme.stray := by
          rw [Lexeme.stray, ← hkind, ← hx]
        refine ⟨?_, fun hc => (hquote hc (by simp [hstray])).trans hsuffix.length_le⟩
        -- The text behind the stray apostrophe begins with the lexeme behind it.
        obtain ⟨l', rest, hcons⟩ := List.exists_cons_of_ne_nil (by simp : ls ++ [y] ≠ [])
        have hne := h.2.content_ne_nil (l := l') (by
          show l' ∈ ls ++ [y]
          rw [hcons]
          exact List.mem_cons_self)
        intro hhead
        rw [hcons, Lexeme.join_cons, List.head?_append_of_ne_nil _ hne] at hhead
        refine hnext l' ?_ ⟨hstray, hhead⟩
        show l' ∈ (ls ++ [y]).head?
        rw [hcons]
        rfl

/-- Without unassigned lexemes there are no stray apostrophes, and only the seam matters. -/
theorem append_assigned (h : Lexed ls) (hassigned : ∀ l ∈ ls, l.kind ≠ .unassigned)
    (h' : Lexed ls')
    (hseal : ∀ us y, ls = us ++ [y] → Sealed False y.content (Lexeme.join ls')) :
    Lexed (ls ++ ls') := by
  rcases List.eq_nil_or_concat ls with rfl | ⟨us, y, rfl⟩
  · exact h'
  · rw [List.concat_eq_append] at h hassigned hseal ⊢
    refine append h h' (Calm.of_assigned hassigned) fun c s ht => ?_
    obtain ⟨hseam, -⟩ := hseal us y rfl c s ht
    refine ⟨hseam, fun _ hmem => absurd rfl (hassigned Lexeme.stray ?_)⟩
    exact List.mem_append_left _ hmem

/-- A lexeme that is sealed before lexed ones can be put in front of them. -/
theorem cons {l : Lexeme} (h : Begins l.kind l.content [])
    (hassigned : l.kind ≠ .unassigned) (hseal : Sealed False l.content (Lexeme.join ls))
    (hls : Lexed ls) : Lexed (l :: ls) := by
  rw [← List.singleton_append]
  refine append_assigned ⟨h, trivial⟩ (by simpa using hassigned) hls fun us y hy => ?_
  obtain rfl : l = y := by simpa using congrArg List.getLast? hy
  exact hseal

end Lexed

/-! ## Tokens that end with a delimiter -/

namespace Rule

/-- The end of a string literal is its closing quote. -/
theorem quote_suffix_of_stringEnd? {t : Text} {n : Nat} (h : stringEnd? t = some n) :
    [Byte.quote] <:+ t.take n := by
  fun_induction stringEnd? t generalizing n with
  | case1 => simp at h
  | case2 t =>
    obtain rfl := Option.some.inj h
    exact List.suffix_rfl
  | case3 => simp at h
  | case4 c t hne ih =>
    obtain ⟨m, hm, rfl⟩ := Option.map_eq_some_iff.mp h
    exact (ih hm).trans ⟨[Byte.backslash, c], rfl⟩
  | case5 b t hquote hescape ih =>
    obtain ⟨m, hm, rfl⟩ := Option.map_eq_some_iff.mp h
    exact (ih hm).trans ⟨[b], rfl⟩

/-- The end of a block comment is a slash. -/
theorem slash_suffix_of_blockCommentEnd? {depth : Nat} {t : Text} {n : Nat}
    (h : blockCommentEnd? depth t = some n) : [Byte.slash] <:+ t.take n := by
  fun_induction blockCommentEnd? depth t generalizing n with
  | case1 depth a b t hopen ih =>
    obtain ⟨m, hm, rfl⟩ := Option.map_eq_some_iff.mp h
    exact (ih hm).trans ⟨[a, b], rfl⟩
  | case2 depth a b t hopen hclose hdepth =>
    obtain rfl := Option.some.inj h
    obtain ⟨rfl, rfl⟩ := hclose
    exact ⟨[Byte.star], rfl⟩
  | case3 depth a b t hopen hclose hdepth ih =>
    obtain ⟨m, hm, rfl⟩ := Option.map_eq_some_iff.mp h
    exact (ih hm).trans ⟨[a, b], rfl⟩
  | case4 depth a b t hopen hclose ih =>
    obtain ⟨m, hm, rfl⟩ := Option.map_eq_some_iff.mp h
    exact (ih hm).trans ⟨[a], rfl⟩
  | case5 => simp at h

/-- A text stands where it is found. -/
theorem prefix_drop_of_indexOf? {needle t : Text} {k : Nat} (h : Text.indexOf? needle t = some k) :
    needle <+: t.drop k := by
  induction t generalizing k with
  | nil =>
    rw [Text.indexOf?] at h
    split at h
    · next hne => simp [hne]
    · simp at h
  | cons b t ih =>
    rw [Text.indexOf?] at h
    split at h
    · next hp =>
      obtain rfl := Option.some.inj h
      exact List.isPrefixOf_iff_prefix.mp hp
    · obtain ⟨m, hm, rfl⟩ := Option.map_eq_some_iff.mp h
      exact ih hm

end Rule

/-- Whether tokens of a kind end with a delimiter or are one. -/
def TokenKind.isClosed : TokenKind → Bool
  | newline | blockComment | string | rawString | character | braceLeft | braceRight | bracketLeft
  | bracketRight | parenLeft | parenRight | comma | semicolon => true
  | _ => false

namespace Begins

open Rule

variable {kind : TokenKind} {x r : Text}

/-- The token of a single word is the word. -/
theorem eq_utf8 {word : String} (h : Begins kind x r) (hrule : exactly kind word ∈ all) :
    x = utf8 word := by
  have hsize : (exactly kind word).size? x = some x.length := h.size?_self hrule
  simp only [exactly] at hsize
  split at hsize
  · next hpre =>
    have hlen := Option.some.inj hsize
    exact ((List.isPrefixOf_iff_prefix.mp hpre).eq_of_length hlen).symm
  · simp at hsize

/-- A string literal begins with a quote that may be marked, and ends with one. -/
theorem string_ends (h : Begins .string x r) :
    ∃ mark t, IsMark mark ∧ x = mark ++ Byte.quote :: t ∧ [Byte.quote] <:+ t := by
  have hsize : stringSize? x = some x.length := h.size?_self (by simp [all])
  rw [stringSize?_eq_markedSize?] at hsize
  obtain ⟨mark, t, k, hmark, heq, hk, hlen⟩ := (markedSize?_eq_some_iff (by decide)).mp hsize
  refine ⟨mark, t, hmark, heq, ?_⟩
  have hend := quote_suffix_of_stringEnd? hk
  rw [List.take_of_length_le] at hend
  · exact hend
  · rw [heq, List.length_append, List.length_cons] at hlen
    omega

/-- A character literal begins with an apostrophe that may be marked, and ends with one. -/
theorem character_ends (h : Begins .character x r) :
    ∃ mark t, IsMark mark ∧ x = mark ++ Byte.apostrophe :: t ∧ [Byte.apostrophe] <:+ t := by
  have hsize : characterSize? x = some x.length := h.size?_self (by simp [all])
  rw [characterSize?_eq_markedSize?] at hsize
  obtain ⟨mark, t, k, hmark, heq, hk, hlen⟩ := (markedSize?_eq_some_iff (by decide)).mp hsize
  obtain ⟨body, rest, -, rfl, rfl⟩ := characterEnd?_eq_some_iff.mp hk
  obtain rfl : rest = [] := by
    simp only [heq, List.length_append, List.length_cons] at hlen
    exact List.eq_nil_of_length_eq_zero (by omega)
  exact ⟨mark, body ++ [Byte.apostrophe], hmark, heq, List.suffix_append _ _⟩

/-- A raw string literal is its opening, a body, and its closing. -/
theorem rawString_parts (h : Begins .rawString x r) :
    ∃ mark hashes body, IsMark mark ∧ x = rawOpening mark hashes ++ body ++ rawClosing hashes := by
  have hsize : rawStringSize? x = some x.length := h.size?_self (by simp [all])
  obtain ⟨mark, hashes, rest, k, hmark, rfl, hk, hlen⟩ := rawStringSize?_eq_some_iff.mp hsize
  -- The closing is the last thing found in the literal.
  have hclosing : rawClosing hashes = rest.drop k := by
    refine (prefix_drop_of_indexOf? hk).eq_of_length ?_
    rw [List.length_append] at hlen
    rw [List.length_drop]
    omega
  refine ⟨mark, hashes, rest.take k, hmark, ?_⟩
  rw [hclosing, List.append_assoc, List.take_append_drop]

/-- A raw string literal begins with the letter that may be marked, and ends with a quote or with
a hash behind a quote. -/
theorem rawString_ends (h : Begins .rawString x r) :
    ∃ mark t, IsMark mark ∧ x = mark ++ 0x72 :: t ∧
      ([Byte.quote] <:+ t ∨ [Byte.hash] <:+ t ∧ Byte.quote ∈ t) := by
  obtain ⟨mark, hashes, body, hmark, rfl⟩ := h.rawString_parts
  refine ⟨mark, List.replicate hashes Byte.hash ++ [Byte.quote] ++ body ++ rawClosing hashes,
    hmark, by simp [rawOpening], ?_⟩
  -- Without hashes the quote is last, else a hash is.
  rcases hashes with _ | hashes
  · exact .inl (List.suffix_append _ _)
  · refine .inr ⟨List.IsSuffix.trans ?_ (List.suffix_append _ _), by simp [rawClosing]⟩
    rw [rawClosing, List.replicate_succ']
    exact ⟨Byte.quote :: List.replicate hashes Byte.hash, rfl⟩

/-- A block comment begins with its opening, and ends with a slash. -/
theorem blockComment_ends (h : Begins .blockComment x r) :
    utf8 "/*" <+: x ∧ [Byte.slash] <:+ x := by
  have hsize : blockCommentSize? x = some x.length := h.size?_self (by simp [all])
  unfold blockCommentSize? at hsize
  split at hsize
  · next hpre =>
    have hend := slash_suffix_of_blockCommentEnd? hsize
    rw [List.take_length] at hend
    exact ⟨List.isPrefixOf_iff_prefix.mp hpre, hend⟩
  · simp at hsize

end Begins

/-- A token of a single word that stands among others is the word. -/
theorem Lexed.content_of_word {ls : List Lexeme} {l : Lexeme} {kind : TokenKind} {word : String}
    (h : Lexed ls) (hl : l ∈ ls) (hkind : l.kind = kind)
    (hrule : Rule.exactly kind word ∈ Rule.all) : l.content = utf8 word := by
  obtain ⟨before, after, rfl⟩ := List.append_of_mem hl
  have hbegins := h.begins
  rw [hkind] at hbegins
  exact hbegins.eq_utf8 hrule

namespace Seam

open Rule

variable {kind : TokenKind} {x r y : Text} {a c : UInt8}

/-- A token makes a seam with every byte when it begins with a byte of no operator or comment and
ends with a byte of no word or number. -/
theorem of_ends {b : UInt8} (hfirst : y.head? = some b) (hjoints : ∀ word ∈ joints, b ∉ word)
    (hends : [a] <:+ y) (hascii : a < 0x80) (hblank : isBlank a = true → isBlank c = false)
    (hnumber : Byte.isNumberPart a = false) (hhash : a = Byte.hash → Byte.quote ∈ y)
    (hstray : y ≠ [Byte.apostrophe]) : Seam y a c where
  ends := hends
  ascii := hascii
  blank := hblank
  number h := by simp [hnumber] at h
  apostrophe h := by simp [Byte.isNumberPart_of_isWordPart h] at hnumber
  mark h := by
    rcases h with rfl | rfl
    · exact absurd hnumber (by decide +kernel)
    · exact absurd hnumber (by decide +kernel)
  hash := hhash
  word word hword hpart :=
    hjoints word hword (hpart.subset (List.mem_append_left _ (List.mem_of_mem_head? hfirst)))
  comment hpre := by
    obtain ⟨t, rfl⟩ := hpre
    obtain rfl : Byte.slash = b := Option.some.inj hfirst
    exact hjoints (utf8 "//") (by decide) (by decide)
  stray := hstray

/-- A token that may be marked makes a seam with every byte when it ends with a closing byte. -/
theorem of_marked {mark t : Text} {b : UInt8} (hmark : IsMark mark)
    (hjoints : ∀ word ∈ joints, b ∉ word) (hends : [a] <:+ t) (hascii : a < 0x80)
    (hblank : isBlank a = false) (hnumber : Byte.isNumberPart a = false)
    (hhash : a = Byte.hash → Byte.quote ∈ t) : Seam (mark ++ b :: t) a c := by
  have hmem : a ∈ t := hends.subset (List.mem_singleton_self a)
  have hends' : [a] <:+ mark ++ b :: t :=
    hends.trans ((List.suffix_cons b t).trans (List.suffix_append _ _))
  have hhash' : a = Byte.hash → Byte.quote ∈ mark ++ b :: t := fun ha => by simp [hhash ha]
  have hlen : 2 ≤ (mark ++ b :: t).length := by
    have := List.length_pos_of_mem hmem
    simp only [List.length_append, List.length_cons]
    omega
  have hstray : mark ++ b :: t ≠ [Byte.apostrophe] := by
    intro heq
    rw [heq] at hlen
    simp at hlen
  have hblank' : isBlank a = true → isBlank c = false := fun h => by simp [hblank] at h
  -- The mark is a letter, which begins no operator and no comment either.
  rcases hmark with rfl | rfl
  · exact of_ends rfl hjoints hends' hascii hblank' hnumber hhash' hstray
  · exact of_ends rfl (by decide) hends' hascii hblank' hnumber hhash' hstray

/-- The delimiters of one byte. -/
def delimiters : Text := utf8 "\n\x7b\x7d[](),;"

/-- A token that is a delimiter of one byte makes a seam with every byte. -/
theorem of_delimiter {word : String} (h : Begins kind x r) (hrule : exactly kind word ∈ all)
    (ha : ∃ a ∈ delimiters, utf8 word = [a]) : ∃ a, ∀ c, Seam x a c := by
  obtain ⟨a, ha, hword⟩ := ha
  have hfacts : ∀ a ∈ delimiters, (∀ word ∈ joints, a ∉ word) ∧ a < 0x80 ∧ isBlank a = false ∧
      Byte.isNumberPart a = false ∧ a ≠ Byte.hash ∧ a ≠ Byte.apostrophe := by decide +kernel
  obtain ⟨hjoints, hascii, hblank, hnumber, hhash, hstray⟩ := hfacts a ha
  rw [h.eq_utf8 hrule, hword]
  exact ⟨a, fun c => of_ends rfl hjoints List.suffix_rfl hascii (fun h => by simp [hblank] at h)
    hnumber (fun ha => absurd ha hhash) (fun heq => hstray (List.cons.inj heq).1)⟩

/-- A block comment makes a seam with every byte. -/
theorem of_blockComment (h : Begins .blockComment x r) : Seam x Byte.slash c := by
  obtain ⟨⟨t, rfl⟩, hends⟩ := h.blockComment_ends
  have hnumber : Byte.isNumberPart Byte.slash = false := by decide +kernel
  constructor
  case ends => exact hends
  case ascii => decide
  case blank => exact fun h => absurd h (by decide)
  case number => exact fun h => absurd h (by rw [hnumber]; decide)
  case apostrophe =>
    intro h
    rw [Byte.isNumberPart_of_isWordPart h] at hnumber
    exact absurd hnumber (by decide)
  case mark => exact fun h => absurd h (by decide)
  case hash => exact fun h => absurd h (by decide)
  case word =>
    intro word hword hpart
    -- The only joint with the opening in it is the opening itself.
    have hopening : ∀ word ∈ joints, utf8 "/*" <:+: word → word.length = 2 := by decide
    have hlen := hpart.length_le
    rw [hopening word hword (List.IsInfix.trans ⟨[], t ++ [c], by simp⟩ hpart)] at hlen
    have htwo : (utf8 "/*").length = 2 := rfl
    simp only [List.length_append, List.length_singleton, htwo] at hlen
    omega
  case comment =>
    rintro ⟨u, hu⟩
    exact absurd (List.cons.inj (List.cons.inj hu).2).1 (by decide)
  case stray => exact fun heq => absurd (List.cons.inj heq).1 (by decide)

/-- A token that ends with a delimiter makes a seam with every byte. -/
theorem of_closed (h : Begins kind x r) (hkind : kind.isClosed = true) :
    ∃ a, ∀ c, Seam x a c := by
  cases kind
  case string =>
    obtain ⟨mark, t, hmark, rfl, hends⟩ := h.string_ends
    exact ⟨Byte.quote, fun c => of_marked hmark (by decide) hends (by decide) (by decide)
      (by decide +kernel) (fun ha => absurd ha (by decide))⟩
  case rawString =>
    obtain ⟨mark, t, hmark, rfl, hends | ⟨hends, hquote⟩⟩ := h.rawString_ends
    · exact ⟨Byte.quote, fun c => of_marked hmark (by decide) hends (by decide) (by decide)
        (by decide +kernel) (fun ha => absurd ha (by decide))⟩
    · exact ⟨Byte.hash, fun c => of_marked hmark (by decide) hends (by decide) (by decide)
        (by decide +kernel) (fun _ => hquote)⟩
  case character =>
    obtain ⟨mark, t, hmark, rfl, hends⟩ := h.character_ends
    exact ⟨Byte.apostrophe, fun c => of_marked hmark (by decide) hends (by decide) (by decide)
      (by decide +kernel) (fun ha => absurd ha (by decide))⟩
  case blockComment => exact ⟨Byte.slash, fun c => of_blockComment h⟩
  case newline => exact of_delimiter h (by simp [all] : exactly _ "\n" ∈ all) (by decide)
  case braceLeft => exact of_delimiter h (by simp [all] : exactly _ "\x7b" ∈ all) (by decide)
  case braceRight => exact of_delimiter h (by simp [all] : exactly _ "\x7d" ∈ all) (by decide)
  case bracketLeft => exact of_delimiter h (by simp [all] : exactly _ "[" ∈ all) (by decide)
  case bracketRight => exact of_delimiter h (by simp [all] : exactly _ "]" ∈ all) (by decide)
  case parenLeft => exact of_delimiter h (by simp [all] : exactly _ "(" ∈ all) (by decide)
  case parenRight => exact of_delimiter h (by simp [all] : exactly _ ")" ∈ all) (by decide)
  case comma => exact of_delimiter h (by simp [all] : exactly _ "," ∈ all) (by decide)
  case semicolon => exact of_delimiter h (by simp [all] : exactly _ ";" ∈ all) (by decide)
  all_goals exact absurd hkind (by decide)

/-- The token of white space consists of blanks. -/
theorem isBlank_of_mem (h : Begins .whitespace x r) : ∀ b ∈ x, isBlank b = true := by
  have hsize : whitespaceSize? x = some x.length := h.size?_self (by simp [all])
  have hlen : (x.takeWhile isBlank).length = x.length := by
    unfold whitespaceSize? at hsize
    split at hsize
    · simp at hsize
    · next n hn => exact hn.trans (Option.some.inj hsize)
  exact List.takeWhile_eq_self_iff.mp ((List.takeWhile_prefix _).eq_of_length hlen)

/-- White space makes a seam with every byte that is not white space. -/
theorem of_whitespace (h : Begins .whitespace x r) (hc : isBlank c = false) : ∃ a, Seam x a c := by
  have hblanks : ∀ b ∈ x, (∀ word ∈ joints, b ∉ word) ∧ b < 0x80 ∧
      Byte.isNumberPart b = false ∧ b ≠ Byte.hash ∧ b ≠ Byte.apostrophe := by
    intro b hb
    have hfacts : ∀ b ∈ [Byte.tab, Byte.verticalTab, Byte.formFeed, Byte.carriageReturn,
        Byte.space], (∀ word ∈ joints, b ∉ word) ∧ b < 0x80 ∧
        Byte.isNumberPart b = false ∧ b ≠ Byte.hash ∧ b ≠ Byte.apostrophe := by decide +kernel
    exact hfacts b (by simpa [isBlank, or_assoc] using isBlank_of_mem h b hb)
  rcases x with _ | ⟨b, t⟩
  · exact absurd rfl h.ne_nil
  have hlast := List.getLast_mem h.ne_nil
  obtain ⟨-, hascii, hnumber, hhash, -⟩ := hblanks _ hlast
  obtain ⟨hjoints, -, -, -, hstray⟩ := hblanks b List.mem_cons_self
  exact ⟨_, of_ends rfl hjoints ⟨_, List.dropLast_append_getLast h.ne_nil⟩ hascii (fun _ => hc)
    hnumber (fun ha => absurd ha hhash) (fun heq => hstray (List.cons.inj heq).1)⟩

/-- The keyword `extern` makes a seam with a quote and with a space. -/
theorem of_extern (hc : c = Byte.quote ∨ c = Byte.space) : Seam (utf8 "extern") 0x6E c := by
  rcases hc with rfl | rfl
  · constructor <;> decide +kernel
  · constructor <;> decide +kernel

/-- An angle, a colon and an equals sign make a seam with a letter. -/
theorem of_sign (ha : a = 0x3E ∨ a = Byte.colon ∨ a = Byte.equals) : Seam [a] a 0x65 := by
  rcases ha with rfl | rfl | rfl
  · constructor <;> decide +kernel
  · constructor <;> decide +kernel
  · constructor <;> decide +kernel

end Seam

/-! ## Sealed tokens -/

namespace Sealed

variable {strays : Prop} {kind : TokenKind} {y r s t : Text} {a c : UInt8}

/-- A seam seals a token before a text that begins with no apostrophe. -/
theorem of_seam (h : Seam y a c) (hc : c ≠ Byte.apostrophe) : Sealed strays y (c :: s) := by
  intro c' s' heq
  obtain ⟨rfl, rfl⟩ := List.cons.inj heq
  exact ⟨⟨a, h⟩, fun hquote => absurd hquote hc⟩

/-- A token that ends with a delimiter is sealed, unless it stands between two apostrophes. -/
theorem of_closed (h : Begins kind y r) (hkind : kind.isClosed = true)
    (hlen : strays → 2 ≤ y.length) : Sealed strays y t := by
  obtain ⟨a, hseam⟩ := Seam.of_closed h hkind
  exact fun c s _ => ⟨⟨a, hseam c⟩, fun _ => hlen⟩

end Sealed

/-- A line comment goes on to the end of its line. -/
theorem Begins.newline_of_lineComment {x r : Text} {c : UInt8}
    (h : Begins .lineComment x (c :: r)) : c = Byte.newline := by
  have hsize : Rule.lineCommentSize? (x ++ c :: r) = some x.length :=
    h.size?_eq (by simp [Rule.all] : ⟨.lineComment, Rule.lineCommentSize?⟩ ∈ Rule.all) rfl
  unfold Rule.lineCommentSize? at hsize
  split at hsize
  · by_contra hne
    have hlen := Option.some.inj hsize
    have hself := (Greedy.takeWhile (· != Byte.newline)).of_append (w := x) hlen.le
    have hall : ∀ b ∈ x, (b != Byte.newline) = true := by
      rw [hlen] at hself
      exact List.takeWhile_eq_self_iff.mp ((List.takeWhile_prefix _).eq_of_length hself)
    rw [List.takeWhile_append_of_pos hall, List.takeWhile_cons_of_pos (by simpa using hne),
      List.length_append, List.length_cons] at hlen
    omega
  · simp at hsize

/-- Trivia is sealed before every byte that is not blank, where it was before some other byte that
is no line break. -/
theorem Sealed.of_trivia {strays : Prop} {kind : TokenKind} {y r s : Text} {c c' : UInt8}
    (h : Begins kind y (c' :: r)) (hkind : kind.isTrivia = true) (hc' : c' ≠ Byte.newline)
    (hblank : Rule.isBlank c = false) (hc : c = Byte.apostrophe → ¬ strays) :
    Sealed strays y (c :: s) := by
  have hsealed : ∀ a, Seam y a c → Sealed strays y (c :: s) := by
    intro a hseam c' s' heq
    obtain ⟨rfl, rfl⟩ := List.cons.inj heq
    exact ⟨⟨a, hseam⟩, fun hquote hstrays => absurd hstrays (hc hquote)⟩
  cases kind
  case newline =>
    obtain ⟨a, hseam⟩ := Seam.of_closed h rfl
    exact hsealed a (hseam c)
  case blockComment =>
    obtain ⟨a, hseam⟩ := Seam.of_closed h rfl
    exact hsealed a (hseam c)
  case whitespace =>
    obtain ⟨a, hseam⟩ := Seam.of_whitespace h hblank
    exact hsealed a hseam
  case lineComment => exact absurd h.newline_of_lineComment hc'
  all_goals exact absurd hkind (by decide)

/-- At a blank only white space begins. -/
theorem Rule.size?_at_blank {rule : Rule} (hrule : rule ∈ all) {c : UInt8} (hc : isBlank c = true)
    (t : Text) : rule.kind = .whitespace ∨ rule.size? (c :: t) = none := by
  have hmem : c = Byte.tab ∨ c = Byte.verticalTab ∨ c = Byte.formFeed ∨ c = Byte.carriageReturn ∨
      c = Byte.space := by
    simpa [isBlank, or_assoc] using hc
  simp only [all, List.mem_cons, List.not_mem_nil, or_false] at hrule
  rcases hrule with rfl | rfl | rfl | rfl | rfl | rfl | rfl | rfl | rfl | rfl | rfl | rfl | rfl |
    rfl | rfl | rfl | rfl | rfl | rfl | rfl | rfl | rfl | rfl | rfl | rfl | rfl | rfl | rfl | rfl |
    rfl
  all_goals first
    | exact .inl rfl
    | (right; rcases hmem with rfl | rfl | rfl | rfl | rfl <;> rfl)

/-- A token that is no white space does not begin with a blank. -/
theorem Begins.not_isBlank {kind : TokenKind} {c : UInt8} {x r : Text}
    (h : Begins kind (c :: x) r) (hkind : kind ≠ .whitespace) : Rule.isBlank c = false := by
  by_contra hc
  rw [Bool.not_eq_false] at hc
  rcases h.exists_rule with ⟨-, hnone, -⟩ | ⟨rule, hrule, hrk, hsize⟩
  · have hwhite := hnone _ (by simp [Rule.all] : ⟨.whitespace, Rule.whitespaceSize?⟩ ∈ Rule.all)
    simp [Rule.whitespaceSize?, hc] at hwhite
  · rcases Rule.size?_at_blank hrule hc (x ++ r) with hwhite | hnone
    · exact hkind (hrk.symm.trans hwhite)
    · rw [List.cons_append, hnone] at hsize
      simp at hsize

/-- A run of word characters does not end before an ASCII character that can continue it. -/
theorem Text.span_append_ne {x r : Text} {c : UInt8} (hc : c < 0x80)
    (hpart : Rune.isWordPart c.toNat = true) :
    Text.span Rune.isWordPart (x ++ c :: r) ≠ x.length := by
  intro heq
  have hself := Rule.greedy_word.of_append heq.le
  have hlt : x.length < Text.span Rune.isWordPart (x ++ c :: r) :=
    Text.lt_spanAfter_append Rune.not_isWordPart_replacement hc hpart (Nat.zero_le _)
      (hself.trans heq)
  omega

/-- An identifier does not end before an ASCII character that can continue it. -/
theorem Begins.not_identifier {x r : Text} {c : UInt8} (hc : c < 0x80)
    (hpart : Rune.isWordPart c.toNat = true) : ¬ Begins .identifier x (c :: r) := by
  intro h
  have hsize : Rule.identifierSize? (x ++ c :: r) = some x.length :=
    h.size?_eq (by simp [Rule.all] : ⟨.identifier, Rule.identifierSize?⟩ ∈ Rule.all) rfl
  rcases Rule.identifierSize?_eq_some_iff.mp hsize with ⟨rest, k, heq, hk, hlen⟩ | ⟨-, hword⟩
  · rcases x with _ | ⟨b, _ | ⟨b', x⟩⟩
    · simp at hlen
    · simp at hlen
    · obtain ⟨-, -, rfl⟩ : b = 0x72 ∧ b' = Byte.hash ∧ x ++ c :: r = rest := by simpa using heq
      obtain ⟨-, -, -, -, rfl⟩ := Rule.wordSize?_eq_some_iff.mp hk
      simp only [List.length_cons, Nat.add_right_cancel_iff] at hlen
      exact Text.span_append_ne hc hpart hlen.symm
  · obtain ⟨-, -, -, -, hspan⟩ := Rule.wordSize?_eq_some_iff.mp hword
    exact Text.span_append_ne hc hpart hspan.symm

/-- Lexemes may be replaced by others where these are sealed on both sides. -/
theorem Lexed.splice {before removed after init : List Lexeme} {z : Lexeme}
    (h : Lexed (before ++ removed ++ after)) (hcalm : Calm (before ++ removed ++ after))
    (hinserted : Lexed (init ++ [z])) (hassigned : ∀ l ∈ init ++ [z], l.kind ≠ .unassigned)
    (hhead : (Lexeme.join (init ++ [z])).head? ≠ some Byte.backslash)
    (hbefore : ∀ us y, before = us ++ [y] →
      Sealed (Lexeme.stray ∈ us) y.content (Lexeme.join (init ++ [z])))
    (hafter : Sealed (Lexeme.stray ∈ before ++ init) z.content (Lexeme.join after)) :
    Lexed (before ++ (init ++ [z]) ++ after) := by
  have hcalmBefore : Calm before := hcalm.part ⟨[], removed ++ after, by simp⟩
  -- What is put in has no stray apostrophe, and does not begin with a backslash behind one.
  have hcalmJoined : Calm (before ++ (init ++ [z])) := by
    refine List.isChain_append.mpr ⟨hcalmBefore, Calm.of_assigned hassigned, ?_⟩
    rintro l - l' hl' ⟨-, hbackslash⟩
    refine hhead ?_
    cases init with
    | nil =>
      obtain rfl : z = l' := by simpa using hl'
      simpa using hbackslash
    | cons u init =>
      obtain rfl : u = l' := by simpa using hl'
      have hne := hinserted.content_ne_nil (l := u) (by simp)
      rw [List.cons_append, Lexeme.join_cons, List.head?_append_of_ne_nil _ hne]
      exact hbackslash
  -- The two seams are closed one after the other.
  have hjoined : Lexed (before ++ (init ++ [z])) := by
    rcases List.eq_nil_or_concat before with rfl | ⟨us, y, rfl⟩
    · exact hinserted
    · rw [List.concat_eq_append] at h hcalmBefore hbefore ⊢
      exact Lexed.append h.left.left hinserted hcalmBefore (hbefore us y rfl)
  rw [← List.append_assoc before] at hjoined hcalmJoined ⊢
  exact Lexed.append hjoined h.right hcalmJoined hafter

end CallConv
