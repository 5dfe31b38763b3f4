import Mathlib
import CallConv.Proofs.Token.Position

/-!
# Lexed texts before a line break

A text that ends with a delimiter keeps its tokens when a line break and any other text follow it.
Here the lexemes need not be calm: what a stray apostrophe could become is a character literal, and
no character literal reaches over a line break.

More is true of a text that falls into tokens on its own, whatever it ends with: the only tokens
with a line break inside are block comments and string literals, and these are closed already. So
no token of such a text reaches over a line break behind it, and what follows is cut as if it stood
alone (`tokenize_append_newline`).
-/

namespace CallConv

namespace Rule

/-- The body of a character literal stands on one line. -/
theorem CharacterBody.newline_notMem {body : Text} (h : CharacterBody body) :
    Byte.newline ∉ body := by
  cases h with
  | escape hc hbody =>
    simp only [List.mem_cons, not_or]
    exact ⟨by decide, hc.symm, fun hmem => absurd (hbody _ hmem) (by decide)⟩
  | @rune b more hescape hquote hnewline hmore =>
    simp only [List.mem_cons, not_or]
    refine ⟨hnewline.symm, fun hmem => ?_⟩
    -- The bytes behind the first one are not ASCII.
    have hall := (Rune.extra_read_le b more).2
    rw [hmore, List.take_length] at hall
    exact absurd (hall _ hmem) (by decide)

/-- No character literal reaches over a line break. -/
theorem characterSize?_le_newline {z s : Text} {n : Nat}
    (h : characterSize? (z ++ Byte.newline :: s) = some n) : n ≤ z.length := by
  rw [characterSize?_eq_markedSize?] at h
  obtain ⟨mark, rest, k, hmark, heq, hk, rfl⟩ := (markedSize?_eq_some_iff (by decide)).mp h
  obtain ⟨body, rest, hbody, rfl, rfl⟩ := characterEnd?_eq_some_iff.mp hk
  by_contra hlt
  have hpre : mark ++ Byte.apostrophe :: (body ++ [Byte.apostrophe]) <+: z ++ Byte.newline :: s :=
    ⟨rest, by rw [heq]; simp⟩
  -- The literal would have the line break in it.
  have hmem := (append_singleton_prefix_of hpre (by simp; omega)).subset
    (List.mem_append_right z (List.mem_singleton_self Byte.newline))
  have hne : Byte.newline ≠ Byte.apostrophe ∧ Byte.newline ≠ 0x62 := by decide
  rcases hmark with rfl | rfl
  · simp [hbody.newline_notMem, hne.1] at hmem
  · simp [hbody.newline_notMem, hne.1, hne.2] at hmem

end Rule

/-- The lexer cuts the lexemes off a text that goes on with `t`. -/
def LexedBefore (t : Text) : List Lexeme → Prop
  | [] => True
  | l :: ls => Begins l.kind l.content (Lexeme.join ls ++ t) ∧ LexedBefore t ls

/-- Lexemes that are cut off a text are the first tokens of it, before those of what follows. -/
theorem LexedBefore.tokenize_append {t : Text} {ls : List Lexeme} (h : LexedBefore t ls)
    (c : Cursor) :
    tokenize (Lexeme.join ls ++ t) c =
      (tokenize t (Lexeme.after c ls)).map (Lexeme.place c ls ++ ·) := by
  induction ls generalizing c with
  | nil =>
    show tokenize t c = _
    rw [Lexeme.after, List.foldl_nil]
    cases tokenize t c <;> rfl
  | cons l ls ih =>
    obtain ⟨hbegins, htail⟩ := h
    obtain ⟨kind, _ | ⟨b, x⟩⟩ := l
    · exact absurd rfl hbegins.ne_nil
    · have hscan : scan b (x ++ (Lexeme.join ls ++ t)) = .ok (kind, (b :: x).length) := hbegins
      rw [Lexeme.join_cons, List.append_assoc, List.cons_append, tokenize_cons, hscan]
      simp only [← List.cons_append, List.take_left, List.drop_left, ih htail]
      have hafter : Lexeme.after c (⟨kind, b :: x⟩ :: ls) =
          Lexeme.after (c.advance (b :: x)) ls := rfl
      rw [hafter]
      cases tokenize t (Lexeme.after (c.advance (b :: x)) ls) <;> rfl

/-- Lexemes of which the last one makes a seam with a line break are cut off before one. -/
theorem Lexed.before_newline {ls : List Lexeme} {y : Lexeme} {a : UInt8} (h : Lexed (ls ++ [y]))
    (hseam : Seam y.content a Byte.newline) (s : Text) :
    LexedBefore (Byte.newline :: s) (ls ++ [y]) := by
  -- What begins at one lexeme, begins before the line break already.
  have hbegins : ∀ {kind : TokenKind} {x r : Text}, Begins kind x r →
      y.content = x ++ r ∨ y.content <:+ r → Begins kind x (r ++ Byte.newline :: s) := by
    intro kind x r hb hlast
    have hz := Seam.suffix_append hlast
    refine (begins_append_iff (fun rule hrule n hn => ?_) (fun _ => hseam.firstWidth_le hz)
      (hseam.unterminated?_eq_none hz)).mpr hb
    exact hseam.size?_le hb hlast (fun n hn => Rule.characterSize?_le_newline hn) hrule hn
  induction ls with
  | nil => exact ⟨hbegins h.1 (.inl (List.append_nil _).symm), trivial⟩
  | cons l ls ih =>
    refine ⟨hbegins h.1 (.inr ?_), ih h.2⟩
    show y.content <:+ Lexeme.join (ls ++ [y])
    rw [Lexeme.join_append, Lexeme.join_cons, Lexeme.join_nil, List.append_nil]
    exact List.suffix_append _ _

/-- The tokens of a text that ends with a delimiter are the first ones of the text with a line
break and anything else behind it. -/
theorem tokenize_before_newline {source rest : Text} {origin : Cursor} {ts all : List Token}
    {last : Token} (htokens : tokenize source origin = .ok ts) (hlast : [last] <:+ ts)
    (hclosed : last.kind.isClosed = true)
    (hall : tokenize (source ++ Byte.newline :: rest) origin = .ok all) :
    ∃ after, all = ts ++ after := by
  obtain ⟨init, rfl⟩ := hlast
  obtain ⟨hlexed, rfl, hplace⟩ := tokenize_eq_ok_iff.mp htokens
  rw [List.map_append, List.map_singleton] at hlexed
  obtain ⟨a, hseam⟩ := Seam.of_closed hlexed.begins hclosed
  have hbefore := hlexed.before_newline (hseam Byte.newline) rest
  rw [← List.map_singleton, ← List.map_append] at hbefore
  rw [hbefore.tokenize_append, hplace] at hall
  cases hrest : tokenize (Byte.newline :: rest)
      (Lexeme.after origin ((init ++ [last]).map Token.lexeme)) with
  | error e =>
    rw [hrest] at hall
    simp [Except.map] at hall
  | ok after =>
    rw [hrest] at hall
    exact ⟨after, (Except.ok.inj hall).symm⟩

/-! ## What reaches over a line break -/

namespace Rule

variable {kind : TokenKind} {x r z s : Text} {n : Nat}

/-- A word without a line break that begins a text begins what stands before a line break. -/
theorem prefix_of_prefix_newline {word : Text} (hword : Byte.newline ∉ word)
    (h : word <+: z ++ Byte.newline :: s) : word <+: z := by
  rcases prefix_or_append_singleton h with hbefore | hover
  · exact hbefore
  · exact absurd (hover.subset (List.mem_append_right z (List.mem_singleton_self _))) hword

/-- A length that consists of bytes other than line breaks ends before one. -/
theorem Within.le_newline {p : UInt8 → Bool} {size : Text → Nat} (h : Within p size)
    (hp : p Byte.newline = false) : size (z ++ Byte.newline :: s) ≤ z.length := by
  by_contra hlt
  obtain ⟨-, hnewline⟩ := h.of_lt (not_le.mp hlt)
  rw [hp] at hnewline
  exact absurd hnewline (by decide)

/-- Single words do not reach over a line break. -/
theorem exactly_le_newline {word : String} (hz : z ≠ [])
    (hword : Byte.newline ∉ utf8 word ∨ (utf8 word).length = 1)
    (hn : (exactly kind word).size? (z ++ Byte.newline :: s) = some n) : n ≤ z.length := by
  simp only [exactly] at hn
  split at hn
  · next hpre =>
    obtain rfl := Option.some.inj hn
    rcases hword with hword | hword
    · exact (prefix_of_prefix_newline hword (List.isPrefixOf_iff_prefix.mp hpre)).length_le
    · rw [hword]
      exact List.length_pos_iff.mpr hz
  · simp at hn

/-- White space other than line breaks does not reach over one. -/
theorem whitespaceSize?_le_newline
    (hn : whitespaceSize? (z ++ Byte.newline :: s) = some n) : n ≤ z.length := by
  have hle : ((z ++ Byte.newline :: s).takeWhile isBlank).length ≤ z.length :=
    (within_takeWhile isBlank).le_newline (by decide)
  unfold whitespaceSize? at hn
  split at hn
  · simp at hn
  · next m hm =>
    obtain rfl := Option.some.inj hn
    omega

/-- Line comments end with their line. -/
theorem lineCommentSize?_le_newline
    (hn : lineCommentSize? (z ++ Byte.newline :: s) = some n) : n ≤ z.length := by
  unfold lineCommentSize? at hn
  split at hn
  · obtain rfl := Option.some.inj hn
    exact (within_takeWhile (· != Byte.newline)).le_newline (by decide)
  · simp at hn

/-- Words do not reach over a line break. -/
theorem wordSize?_le_newline (hn : wordSize? (z ++ Byte.newline :: s) = some n) :
    n ≤ z.length := by
  obtain ⟨-, -, -, -, rfl⟩ := wordSize?_eq_some_iff.mp hn
  exact within_word.le_newline (by decide +kernel)

/-- Identifiers do not reach over a line break. -/
theorem identifierSize?_le_newline (hz : z ≠ [])
    (hn : identifierSize? (z ++ Byte.newline :: s) = some n) : n ≤ z.length := by
  rcases identifierSize?_eq_some_iff.mp hn with ⟨rest, k, heq, hk, rfl⟩ | ⟨-, hword⟩
  · rcases z with _ | ⟨b, _ | ⟨b', z⟩⟩
    · exact absurd rfl hz
    · -- The line break would be the hash of the raw mark.
      exact absurd (List.cons.inj (List.cons.inj heq).2).1 (by decide)
    · obtain rfl : z ++ Byte.newline :: s = rest := (List.cons.inj (List.cons.inj heq).2).2
      have := wordSize?_le_newline hk
      simp only [List.length_cons]
      omega
  · exact wordSize?_le_newline hword

/-- Lifetimes do not reach over a line break. -/
theorem lifetimeSize?_le_newline (hz : z ≠ [])
    (hn : lifetimeSize? (z ++ Byte.newline :: s) = some n) : n ≤ z.length := by
  obtain ⟨rest, k, heq, hk, rfl⟩ := lifetimeSize?_eq_some_iff.mp hn
  rcases z with _ | ⟨b, z⟩
  · exact absurd rfl hz
  · obtain rfl : z ++ Byte.newline :: s = rest := (List.cons.inj heq).2
    have := wordSize?_le_newline hk
    simp only [List.length_cons]
    omega

/-- Numbers do not reach over a line break. -/
theorem numberSize?_le_newline (hn : numberSize? (z ++ Byte.newline :: s) = some n) :
    n ≤ z.length := by
  rw [numberSize?_eq] at hn
  split at hn
  · simp at hn
  · obtain rfl := Option.some.inj hn
    exact within_numberSize.le_newline (by decide +kernel)

/-- Operators do not reach over a line break. -/
theorem operatorSize?_le_newline (hz : z ≠ [])
    (hn : operatorSize? (z ++ Byte.newline :: s) = some n) : n ≤ z.length := by
  have hwords : ∀ op ∈ longOperators, Byte.newline ∉ op := by decide +kernel
  rcases operatorSize?_eq_some_iff.mp hn with ⟨op, hop, rfl⟩ | ⟨-, -, -, -, -, rfl⟩
  · exact (prefix_of_prefix_newline (hwords op (List.mem_of_find?_eq_some hop))
      (find?_isPrefixOf_eq_some_iff.mp hop).1).length_le
  · exact List.length_pos_iff.mpr hz

/-- The opening of a raw string literal is on one line. -/
theorem newline_notMem_rawOpening {mark : Text} {hashes : Nat} (hmark : IsMark mark) :
    Byte.newline ∉ rawOpening mark hashes := by
  have hne : Byte.newline ≠ 0x72 ∧ Byte.newline ≠ Byte.quote ∧ Byte.newline ≠ Byte.hash ∧
      Byte.newline ≠ 0x62 := by decide
  rcases hmark with rfl | rfl
  · simp [rawOpening, hne]
  · simp [rawOpening, hne]

/-- The opening of a literal in quotes is on one line. -/
theorem newline_notMem_marked {mark : Text} (hmark : IsMark mark) :
    Byte.newline ∉ mark ++ [Byte.quote] := by
  rcases hmark with rfl | rfl <;> decide

/-- No rule reaches over a line break from a token that is found without it. -/
theorem size?_le_newline (hb : Begins kind x r) {rule : Rule} (hrule : rule ∈ all)
    (hn : rule.size? (x ++ r ++ Byte.newline :: s) = some n) : n ≤ (x ++ r).length := by
  have hz : x ++ r ≠ [] := fun hnil => hb.ne_nil (List.append_eq_nil_iff.mp hnil).1
  obtain ⟨hblock, hraw, hstring⟩ := unterminated?_eq_none_iff.mp (begins_iff.mp hb).2.2.1
  simp only [all, List.mem_cons, List.not_mem_nil, or_false] at hrule
  rcases hrule with rfl | rfl | rfl | rfl | rfl | rfl | rfl | rfl | rfl | rfl | hrule
  · exact exactly_le_newline hz (.inr rfl) hn
  · exact whitespaceSize?_le_newline hn
  · exact lineCommentSize?_le_newline hn
  -- What is opened on this side of the line break is closed on it as well.
  · have hpre : utf8 "/*" <+: x ++ r := by
      simp only [blockCommentSize?] at hn
      split at hn
      · next hpre =>
        exact prefix_of_prefix_newline (by decide) (List.isPrefixOf_iff_prefix.mp hpre)
      · simp at hn
    obtain rfl := hblock (List.isPrefixOf_iff_prefix.mpr hpre)
    exact Seam.delimited_le hb delimited_blockCommentSize? (by simp [all]) hn
  · obtain ⟨mark, hashes, rest, k, hmark, heq, -, -⟩ := rawStringSize?_eq_some_iff.mp hn
    obtain rfl := hraw (isSome_rawStringOpening?_iff.mpr ⟨mark, hashes, hmark,
      prefix_of_prefix_newline (newline_notMem_rawOpening hmark) ⟨rest, heq.symm⟩⟩)
    exact Seam.delimited_le hb delimited_rawStringSize? (by simp [all]) hn
  · have hmarked := hn
    rw [stringSize?_eq_markedSize?] at hmarked
    obtain ⟨mark, rest, k, hmark, heq, -, -⟩ := (markedSize?_eq_some_iff (by decide)).mp hmarked
    obtain rfl := hstring (isStringOpening_iff.mpr ⟨mark, hmark,
      prefix_of_prefix_newline (newline_notMem_marked hmark) ⟨rest, by rw [heq]; simp⟩⟩)
    exact Seam.delimited_le hb delimited_stringSize? (by simp [all]) hn
  · exact characterSize?_le_newline hn
  · exact identifierSize?_le_newline hz hn
  · exact lifetimeSize?_le_newline hz hn
  · exact numberSize?_le_newline hn
  · rcases hrule with rfl | rfl | rfl | rfl | rfl | rfl | rfl | rfl | rfl | rfl | rfl | rfl | rfl |
      rfl | rfl | rfl | rfl | rfl | rfl | rfl
    any_goals exact exactly_le_newline hz (.inl (by decide)) hn
    exact operatorSize?_le_newline hz hn

/-- The first code point of a text does not reach over a line break. -/
theorem firstWidth_le_newline (hz : z ≠ []) : (z ++ Byte.newline :: s).firstWidth ≤ z.length := by
  obtain ⟨b, z, rfl⟩ := List.exists_cons_of_ne_nil hz
  by_contra hlt
  simp only [List.cons_append, Text.firstWidth, Rune.width, List.length_cons] at hlt
  -- The line break would be one of the bytes of a code point that is not ASCII.
  have hpre : z ++ [Byte.newline] <+:
      (z ++ Byte.newline :: s).take (Rune.read b (z ++ Byte.newline :: s)).extra := by
    have hwhole : z ++ [Byte.newline] <+: z ++ Byte.newline :: s := ⟨s, by simp⟩
    refine List.prefix_take_iff.mpr ⟨hwhole, ?_⟩
    rw [List.length_append, List.length_singleton]
    omega
  have hmem := hpre.subset (List.mem_append_right z (List.mem_singleton_self Byte.newline))
  exact absurd ((Rune.extra_read_le b _).2 _ hmem) (by decide)

end Rule

/-- A token of a text is still there with a line break and any other text behind the text. -/
theorem Begins.before_newline {kind : TokenKind} {x r : Text} (h : Begins kind x r) (s : Text) :
    Begins kind x (r ++ Byte.newline :: s) := by
  have hz : x ++ r ≠ [] := fun hnil => h.ne_nil (List.append_eq_nil_iff.mp hnil).1
  refine (begins_append_iff (fun rule hrule n hn => Rule.size?_le_newline h hrule hn)
    (fun _ => Rule.firstWidth_le_newline hz) fun hnone => ?_).mpr h
  obtain ⟨hblock, hraw, hstring⟩ := unterminated?_eq_none_iff.mp hnone
  refine unterminated?_eq_none_iff.mpr ⟨fun ho => ?_, fun ho => ?_, fun ho => ?_⟩
  · exact hblock (List.isPrefixOf_iff_prefix.mpr
      (Rule.prefix_of_prefix_newline (by decide) (List.isPrefixOf_iff_prefix.mp ho)))
  · obtain ⟨mark, hashes, hmark, hpre⟩ := Rule.isSome_rawStringOpening?_iff.mp ho
    exact hraw (Rule.isSome_rawStringOpening?_iff.mpr ⟨mark, hashes, hmark,
      Rule.prefix_of_prefix_newline (Rule.newline_notMem_rawOpening hmark) hpre⟩)
  · obtain ⟨mark, hmark, hpre⟩ := Rule.isStringOpening_iff.mp ho
    exact hstring (Rule.isStringOpening_iff.mpr ⟨mark, hmark,
      Rule.prefix_of_prefix_newline (Rule.newline_notMem_marked hmark) hpre⟩)

/-- The lexemes of a text are cut off before a line break, whatever the text ends with. -/
theorem Lexed.before_break {ls : List Lexeme} (h : Lexed ls) (s : Text) :
    LexedBefore (Byte.newline :: s) ls := by
  induction ls with
  | nil => trivial
  | cons l ls ih => exact ⟨h.1.before_newline s, ih h.2⟩

/-- A line break is a token of its own. -/
theorem scan_newline (s : Text) : scan Byte.newline s = .ok (.newline, 1) := rfl

/-- Behind a line break the next line begins, whatever came before. -/
theorem Cursor.advance_append_newline (c : Cursor) (u : Text) :
    c.advance (u ++ [Byte.newline]) = (c.advance u).advance [Byte.newline] := by
  rw [advance_newline c u List.not_mem_nil]
  have hnext := advance_newline (c.advance u) [] List.not_mem_nil
  rw [List.nil_append] at hnext
  rw [hnext, line_advance, offset_advance]
  simp
  omega

/-- A text that falls into tokens, a line break and another text fall into the tokens of the first
text, the line break, and the tokens of the other text on the line below. -/
theorem tokenize_append_newline {source : Text} {origin : Cursor} {ts : List Token}
    (htokens : tokenize source origin = .ok ts) (rest : Text) :
    tokenize (source ++ Byte.newline :: rest) origin =
      (tokenize rest (origin.advance (source ++ [Byte.newline]))).map
        (ts ++ ⟨.newline, origin.advance source, [Byte.newline]⟩ :: ·) := by
  obtain ⟨hlexed, rfl, hplace⟩ := tokenize_eq_ok_iff.mp htokens
  have hbreak := tokenize_cons Byte.newline rest (Lexeme.after origin (ts.map Token.lexeme))
  rw [scan_newline] at hbreak
  rw [(hlexed.before_break rest).tokenize_append, hplace, hbreak, hlexed.after_eq,
    Cursor.advance_append_newline]
  simp only [List.take_succ_cons, List.take_zero, List.drop_succ_cons, List.drop_zero]
  cases tokenize rest _ <;> rfl

end CallConv
