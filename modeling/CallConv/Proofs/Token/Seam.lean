import Mathlib
import CallConv.Proofs.Token.Lexeme

/-!
# Seams between texts

When two texts that have been cut into tokens are put together, a token of the first one can
change only if some rule reaches over the seam, and then over all of the text from that token up
to the seam. `Seam` lists what has to be excluded for this at the last token of the first text and
the first byte of the second, and `Lexed.append` joins the tokens of the two texts.

One kind of token is not local: an apostrophe that is neither a lifetime nor a character literal is
a token of its own, and if a backslash follows, the next apostrophe may stand arbitrarily far
behind. `Calm` excludes that pair.
-/

namespace CallConv

/-- Whether a byte can be part of a number: that of a word, a dot or a sign. -/
def Byte.isNumberPart (b : UInt8) : Bool :=
  Byte.isWordPart b || b == Byte.dot || b == Byte.plus || b == Byte.hyphen

/-- Every byte of a word can be part of a number. -/
theorem Byte.isNumberPart_of_isWordPart {b : UInt8} (h : Byte.isWordPart b = true) :
    Byte.isNumberPart b = true := by
  simp [isNumberPart, h]

/-- Whether a byte can be part of the digits, the fraction or the exponent of a number. -/
def Byte.isDecimalPart (b : UInt8) : Bool := Rule.isDigitPart b || (utf8 ".+-eE").contains b

/-- Every byte of a run of digits can be part of a decimal. -/
theorem Byte.isDecimalPart_of_isDigitPart {b : UInt8} (h : Rule.isDigitPart b = true) :
    Byte.isDecimalPart b = true := by
  simp [isDecimalPart, h]

namespace Rule

/-! ## The bytes of runs -/

/-- All bytes of the lengths that `size` gives satisfy `p`. -/
def Within (p : UInt8 → Bool) (size : Text → Nat) : Prop :=
  ∀ t : Text, ∀ b ∈ t.take (size t), p b = true

/-- One length after the other consists of the bytes of both. -/
theorem Within.andThen {p : UInt8 → Bool} {f g : Text → Nat} (hf : Within p f) (hg : Within p g) :
    Within p fun t => f t + g (t.drop (f t)) := by
  intro t b hb
  rw [List.take_add, List.mem_append] at hb
  rcases hb with hb | hb
  · exact hf t b hb
  · exact hg _ b hb

/-- A run of bytes consists of bytes that satisfy its predicate. -/
theorem within_takeWhile (p : UInt8 → Bool) : Within p fun t => (t.takeWhile p).length := by
  intro t b hb
  rw [← List.prefix_iff_eq_take.mp (List.takeWhile_prefix p)] at hb
  exact List.mem_takeWhile_imp hb

/-- A byte that can continue a run of digits can be part of a word. -/
theorem isWordPart_of_isDigitPart {b : UInt8} (h : isDigitPart b = true) :
    Byte.isWordPart b = true := by
  unfold isDigitPart Byte.isDigit at h
  unfold Byte.isWordPart Rune.isWordPart
  simp only [Bool.or_eq_true, Bool.and_eq_true, decide_eq_true_eq, beq_iff_eq] at h ⊢
  rcases h with h | rfl
  · right
    left
    right
    have h₁ : 0x30 ≤ b.toNat := h.1
    have h₂ : b.toNat ≤ 0x39 := h.2
    unfold Rune.isNumber
    rw [if_pos (by omega)]
    simp [h₁, h₂]
  · decide +kernel

/-- The run of word characters at the start of a text consists of bytes of words. -/
theorem within_word : Within Byte.isWordPart (Text.span Rune.isWordPart) :=
  fun _ => Text.isWordPart_of_mem_take_spanAfter (by simp)

/-- A length that consists of bytes of one sort consists of bytes of a wider sort. -/
theorem Within.mono {p q : UInt8 → Bool} {size : Text → Nat} (h : Within p size)
    (hpq : ∀ {b}, p b = true → q b = true) : Within q size :=
  fun t b hb => hpq (h t b hb)

/-- The digits of a number consist of digits and low lines. -/
theorem within_digitsSize : Within isDigitPart digitsSize := by
  intro t b hb
  unfold digitsSize at hb
  split at hb
  · simp at hb
  · split at hb
    · exact within_takeWhile isDigitPart _ b hb
    · simp at hb

/-- The fraction of a number consists of bytes of decimals. -/
theorem within_fractionSize : Within Byte.isDecimalPart fractionSize := by
  intro t b hb
  rcases t with _ | ⟨dot, t⟩
  · simp at hb
  · rw [fractionSize_cons] at hb
    split at hb
    · next hdot =>
      rw [List.take_succ_cons, List.mem_cons] at hb
      rcases hb with rfl | hb
      · rw [hdot.1]
        decide
      · exact Byte.isDecimalPart_of_isDigitPart (within_digitsSize t b hb)
    · simp at hb

/-- The sign of an exponent consists of bytes of decimals. -/
theorem within_signSize : Within Byte.isDecimalPart signSize := by
  intro t b hb
  rcases t with _ | ⟨sign, t⟩
  · simp at hb
  · unfold signSize at hb
    split at hb
    · next hsign =>
      rw [List.take_succ_cons, List.take_zero, List.mem_singleton] at hb
      subst hb
      rw [List.head?_cons, Option.some.injEq, Option.some.injEq] at hsign
      rcases hsign with rfl | rfl <;> decide
    · simp at hb

/-- The exponent of a number consists of bytes of decimals. -/
theorem within_exponentSize : Within Byte.isDecimalPart exponentSize := by
  have hdigits : Within Byte.isDecimalPart fun t => (t.takeWhile isDigitPart).length :=
    (within_takeWhile isDigitPart).mono Byte.isDecimalPart_of_isDigitPart
  intro t b hb
  rcases t with _ | ⟨e, t⟩
  · simp at hb
  · rw [exponentSize_cons] at hb
    split at hb
    · next he =>
      rw [List.take_succ_cons, List.mem_cons] at hb
      rcases hb with rfl | hb
      · rcases he.1 with rfl | rfl <;> decide
      · exact within_signSize.andThen hdigits t b hb
    · simp at hb

/-- A byte of a decimal can be part of a number. -/
theorem isNumberPart_of_isDecimalPart {b : UInt8} (h : Byte.isDecimalPart b = true) :
    Byte.isNumberPart b = true := by
  unfold Byte.isDecimalPart at h
  rcases Bool.or_eq_true_iff.mp h with h | h
  · exact Byte.isNumberPart_of_isWordPart (isWordPart_of_isDigitPart h)
  · have hmarks : ∀ b ∈ utf8 ".+-eE", Byte.isNumberPart b = true := by decide +kernel
    exact hmarks b (List.contains_iff_mem.mp h)

/-- A number consists of bytes of numbers. -/
theorem within_numberSize : Within Byte.isNumberPart numberSize :=
  ((within_digitsSize.mono Byte.isDecimalPart_of_isDigitPart).mono
    isNumberPart_of_isDecimalPart).andThen
    ((within_fractionSize.mono isNumberPart_of_isDecimalPart).andThen
      ((within_exponentSize.mono isNumberPart_of_isDecimalPart).andThen
        (within_word.mono Byte.isNumberPart_of_isWordPart)))

/-! ## What reaches over a seam -/

variable {z s : Text} {c : UInt8} {n : Nat}

/-- A length that reaches over a seam consists of all bytes before the seam and the one after. -/
theorem Within.of_lt {p : UInt8 → Bool} {size : Text → Nat} (h : Within p size)
    (hlt : z.length < size (z ++ c :: s)) : (∀ b ∈ z, p b = true) ∧ p c = true := by
  have hpre : z ++ [c] <+: (z ++ c :: s).take (size (z ++ c :: s)) := by
    have hwhole : z ++ [c] <+: z ++ c :: s := ⟨s, by simp⟩
    rw [List.prefix_take_iff]
    exact ⟨hwhole, by simpa using hlt⟩
  have hall : ∀ b ∈ z ++ [c], p b = true := fun b hb => h _ b (hpre.subset hb)
  simp only [List.mem_append, List.mem_singleton] at hall
  exact ⟨fun b hb => hall b (.inl hb), hall c (.inr rfl)⟩

/-- A word that reaches over a seam begins with the text before it and the byte after it. -/
theorem append_singleton_prefix_of {word : Text} (h : word <+: z ++ c :: s)
    (hlt : z.length < word.length) : z ++ [c] <+: word :=
  List.prefix_of_prefix_length_le ⟨s, by simp⟩ h (by simpa using hlt)

/-- An opening is there before a seam already, or it begins with all of the text up to the seam
and the byte after it. -/
theorem prefix_or_append_singleton {word : Text} (h : word <+: z ++ c :: s) :
    word <+: z ∨ z ++ [c] <+: word := by
  rcases Nat.lt_or_ge z.length word.length with hlt | hge
  · exact .inr (append_singleton_prefix_of h hlt)
  · exact .inl (List.prefix_of_prefix_length_le h (List.prefix_append z _) hge)

/-- The words of more than one byte that operators and comments begin with. -/
def joints : List Text :=
  [utf8 "//", utf8 "/*", utf8 "::", utf8 "->", utf8 "=>"] ++ longOperators

/-- At an apostrophe only character literals and lifetimes can begin, and at a marked apostrophe
only character literals and identifiers. -/
theorem size?_at_apostrophe {rule : Rule} (hrule : rule ∈ all) (t : Text) :
    (rule.kind = .character ∨ rule.kind = .lifetime ∨ rule.size? (Byte.apostrophe :: t) = none) ∧
      (rule.kind = .character ∨ rule.kind = .identifier ∨
        rule.size? (0x62 :: Byte.apostrophe :: t) = none) := by
  simp only [all, List.mem_cons, List.not_mem_nil, or_false] at hrule
  rcases hrule with rfl | rfl | rfl | rfl | rfl | rfl | rfl | rfl | rfl | rfl | rfl | rfl | rfl |
    rfl | rfl | rfl | rfl | rfl | rfl | rfl | rfl | rfl | rfl | rfl | rfl | rfl | rfl | rfl | rfl |
    rfl
  all_goals constructor
  all_goals first
    | exact .inl rfl
    | exact .inr (.inl rfl)
    | exact .inr (.inr rfl)

/-- The rule of character literals is the only one of its kind. -/
theorem size?_of_kind_character {rule : Rule} (hrule : rule ∈ all) (hkind : rule.kind = .character)
    (t : Text) : rule.size? t = characterSize? t := by
  rw [eq_of_kind_eq hrule (by simp [all] : ⟨.character, characterSize?⟩ ∈ all) hkind]

end Rule

namespace Begins

open Rule

variable {kind : TokenKind} {x r z : Text}

/-- At an apostrophe that begins no character literal stands a lifetime, or the apostrophe is a
token of its own. -/
theorem apostrophe_cases (h : Begins kind x r) (heq : x ++ r = Byte.apostrophe :: z)
    (hnone : characterSize? (x ++ r) = none) :
    (∃ k, wordSize? z = some k) ∨ kind = .unassigned ∧ x = [Byte.apostrophe] ∧ r = z := by
  rcases h.exists_rule with ⟨hkind, -, hwidth⟩ | ⟨rule, hrule, -, hsize⟩
  · right
    rw [heq] at hwidth
    obtain ⟨b, rfl⟩ := List.length_eq_one_iff.mp hwidth
    obtain ⟨rfl, rfl⟩ := List.cons.inj heq
    exact ⟨hkind, rfl, rfl⟩
  · left
    rcases (size?_at_apostrophe hrule z).1 with hrk | hrk | hnone'
    · rw [size?_of_kind_character hrule hrk, hnone] at hsize
      simp at hsize
    · rw [eq_of_kind_eq hrule (by simp [all] : ⟨.lifetime, lifetimeSize?⟩ ∈ all) hrk] at hsize
      obtain ⟨rest, k, heq', hword, -⟩ := lifetimeSize?_eq_some_iff.mp hsize
      rw [heq] at heq'
      exact ⟨k, (List.cons.inj heq').2 ▸ hword⟩
    · rw [heq, hnone'] at hsize
      simp at hsize

/-- At a byte mark before an apostrophe that begins no character literal the mark is a token of its
own. -/
theorem mark_apostrophe (h : Begins kind x r) (heq : x ++ r = 0x62 :: Byte.apostrophe :: z)
    (hnone : characterSize? (x ++ r) = none) : r = Byte.apostrophe :: z := by
  have hidentifier : Rule.size? ⟨.identifier, identifierSize?⟩ (x ++ r) = some 1 := by
    rw [heq]
    rfl
  have hx : x.length = 1 := by
    rcases h.exists_rule with ⟨-, hall, -⟩ | ⟨rule, hrule, -, hsize⟩
    · rw [hall _ (by simp [all])] at hidentifier
      simp at hidentifier
    · rcases (size?_at_apostrophe hrule z).2 with hrk | hrk | hnone'
      · rw [size?_of_kind_character hrule hrk, hnone] at hsize
        simp at hsize
      · rw [eq_of_kind_eq hrule (by simp [all] : ⟨.identifier, identifierSize?⟩ ∈ all) hrk] at hsize
        exact Option.some.inj (hsize.symm.trans hidentifier)
      · rw [heq, hnone'] at hsize
        simp at hsize
  obtain ⟨b, rfl⟩ := List.length_eq_one_iff.mp hx
  exact (List.cons.inj heq).2

end Begins

/-! ## Seams -/

/-- The token `y`, which ends with the byte `a`, and the byte `c` that follows it are such that no
rule reaches from `y` or from before it over the seam between the two. -/
structure Seam (y : Text) (a c : UInt8) : Prop where
  /-- The token ends with `a`. -/
  ends : [a] <:+ y
  /-- No code point is cut. -/
  ascii : a < 0x80
  /-- No white space goes on. -/
  blank : Rule.isBlank a = true → Rule.isBlank c = false
  /-- No word or number goes on. -/
  number : Byte.isNumberPart a = true → Byte.isNumberPart c = false
  /-- No lifetime turns into a character literal, and no mark is put before one. -/
  apostrophe : Byte.isWordPart a = true → c ≠ Byte.apostrophe
  /-- No word is the mark of a literal or of a raw identifier. -/
  mark : a = 0x62 ∨ a = 0x72 → c ≠ Byte.hash ∧ c ≠ Byte.quote
  /-- No hash belongs to an opening. -/
  hash : a = Byte.hash → Byte.quote ∈ y
  /-- No operator and no opening of a comment goes on. -/
  word : ∀ word ∈ Rule.joints, ¬ y ++ [c] <:+: word
  /-- No line comment goes on. -/
  comment : ¬ utf8 "//" <+: y
  /-- No stray apostrophe begins a literal or a lifetime. -/
  stray : y ≠ [Byte.apostrophe]

namespace Seam

open Rule

variable {y z s x r : Text} {a c : UInt8} {n : Nat} {kind : TokenKind}

/-- The last byte before a seam is one of the token there. -/
theorem last_mem (h : Seam y a c) : a ∈ y := h.ends.subset (List.mem_singleton_self a)

/-- No joint reaches over a seam. -/
theorem not_prefix (h : Seam y a c) (hz : y <:+ z) {word : Text} (hword : word ∈ joints) :
    ¬ z ++ [c] <+: word := by
  rintro ⟨after, hafter⟩
  obtain ⟨before, rfl⟩ := hz
  exact h.word word hword ⟨before, after, by rw [← hafter]; simp⟩

/-- A joint at the start of the text lies before the seam. -/
theorem length_le (h : Seam y a c) (hz : y <:+ z) {word : Text} (hword : word ∈ joints)
    (hpre : word <+: z ++ c :: s) : word.length ≤ z.length := by
  by_contra hlt
  exact h.not_prefix hz hword (append_singleton_prefix_of hpre (not_le.mp hlt))

/-- The bytes of words and numbers end at a seam. -/
theorem within_le (h : Seam y a c) (ha : a ∈ z) {size : Text → Nat}
    (hsize : Within Byte.isNumberPart size) : size (z ++ c :: s) ≤ z.length := by
  by_contra hlt
  obtain ⟨hall, hc⟩ := hsize.of_lt (not_le.mp hlt)
  rw [h.number (hall a ha)] at hc
  exact absurd hc (by decide)

/-- The rule of a single word does not reach over a seam. -/
theorem exactly_le (h : Seam y a c) (hz : y <:+ z) {word : String}
    (hword : utf8 word ∈ joints ∨ (utf8 word).length = 1)
    (hn : (exactly kind word).size? (z ++ c :: s) = some n) : n ≤ z.length := by
  simp only [exactly] at hn
  split at hn
  · next hpre =>
    obtain rfl := Option.some.inj hn
    rcases hword with hjoint | hone
    · exact h.length_le hz hjoint (List.isPrefixOf_iff_prefix.mp hpre)
    · rw [hone]
      exact List.length_pos_of_mem (hz.subset h.last_mem)
  · simp at hn

/-- White space does not reach over a seam. -/
theorem whitespaceSize?_le (h : Seam y a c) (hz : y <:+ z)
    (hn : whitespaceSize? (z ++ c :: s) = some n) : n ≤ z.length := by
  have hle : ((z ++ c :: s).takeWhile isBlank).length ≤ z.length := by
    by_contra hlt
    obtain ⟨hall, hc⟩ := (within_takeWhile isBlank).of_lt (not_le.mp hlt)
    rw [h.blank (hall a (hz.subset h.last_mem))] at hc
    exact absurd hc (by decide)
  unfold whitespaceSize? at hn
  split at hn
  · simp at hn
  · next m hm =>
    obtain rfl := Option.some.inj hn
    omega

/-- Operators do not reach over a seam. -/
theorem operatorSize?_le (h : Seam y a c) (hz : y <:+ z)
    (hn : operatorSize? (z ++ c :: s) = some n) : n ≤ z.length := by
  rcases operatorSize?_eq_some_iff.mp hn with ⟨op, hop, rfl⟩ | ⟨-, -, -, -, -, rfl⟩
  · have hmem := List.mem_of_find?_eq_some hop
    exact h.length_le hz (List.mem_append_right _ hmem) (find?_isPrefixOf_eq_some_iff.mp hop).1
  · exact List.length_pos_of_mem (hz.subset h.last_mem)

/-- Numbers do not reach over a seam. -/
theorem numberSize?_le (h : Seam y a c) (hz : y <:+ z)
    (hn : numberSize? (z ++ c :: s) = some n) : n ≤ z.length := by
  rw [numberSize?_eq] at hn
  split at hn
  · simp at hn
  · obtain rfl := Option.some.inj hn
    exact h.within_le (hz.subset h.last_mem) within_numberSize

/-- Words do not reach over a seam. -/
theorem wordSize?_le (h : Seam y a c) (ha : a ∈ z) (hn : wordSize? (z ++ c :: s) = some n) :
    n ≤ z.length := by
  obtain ⟨-, -, -, -, rfl⟩ := wordSize?_eq_some_iff.mp hn
  exact h.within_le ha (within_word.mono Byte.isNumberPart_of_isWordPart)

/-- The last byte before a seam is behind the first byte, unless that is the only one. -/
theorem mem_of_cons (h : Seam y a c) {b : UInt8} (hz : y <:+ b :: z) :
    z = [] ∧ a = b ∨ [a] <:+ z := by
  rcases List.suffix_cons_iff.mp (h.ends.trans hz) with heq | hsuffix
  · obtain ⟨rfl, rfl⟩ := List.cons.inj heq
    exact .inl ⟨rfl, rfl⟩
  · exact .inr hsuffix

/-- Identifiers do not reach over a seam. -/
theorem identifierSize?_le (h : Seam y a c) (hz : y <:+ z)
    (hn : identifierSize? (z ++ c :: s) = some n) : n ≤ z.length := by
  rcases identifierSize?_eq_some_iff.mp hn with ⟨rest, k, heq, hk, rfl⟩ | ⟨-, hword⟩
  · rcases z with _ | ⟨b, _ | ⟨b', z⟩⟩
    · simpa using hz.subset h.last_mem
    · -- The seam would stand between the two bytes of the raw mark.
      obtain ⟨rfl, rfl, -⟩ : b = 0x72 ∧ c = Byte.hash ∧ s = rest := by simpa using heq
      rcases h.mem_of_cons hz with ⟨-, rfl⟩ | hsuffix
      · exact absurd rfl (h.mark (.inr rfl)).1
      · simp at hsuffix
    · obtain ⟨rfl, rfl, rfl⟩ : b = 0x72 ∧ b' = Byte.hash ∧ z ++ c :: s = rest := by simpa using heq
      rcases h.mem_of_cons hz with ⟨hnil, -⟩ | hsuffix
      · simp at hnil
      rcases List.suffix_cons_iff.mp hsuffix with heq' | hsuffix
      · -- The seam would stand right behind the raw mark.
        obtain ⟨rfl, rfl⟩ := List.cons.inj heq'
        exact absurd (hz.subset (h.hash rfl)) (by decide)
      · have := h.wordSize?_le (hsuffix.subset (List.mem_singleton_self a)) hk
        simp only [List.length_cons]
        omega
  · exact h.wordSize?_le (hz.subset h.last_mem) hword

/-- Lifetimes do not reach over a seam. -/
theorem lifetimeSize?_le (h : Seam y a c) (hz : y <:+ z)
    (hn : lifetimeSize? (z ++ c :: s) = some n) : n ≤ z.length := by
  obtain ⟨rest, k, heq, hk, rfl⟩ := lifetimeSize?_eq_some_iff.mp hn
  rcases z with _ | ⟨b, z⟩
  · simpa using hz.subset h.last_mem
  · obtain ⟨rfl, rfl⟩ := List.cons.inj heq
    rcases h.mem_of_cons hz with ⟨rfl, -⟩ | hsuffix
    · rcases List.suffix_cons_iff.mp hz with hy | hy
      · exact absurd hy h.stray
      · simpa using hy.subset h.last_mem
    · have := h.wordSize?_le (hsuffix.subset (List.mem_singleton_self a)) hk
      simp only [List.length_cons]
      omega

/-! The rules that look at what is opened depend on the token that stands there. -/

/-- The token before a seam lies in the text up to the seam. -/
theorem suffix_append (hlast : y = x ++ r ∨ y <:+ r) : y <:+ x ++ r := by
  rcases hlast with rfl | hr
  · exact List.suffix_rfl
  · exact hr.trans (List.suffix_append x r)

/-- Line comments do not reach over a seam. -/
theorem lineCommentSize?_le (h : Seam y a c) (hb : Begins kind x r)
    (hlast : y = x ++ r ∨ y <:+ r) (hn : lineCommentSize? (x ++ r ++ c :: s) = some n) :
    n ≤ (x ++ r).length := by
  have hz := suffix_append hlast
  unfold lineCommentSize? at hn
  split at hn
  · next hpre =>
    obtain rfl := Option.some.inj hn
    rw [isPrefixOf_append (h.length_le hz (by decide) (List.isPrefixOf_iff_prefix.mp hpre))] at hpre
    by_contra hlt
    obtain ⟨hall, -⟩ := (within_takeWhile (· != Byte.newline)).of_lt (not_le.mp hlt)
    -- The comment goes on up to the seam, so that it is the token before the seam.
    have hsize : lineCommentSize? (x ++ r) = some (x ++ r).length := by
      unfold lineCommentSize?
      rw [if_pos hpre, List.takeWhile_eq_self_iff.mpr hall]
    have hle := hb.size?_le
      (by simp [all] : ⟨.lineComment, lineCommentSize?⟩ ∈ all) hsize
    rw [List.length_append] at hle
    obtain rfl : r = [] := List.eq_nil_of_length_eq_zero (by omega)
    rcases hlast with rfl | hnil
    · exact h.comment (List.isPrefixOf_iff_prefix.mp hpre)
    · simpa using hnil.subset h.last_mem
  · simp at hn

/-- An opening of a block comment lies before a seam. -/
theorem blockOpening_prefix (h : Seam y a c) (hz : y <:+ z) (hpre : utf8 "/*" <+: z ++ c :: s) :
    utf8 "/*" <+: z :=
  List.prefix_of_prefix_length_le hpre (List.prefix_append z _)
    (h.length_le hz (by decide) hpre)

/-- An opening of a raw string literal lies before a seam. -/
theorem rawOpening_prefix (h : Seam y a c) (hz : y <:+ z) {mark : Text} {hashes : Nat}
    (hmark : IsMark mark) (hpre : rawOpening mark hashes <+: z ++ c :: s) :
    rawOpening mark hashes <+: z := by
  rcases prefix_or_append_singleton hpre with hbefore | hover
  · exact hbefore
  exfalso
  -- The opening is made of marks, hashes and, at its end only, the quote.
  have hbytes : ∀ b ∈ mark ++ 0x72 :: List.replicate hashes Byte.hash,
      b = 0x62 ∨ b = 0x72 ∨ b = Byte.hash := by
    intro b hb
    simp only [List.mem_append, List.mem_cons, List.mem_replicate] at hb
    rcases hb with hb | rfl | ⟨-, rfl⟩
    · rcases hmark with rfl | rfl
      · simp at hb
      · exact .inl (List.mem_singleton.mp hb)
    · exact .inr (.inl rfl)
    · exact .inr (.inr rfl)
  have hopening : rawOpening mark hashes =
      (mark ++ 0x72 :: List.replicate hashes Byte.hash) ++ [Byte.quote] := by simp [rawOpening]
  rw [hopening] at hover
  have hzpre : z <+: mark ++ 0x72 :: List.replicate hashes Byte.hash := by
    have hlen := hover.length_le
    simp only [List.length_append, List.length_singleton] at hlen
    refine List.prefix_of_prefix_length_le ((List.prefix_append z [c]).trans hover)
      (List.prefix_append _ _) ?_
    rw [List.length_append]
    omega
  have hc : c = 0x62 ∨ c = 0x72 ∨ c = Byte.hash ∨ c = Byte.quote := by
    have hmem := hover.subset (List.mem_append_right z (List.mem_singleton_self c))
    rcases List.mem_append.mp hmem with hmem | hmem
    · rcases hbytes c hmem with rfl | rfl | rfl <;> simp
    · simp [List.mem_singleton.mp hmem]
  have hnumber : ∀ b : UInt8, b = 0x62 ∨ b = 0x72 → Byte.isNumberPart b = true := by
    rintro b (rfl | rfl) <;> decide +kernel
  rcases or_assoc.mpr (hbytes a (hzpre.subset (hz.subset h.last_mem))) with ha | ha
  · rcases or_assoc.mpr hc with hc | rfl | rfl
    · have hfalse := h.number (hnumber a ha)
      rw [hnumber c hc] at hfalse
      exact absurd hfalse (by decide)
    · exact (h.mark ha).1 rfl
    · exact (h.mark ha).2 rfl
  · exact absurd (hbytes _ (hzpre.subset (hz.subset (h.hash ha)))) (by decide)

/-- A quote that may be marked lies before a seam, unless the seam stands between mark and quote. -/
theorem marked_prefix (h : Seam y a c) (hz : y <:+ z) {mark : Text} {quote : UInt8}
    (hmark : IsMark mark) (hpre : mark ++ [quote] <+: z ++ c :: s) :
    mark ++ [quote] <+: z ∨ a = 0x62 ∧ c = quote := by
  rcases prefix_or_append_singleton hpre with hbefore | hover
  · exact .inl hbefore
  right
  have hlen := hover.length_le
  rcases z with _ | ⟨b, z⟩
  · simpa using hz.subset h.last_mem
  rcases hmark with rfl | rfl
  · simp at hlen
  · obtain rfl : z = [] := List.eq_nil_of_length_eq_zero (by simpa using hlen)
    obtain ⟨rfl, rfl⟩ : b = 0x62 ∧ c = quote := by simpa using hover
    rcases h.mem_of_cons hz with ⟨-, rfl⟩ | hnil
    · exact ⟨rfl, rfl⟩
    · simp at hnil

/-- What is not left open before a seam is not left open with the text after the seam. -/
theorem unterminated?_eq_none (h : Seam y a c) (hz : y <:+ z)
    (hnone : unterminated? kind z = none) : unterminated? kind (z ++ c :: s) = none := by
  obtain ⟨h₁, h₂, h₃⟩ := unterminated?_eq_none_iff.mp hnone
  refine unterminated?_eq_none_iff.mpr ⟨fun ho => ?_, fun ho => ?_, fun ho => ?_⟩
  · exact h₁ (List.isPrefixOf_iff_prefix.mpr
      (h.blockOpening_prefix hz (List.isPrefixOf_iff_prefix.mp ho)))
  · obtain ⟨mark, hashes, hmark, hpre⟩ := isSome_rawStringOpening?_iff.mp ho
    exact h₂ (isSome_rawStringOpening?_iff.mpr
      ⟨mark, hashes, hmark, h.rawOpening_prefix hz hmark hpre⟩)
  · obtain ⟨mark, hmark, hpre⟩ := isStringOpening_iff.mp ho
    rcases h.marked_prefix hz hmark hpre with hbefore | ⟨ha, hc⟩
    · exact h₃ (isStringOpening_iff.mpr ⟨mark, hmark, hbefore⟩)
    · exact absurd hc (h.mark (.inl ha)).2

/-- A token with a closing delimiter does not grow. -/
theorem delimited_le (hb : Begins kind x r) {size? : Text → Option Nat} (hd : Delimited size?)
    (hrule : ⟨kind, size?⟩ ∈ all) (hn : size? (x ++ r ++ s) = some n) : n ≤ (x ++ r).length := by
  have hsize : size? (x ++ r) = some x.length := hb.size?_eq hrule rfl
  rw [hd.append s hsize] at hn
  obtain rfl := Option.some.inj hn
  rw [List.length_append]
  omega

/-- Block comments do not reach over a seam. -/
theorem blockCommentSize?_le (h : Seam y a c) (hb : Begins kind x r) (hz : y <:+ x ++ r)
    (hn : blockCommentSize? (x ++ r ++ c :: s) = some n) : n ≤ (x ++ r).length := by
  have hopen : utf8 "/*" <+: x ++ r := by
    unfold blockCommentSize? at hn
    split at hn
    · next hpre => exact h.blockOpening_prefix hz (List.isPrefixOf_iff_prefix.mp hpre)
    · simp at hn
  obtain ⟨-, -, hnone, -⟩ := begins_iff.mp hb
  obtain rfl := (unterminated?_eq_none_iff.mp hnone).1 (List.isPrefixOf_iff_prefix.mpr hopen)
  exact delimited_le hb delimited_blockCommentSize? (by simp [all]) hn

/-- Raw string literals do not reach over a seam. -/
theorem rawStringSize?_le (h : Seam y a c) (hb : Begins kind x r) (hz : y <:+ x ++ r)
    (hn : rawStringSize? (x ++ r ++ c :: s) = some n) : n ≤ (x ++ r).length := by
  obtain ⟨mark, hashes, rest, k, hmark, heq, -, -⟩ := rawStringSize?_eq_some_iff.mp hn
  have hopen := h.rawOpening_prefix hz hmark ⟨rest, heq.symm⟩
  obtain ⟨-, -, hnone, -⟩ := begins_iff.mp hb
  obtain rfl := (unterminated?_eq_none_iff.mp hnone).2.1
    (isSome_rawStringOpening?_iff.mpr ⟨mark, hashes, hmark, hopen⟩)
  exact delimited_le hb delimited_rawStringSize? (by simp [all]) hn

/-- String literals do not reach over a seam. -/
theorem stringSize?_le (h : Seam y a c) (hb : Begins kind x r) (hz : y <:+ x ++ r)
    (hn : stringSize? (x ++ r ++ c :: s) = some n) : n ≤ (x ++ r).length := by
  have hmarked := hn
  rw [stringSize?_eq_markedSize?] at hmarked
  obtain ⟨mark, rest, k, hmark, heq, -, -⟩ := (markedSize?_eq_some_iff (by decide)).mp hmarked
  have hpre : mark ++ [Byte.quote] <+: x ++ r ++ c :: s := ⟨rest, by rw [heq]; simp⟩
  rcases h.marked_prefix hz hmark hpre with hopen | ⟨ha, hc⟩
  · obtain ⟨-, -, hnone, -⟩ := begins_iff.mp hb
    obtain rfl := (unterminated?_eq_none_iff.mp hnone).2.2
      (isStringOpening_iff.mpr ⟨mark, hmark, hopen⟩)
    exact delimited_le hb delimited_stringSize? (by simp [all]) hn
  · exact absurd hc (h.mark (.inl ha)).2

/-- A lifetime before a seam does not turn into a character literal that is closed behind it. -/
theorem not_characterBody_of_word (h : Seam y a c) {body rest : Text} {k : Nat}
    (hword : wordSize? z = some k) (hends : [a] <:+ z) (hbody : CharacterBody body)
    (heq : z ++ c :: s = body ++ Byte.apostrophe :: rest) (hle : z.length ≤ body.length) :
    False := by
  have hpre : z <+: body :=
    List.prefix_of_prefix_length_le ⟨c :: s, rfl⟩ (heq ▸ List.prefix_append _ _) hle
  obtain ⟨b, more, rfl, hstart, rfl⟩ := wordSize?_eq_some_iff.mp hword
  cases hbody with
  | escape hc hbody =>
    obtain ⟨rfl, -⟩ := List.cons_prefix_cons.mp hpre
    rw [Rune.read_of_lt _ (by decide)] at hstart
    exact absurd hstart (by decide +kernel)
  | @rune b' all hescape hquote hnewline hall =>
    obtain ⟨rfl, tail, rfl⟩ := List.cons_prefix_cons.mp hpre
    -- The code point that begins the word is whole, so it is all of the body.
    have hcode : (Rune.read b more).code ≠ Rune.replacement := by
      intro hcode
      have hpart := isWordPart_of_isWordStart hstart
      rw [hcode, Rune.not_isWordPart_replacement] at hpart
      exact absurd hpart (by decide)
    rw [Rune.read_append tail hcode, List.length_append] at hall
    have hextra := (Rune.extra_read_le b more).1
    obtain rfl : tail = [] := List.eq_nil_of_length_eq_zero (by omega)
    have hspan := extra_lt_span_of_isWordStart hstart
    rw [List.append_nil, List.append_right_inj] at heq
    have ha : a ∈ (b :: more).take (Text.span Rune.isWordPart (b :: more)) := by
      rw [List.take_of_length_le]
      · exact hends.subset (List.mem_singleton_self a)
      · simp only [List.length_cons, List.length_nil] at hall ⊢
        omega
    exact h.apostrophe (within_word _ a ha) (List.cons.inj heq).1

/-- A stray apostrophe before a seam does not turn into a character literal that is closed behind
it, unless a backslash follows it or the closing apostrophe follows the seam. -/
theorem not_characterBody_of_stray (h : Seam y a c) {body rest : Text} (hends : [a] <:+ z)
    (hescape : z.head? ≠ some Byte.backslash) (hquote : c = Byte.apostrophe → 2 ≤ z.length)
    (hbody : CharacterBody body) (heq : z ++ c :: s = body ++ Byte.apostrophe :: rest)
    (hle : z.length ≤ body.length) : False := by
  have hpre : z <+: body :=
    List.prefix_of_prefix_length_le ⟨c :: s, rfl⟩ (heq ▸ List.prefix_append _ _) hle
  rcases z with _ | ⟨b, z⟩
  · simp at hends
  -- A body that begins with a backslash is excluded, and a code point ends before the seam.
  cases hbody with
  | escape hc hbody =>
    obtain ⟨rfl, -⟩ := List.cons_prefix_cons.mp hpre
    exact hescape rfl
  | @rune b' more _ _ _ hmore =>
    obtain ⟨rfl, hz⟩ := List.cons_prefix_cons.mp hpre
    rcases List.suffix_cons_iff.mp hends with hends | hends
    · -- The body is a single ASCII character, and so is the text before the seam.
      obtain ⟨rfl, rfl⟩ := List.cons.inj hends
      rw [Rune.read_of_lt _ h.ascii] at hmore
      obtain rfl : more = [] := List.eq_nil_of_length_eq_zero hmore.symm
      exact absurd (hquote (List.cons.inj (List.cons.inj heq).2).1) (by simp)
    · have hmem := hz.subset (hends.subset (List.mem_singleton_self a))
      have hge := (Rune.extra_read_le b more).2 a (by rw [hmore, List.take_length]; exact hmem)
      exact absurd h.ascii (UInt8.not_lt.mpr hge)

/-- Character literals do not reach over a seam. -/
theorem characterSize?_le (h : Seam y a c) (hb : Begins kind x r)
    (hlast : y = x ++ r ∨ y <:+ r)
    (hnext : r ≠ [] → ∀ n, characterSize? (r ++ c :: s) = some n → n ≤ r.length)
    (hstray : kind = .unassigned → x = [Byte.apostrophe] →
      r.head? ≠ some Byte.backslash ∧ (c = Byte.apostrophe → 2 ≤ r.length))
    (hn : characterSize? (x ++ r ++ c :: s) = some n) : n ≤ (x ++ r).length := by
  have hz := suffix_append hlast
  by_contra hlt
  -- A literal that lies before the seam would be the same with the text after it.
  have hnone : characterSize? (x ++ r) = none := by
    by_contra hsome
    obtain ⟨m, hm⟩ := Option.ne_none_iff_exists'.mp hsome
    rw [delimited_characterSize?.append (c :: s) hm] at hn
    obtain rfl := Option.some.inj hn
    exact hlt (delimited_characterSize?.le_length hm)
  rw [characterSize?_eq_markedSize?] at hn
  obtain ⟨mark, rest, k, hmark, heq, hk, rfl⟩ := (markedSize?_eq_some_iff (by decide)).mp hn
  have hpre : mark ++ [Byte.apostrophe] <+: x ++ r ++ c :: s := ⟨rest, by rw [heq]; simp⟩
  rcases h.marked_prefix hz hmark hpre with ⟨z, hopen⟩ | ⟨rfl, hc⟩
  swap
  · exact h.apostrophe (by decide +kernel) hc
  rw [← hopen, List.append_assoc, List.append_assoc, List.append_right_inj] at heq
  obtain rfl : z ++ c :: s = rest := by simpa using heq
  rw [← hopen] at hlt
  rcases hmark with rfl | rfl
  · obtain ⟨body, rest, hbody, heq', rfl⟩ := characterEnd?_eq_some_iff.mp hk
    simp only [List.nil_append, List.singleton_append, List.length_cons,
      List.length_nil] at hopen hlt
    rcases hb.apostrophe_cases hopen.symm hnone with ⟨m, hword⟩ | ⟨hkind, rfl, rfl⟩
    · rw [← hopen] at hz
      rcases h.mem_of_cons hz with ⟨rfl, -⟩ | hends
      · simp [wordSize?] at hword
      · exact h.not_characterBody_of_word hword hends hbody heq' (by omega)
    · obtain ⟨hescape, hquote⟩ := hstray hkind rfl
      have hz : y <:+ Byte.apostrophe :: r := hz
      rcases h.mem_of_cons hz with ⟨rfl, -⟩ | hends
      · -- The apostrophe would be all of the token before the seam.
        rcases hlast with rfl | hnil
        · exact h.stray rfl
        · simpa using hnil.subset h.last_mem
      · exact h.not_characterBody_of_stray hends hescape hquote hbody heq' (by omega)
  · -- Behind the mark the literal reaches over the seam just as well.
    obtain rfl := hb.mark_apostrophe hopen.symm hnone
    have hmarked : characterSize? (Byte.apostrophe :: z ++ c :: s) = some (k + 1) := by
      rw [characterSize?_eq_markedSize?]
      exact (markedSize?_eq_some_iff (by decide)).mpr ⟨[], z ++ c :: s, k, .inl rfl, rfl, hk, rfl⟩
    have hle : k + 1 ≤ z.length + 1 := hnext (List.cons_ne_nil _ _) _ hmarked
    have hlt : ¬ k + 2 ≤ z.length + 2 := hlt
    omega

/-- No rule reaches over a seam. -/
theorem size?_le (h : Seam y a c) (hb : Begins kind x r) (hlast : y = x ++ r ∨ y <:+ r)
    (hcharacter : ∀ n, characterSize? (x ++ r ++ c :: s) = some n → n ≤ (x ++ r).length)
    {rule : Rule} (hrule : rule ∈ all) (hn : rule.size? (x ++ r ++ c :: s) = some n) :
    n ≤ (x ++ r).length := by
  have hz := suffix_append hlast
  simp only [all, List.mem_cons, List.not_mem_nil, or_false] at hrule
  rcases hrule with rfl | rfl | rfl | rfl | rfl | rfl | rfl | rfl | rfl | rfl | hrule
  · exact h.exactly_le hz (by decide) hn
  · exact h.whitespaceSize?_le hz hn
  · exact h.lineCommentSize?_le hb hlast hn
  · exact h.blockCommentSize?_le hb hz hn
  · exact h.rawStringSize?_le hb hz hn
  · exact h.stringSize?_le hb hz hn
  · exact hcharacter n hn
  · exact h.identifierSize?_le hz hn
  · exact h.lifetimeSize?_le hz hn
  · exact h.numberSize?_le hz hn
  · rcases hrule with rfl | rfl | rfl | rfl | rfl | rfl | rfl | rfl | rfl | rfl | rfl | rfl | rfl |
      rfl | rfl | rfl | rfl | rfl | rfl | rfl
    any_goals exact h.exactly_le hz (by decide) hn
    exact h.operatorSize?_le hz hn

/-- The first code point of a text does not reach over a seam. -/
theorem firstWidth_le (h : Seam y a c) (hz : y <:+ z) :
    (z ++ c :: s).firstWidth ≤ z.length := by
  rcases z with _ | ⟨b, z⟩
  · simpa using hz.subset h.last_mem
  · by_contra hlt
    simp only [List.cons_append, Text.firstWidth, Rune.width, List.length_cons] at hlt
    -- All bytes before the seam would belong to a code point that is not ASCII.
    rcases h.mem_of_cons hz with ⟨rfl, rfl⟩ | hends
    · rw [Rune.read_of_lt _ h.ascii] at hlt
      simp at hlt
    · have hpre : z <+: (z ++ c :: s).take (Rune.read b (z ++ c :: s)).extra :=
        List.prefix_take_iff.mpr ⟨List.prefix_append z _, by omega⟩
      have hmem := hpre.subset (hends.subset (List.mem_singleton_self a))
      exact absurd h.ascii (UInt8.not_lt.mpr ((Rune.extra_read_le b _).2 a hmem))

/-- A token before a seam is the same with the text after the seam. -/
theorem begins (h : Seam y a c) (hb : Begins kind x r) (hlast : y = x ++ r ∨ y <:+ r)
    (hnext : r ≠ [] → ∀ n, characterSize? (r ++ c :: s) = some n → n ≤ r.length)
    (hstray : kind = .unassigned → x = [Byte.apostrophe] →
      r.head? ≠ some Byte.backslash ∧ (c = Byte.apostrophe → 2 ≤ r.length)) :
    Begins kind x (r ++ c :: s) := by
  have hz := suffix_append hlast
  refine (begins_append_iff (fun rule hrule n hn => ?_) (fun _ => h.firstWidth_le hz)
    (h.unterminated?_eq_none hz)).mpr hb
  exact h.size?_le hb hlast (fun n => h.characterSize?_le hb hlast hnext hstray) hrule hn

end Seam

end CallConv
