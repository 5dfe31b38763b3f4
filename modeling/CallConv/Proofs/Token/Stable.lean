import Mathlib
import CallConv.Proofs.Text.Rune
import CallConv.Token.Lexer

/-!
# Rules on a start of a text

A rule of the lexer is stable when a token that it finds within a start of a text is found in the
start alone, and a token that it finds in the start alone is, in the whole text, still there or
longer. What follows a token can then only matter to a rule that reaches over all of the text up
to a seam. `Stable` states this of a rule, `Delimited` is the stronger form for tokens that end
with a closing delimiter, and `Greedy` is the form for the runs that the other rules are made of.
This module proves it of single words, white space, line comments and numbers.
-/

namespace CallConv

/-- A length at the start of a text that only grows with the text, and not once it lies within. -/
structure Greedy (size : Text → Nat) : Prop where
  /-- The length is one of the text. -/
  le_length : ∀ t, size t ≤ t.length
  /-- A length within a start of a text is that of the start alone. -/
  of_append : ∀ {w s}, size (w ++ s) ≤ w.length → size w = size (w ++ s)
  /-- The length does not shrink with more text. -/
  append : ∀ w s, size w ≤ size (w ++ s)

namespace Greedy

/-- Runs of bytes are greedy. -/
theorem takeWhile (p : UInt8 → Bool) : Greedy fun t => (t.takeWhile p).length where
  le_length t := (List.takeWhile_prefix p).length_le
  of_append {w s} h := by
    rw [List.takeWhile_append] at h ⊢
    split
    · next hw =>
      rw [if_pos hw, List.length_append] at h
      rw [hw, List.length_append]
      omega
    · rfl
  append w s := by
    rw [List.takeWhile_append]
    split
    · next hw =>
      rw [hw, List.length_append]
      omega
    · exact le_refl _

/-- Runs of code points are greedy when U+FFFD is not part of one. -/
theorem span {p : Nat → Bool} (hp : p Rune.replacement = false) : Greedy (Text.span p) where
  le_length t := Text.spanAfter_le p 0 t
  of_append h := Text.spanAfter_of_append hp h
  append w s := Text.spanAfter_le_append hp w s 0

/-- One greedy length after the other is greedy. -/
theorem andThen {f g : Text → Nat} (hf : Greedy f) (hg : Greedy g) :
    Greedy fun t => f t + g (t.drop (f t)) where
  le_length t := by
    have h₁ := hf.le_length t
    have h₂ := hg.le_length (t.drop (f t))
    rw [List.length_drop] at h₂
    omega
  of_append {w s} h := by
    have hfw : f w = f (w ++ s) := hf.of_append (by omega)
    have hle := hf.le_length w
    rw [← hfw, List.drop_append_of_le_length hle] at h ⊢
    rw [hg.of_append (w := w.drop (f w)) (s := s) (by rw [List.length_drop]; omega)]
  append w s := by
    have hle := hf.le_length w
    rcases Nat.lt_or_ge w.length (f (w ++ s)) with hlt | hge
    · -- The first length already reaches beyond `w`, and with it beyond the sum on `w`.
      have h₂ := hg.le_length (w.drop (f w))
      rw [List.length_drop] at h₂
      omega
    · rw [← hf.of_append hge, List.drop_append_of_le_length hle]
      exact Nat.add_le_add_left (hg.append _ s) _

end Greedy

namespace Rule

/-- What every rule has in common: its tokens are nonempty and lie within the text, and more text
can only make the token at the start longer, if it ends where the text did. -/
structure Stable (size? : Text → Option Nat) : Prop where
  /-- No token is empty. -/
  pos : ∀ {t n}, size? t = some n → 0 < n
  /-- A token lies within the text. -/
  le_length : ∀ {t n}, size? t = some n → n ≤ t.length
  /-- A token within a start of a text is found in the start alone. -/
  of_append : ∀ {w s n}, size? (w ++ s) = some n → n ≤ w.length → size? w = some n
  /-- With more text there is still a token, and no shorter one. -/
  append : ∀ {w m} (s), size? w = some m → ∃ n, size? (w ++ s) = some n ∧ m ≤ n

/-- A greedy length is a stable rule where a greedy start of it is not empty. -/
theorem Stable.ofGreedy {first size : Text → Nat} (hf : Greedy first) (hs : Greedy size)
    (hle : ∀ t, first t ≤ size t) {size? : Text → Option Nat}
    (h : ∀ t, size? t = if first t = 0 then none else some (size t)) : Stable size? where
  pos {t n} ht := by
    rw [h] at ht
    split at ht
    · simp at ht
    · next hne =>
      obtain rfl := Option.some.inj ht
      exact lt_of_lt_of_le (Nat.pos_of_ne_zero hne) (hle t)
  le_length {t n} ht := by
    rw [h] at ht
    split at ht
    · simp at ht
    · obtain rfl := Option.some.inj ht
      exact hs.le_length t
  of_append {w s n} ht hn := by
    rw [h] at ht
    split at ht
    · simp at ht
    · next hne =>
      obtain rfl := Option.some.inj ht
      rw [h, hf.of_append (le_trans (hle _) hn), if_neg hne, hs.of_append hn]
  append {w m} s ht := by
    rw [h] at ht
    split at ht
    · simp at ht
    · next hne =>
      obtain rfl := Option.some.inj ht
      have := hf.append w s
      refine ⟨size (w ++ s), ?_, hs.append w s⟩
      rw [h, if_neg (by omega)]

/-- A rule whose tokens end with a closing delimiter: nothing that follows makes one longer. -/
structure Delimited (size? : Text → Option Nat) : Prop where
  /-- No token is empty. -/
  pos : ∀ {t n}, size? t = some n → 0 < n
  /-- A token lies within the text. -/
  le_length : ∀ {t n}, size? t = some n → n ≤ t.length
  /-- A token within a start of a text is found in the start alone. -/
  of_append : ∀ {w s n}, size? (w ++ s) = some n → n ≤ w.length → size? w = some n
  /-- With more text the token is the same. -/
  append : ∀ {w n} (s), size? w = some n → size? (w ++ s) = some n

/-- A rule with a closing delimiter is stable. -/
theorem Delimited.stable {size? : Text → Option Nat} (h : Delimited size?) : Stable size? where
  pos := h.pos
  le_length := h.le_length
  of_append := h.of_append
  append {_ m} s hm := ⟨m, h.append s hm, le_refl m⟩

/-- A word that begins a text begins every text with that start, and one no longer than a start
begins the start. -/
theorem isPrefixOf_append {word w s : Text} (h : word.length ≤ w.length) :
    word.isPrefixOf (w ++ s) = word.isPrefixOf w := by
  rw [Bool.eq_iff_iff, List.isPrefixOf_iff_prefix, List.isPrefixOf_iff_prefix]
  constructor
  · intro hp
    exact List.prefix_of_prefix_length_le hp (List.prefix_append w s) h
  · intro hp
    exact hp.trans (List.prefix_append w s)

/-- A word that begins a text begins every longer text. -/
theorem isPrefixOf_append_of {word w : Text} (s : Text) (h : word.isPrefixOf w = true) :
    word.isPrefixOf (w ++ s) = true := by
  rw [isPrefixOf_append (List.isPrefixOf_iff_prefix.mp h).length_le]
  exact h

/-- The rule of a single nonempty word is stable. -/
theorem stable_exactly {kind : TokenKind} {word : String} (hword : utf8 word ≠ []) :
    Stable (exactly kind word).size? where
  pos {t n} h := by
    simp only [exactly] at h
    split at h
    · obtain rfl := Option.some.inj h
      exact List.length_pos_iff.mpr hword
    · simp at h
  le_length {t n} h := by
    simp only [exactly] at h
    split at h
    · next hp =>
      obtain rfl := Option.some.inj h
      exact (List.isPrefixOf_iff_prefix.mp hp).length_le
    · simp at h
  of_append {w s n} h hle := by
    simp only [exactly] at h ⊢
    split at h
    · next hp =>
      obtain rfl := Option.some.inj h
      rw [isPrefixOf_append hle] at hp
      rw [if_pos hp]
    · simp at h
  append {w m} s h := by
    simp only [exactly] at h ⊢
    split at h
    · next hp =>
      rw [if_pos (isPrefixOf_append_of s hp)]
      exact ⟨_, rfl, (Option.some.inj h).ge⟩
    · simp at h

/-! ## White space, line comments and numbers -/

/-- The rule of white space is stable. -/
theorem stable_whitespaceSize? : Stable whitespaceSize? := by
  have hrun := Greedy.takeWhile isBlank
  refine Stable.ofGreedy hrun hrun (fun t => le_refl _) fun t => ?_
  unfold whitespaceSize?
  split
  · next h => rw [h, if_pos rfl]
  · next n h => rw [h, if_neg (Nat.succ_ne_zero n)]

/-- A line comment is at least its two slashes. -/
theorem two_le_takeWhile_of_isPrefixOf {t : Text} (h : (utf8 "//").isPrefixOf t = true) :
    2 ≤ (t.takeWhile (· != Byte.newline)).length := by
  obtain ⟨r, rfl⟩ := List.isPrefixOf_iff_prefix.mp h
  show 2 ≤ ((Byte.slash :: Byte.slash :: r).takeWhile (· != Byte.newline)).length
  have hslash : (Byte.slash != Byte.newline) = true := by decide
  rw [List.takeWhile_cons_of_pos (p := (· != Byte.newline)) hslash,
    List.takeWhile_cons_of_pos (p := (· != Byte.newline)) hslash]
  simp only [List.length_cons]
  omega

/-- The rule of line comments is stable. -/
theorem stable_lineCommentSize? : Stable lineCommentSize? where
  pos {t n} h := by
    unfold lineCommentSize? at h
    split at h
    · next hp =>
      obtain rfl := Option.some.inj h
      exact lt_of_lt_of_le Nat.zero_lt_two (two_le_takeWhile_of_isPrefixOf hp)
    · simp at h
  le_length {t n} h := by
    unfold lineCommentSize? at h
    split at h
    · obtain rfl := Option.some.inj h
      exact (Greedy.takeWhile _).le_length t
    · simp at h
  of_append {w s n} h hle := by
    unfold lineCommentSize? at h ⊢
    split at h
    · next hp =>
      obtain rfl := Option.some.inj h
      have h2 := two_le_takeWhile_of_isPrefixOf hp
      -- The two slashes are part of the token, and so lie in the start.
      rw [isPrefixOf_append (le_trans h2 hle)] at hp
      rw [if_pos hp, (Greedy.takeWhile (· != Byte.newline)).of_append hle]
    · simp at h
  append {w m} s h := by
    unfold lineCommentSize? at h ⊢
    split at h
    · next hp =>
      obtain rfl := Option.some.inj h
      rw [if_pos (isPrefixOf_append_of s hp)]
      exact ⟨_, rfl, (Greedy.takeWhile (· != Byte.newline)).append w s⟩
    · simp at h

/-- The digits of a number are greedy. -/
theorem greedy_digitsSize : Greedy digitsSize where
  le_length t := by
    unfold digitsSize
    split
    · exact Nat.zero_le _
    · split
      · exact (Greedy.takeWhile _).le_length _
      · exact Nat.zero_le _
  of_append {w s} h := by
    cases w with
    | nil => exact (Nat.le_zero.mp h).symm
    | cons b w =>
      simp only [List.cons_append, digitsSize] at h ⊢
      by_cases hb : Byte.isDigit b = true
      · rw [if_pos hb] at h
        rw [if_pos hb, if_pos hb]
        exact (Greedy.takeWhile isDigitPart).of_append (w := b :: w) h
      · rw [if_neg hb, if_neg hb]
  append w s := by
    cases w with
    | nil => exact Nat.zero_le _
    | cons b w =>
      simp only [List.cons_append, digitsSize]
      split
      · exact (Greedy.takeWhile isDigitPart).append (b :: w) s
      · exact le_refl _

/-- The fraction of a number is a dot and what digits follow, if any do. -/
theorem fractionSize_cons (b : UInt8) (t : Text) :
    fractionSize (b :: t) = if b = Byte.dot ∧ digitsSize t ≠ 0 then digitsSize t + 1 else 0 := by
  simp only [fractionSize]
  split
  · next h => simp [h]
  · next n h => simp [h]

/-- The fraction of a number is greedy. -/
theorem greedy_fractionSize : Greedy fractionSize where
  le_length t := by
    cases t with
    | nil => exact le_refl _
    | cons b t =>
      have := greedy_digitsSize.le_length t
      rw [fractionSize_cons, List.length_cons]
      split <;> omega
  of_append {w s} h := by
    cases w with
    | nil => exact (Nat.le_zero.mp h).symm
    | cons b w =>
      rw [List.cons_append, fractionSize_cons, List.length_cons] at h
      rw [List.cons_append, fractionSize_cons, fractionSize_cons]
      split at h
      · next hb =>
        rw [greedy_digitsSize.of_append (w := w) (s := s) (by omega)]
      · next hb =>
        -- No digits with more text means no digits without it.
        have := greedy_digitsSize.append w s
        rw [if_neg hb, if_neg]
        rintro ⟨h₁, h₂⟩
        exact hb ⟨h₁, by omega⟩
  append w s := by
    cases w with
    | nil => exact Nat.zero_le _
    | cons b w =>
      have := greedy_digitsSize.append w s
      rw [List.cons_append, fractionSize_cons, fractionSize_cons]
      split
      · next hb =>
        rw [if_pos ⟨hb.1, by omega⟩]
        omega
      · exact Nat.zero_le _

/-- The length of the sign of an exponent, which is zero or one. -/
def signSize (t : Text) : Nat :=
  if t.head? = some Byte.plus ∨ t.head? = some Byte.hyphen then 1 else 0

/-- The number of digits after the sign of an exponent. -/
def exponentDigits (t : Text) : Nat := ((t.drop (signSize t)).takeWhile isDigitPart).length

/-- The exponent of a number is its letter, a sign, and what digits follow, if any do. -/
theorem exponentSize_cons (e : UInt8) (t : Text) :
    exponentSize (e :: t) =
      if (e = 0x65 ∨ e = 0x45) ∧ exponentDigits t ≠ 0 then signSize t + exponentDigits t + 1
      else 0 := by
  simp only [exponentSize]
  by_cases he : e = 0x65 ∨ e = 0x45
  · rw [if_pos he]
    have hsign : (if t.head? = some Byte.plus ∨ t.head? = some Byte.hyphen then 1 else 0) =
        signSize t := rfl
    have hdigits : ((t.drop (signSize t)).takeWhile isDigitPart).length = exponentDigits t := rfl
    rw [hsign, hdigits]
    cases exponentDigits t with
    | zero => simp
    | succ n =>
      rw [if_pos ⟨he, Nat.succ_ne_zero n⟩]
      rfl
  · rw [if_neg he, if_neg (fun h => he h.1)]

/-- The sign and the digits of an exponent lie within the text. -/
theorem signSize_add_exponentDigits_le (t : Text) : signSize t + exponentDigits t ≤ t.length := by
  have h₁ : signSize t ≤ t.length := by
    cases t with
    | nil => simp [signSize]
    | cons b t =>
      unfold signSize
      split <;> simp
  have h₂ := (Greedy.takeWhile isDigitPart).le_length (t.drop (signSize t))
  rw [List.length_drop] at h₂
  unfold exponentDigits
  omega

/-- The digits of an exponent that has begun are greedy, since its sign is known. -/
theorem exponentDigits_append {b : UInt8} {w s : Text} :
    signSize (b :: w ++ s) = signSize (b :: w) ∧
      exponentDigits (b :: w) ≤ exponentDigits (b :: w ++ s) ∧
      (signSize (b :: w) + exponentDigits (b :: w ++ s) ≤ (b :: w).length →
        exponentDigits (b :: w) = exponentDigits (b :: w ++ s)) := by
  -- The sign is the first byte of the two.
  have hsign : signSize (b :: w ++ s) = signSize (b :: w) := rfl
  have hle : signSize (b :: w) ≤ (b :: w).length := by
    have := signSize_add_exponentDigits_le (b :: w)
    omega
  unfold exponentDigits
  rw [hsign, List.drop_append_of_le_length hle]
  refine ⟨rfl, (Greedy.takeWhile isDigitPart).append _ s, fun h => ?_⟩
  refine (Greedy.takeWhile isDigitPart).of_append ?_
  rw [List.length_drop]
  omega

/-- The exponent of a number is greedy. -/
theorem greedy_exponentSize : Greedy exponentSize where
  le_length t := by
    cases t with
    | nil => exact le_refl _
    | cons e t =>
      have := signSize_add_exponentDigits_le t
      rw [exponentSize_cons, List.length_cons]
      split <;> omega
  of_append {w s} h := by
    rcases w with _ | ⟨e, _ | ⟨b, w⟩⟩
    · exact (Nat.le_zero.mp h).symm
    · -- An exponent is never its letter alone.
      rw [List.cons_append, exponentSize_cons] at h
      rw [List.cons_append, exponentSize_cons, exponentSize_cons]
      split at h
      · next he =>
        have := he.2
        simp only [List.nil_append, List.length_cons, List.length_nil] at h this
        omega
      · next he => rw [if_neg he, if_neg (by simp [exponentDigits, signSize])]
    · -- With one byte behind the letter the sign is known, and only the digits can grow.
      obtain ⟨hsign, happ, hof⟩ := exponentDigits_append (b := b) (w := w) (s := s)
      rw [List.cons_append, exponentSize_cons, List.length_cons, hsign] at h
      rw [List.cons_append, exponentSize_cons, exponentSize_cons, hsign]
      split at h
      · rw [hof (by omega)]
      · next he =>
        rw [if_neg he, if_neg]
        rintro ⟨h₁, h₂⟩
        exact he ⟨h₁, by omega⟩
  append w s := by
    rcases w with _ | ⟨e, _ | ⟨b, w⟩⟩
    · exact Nat.zero_le _
    · rw [exponentSize_cons, if_neg (by simp [exponentDigits, signSize])]
      exact Nat.zero_le _
    · obtain ⟨hsign, happ, -⟩ := exponentDigits_append (b := b) (w := w) (s := s)
      rw [List.cons_append, exponentSize_cons, exponentSize_cons, hsign]
      split
      · next he =>
        rw [if_pos ⟨he.1, by omega⟩]
        omega
      · exact Nat.zero_le _

/-- The length of the exponent and the suffix of a number. -/
def scaleSize (t : Text) : Nat :=
  exponentSize t + Text.span Rune.isWordPart (t.drop (exponentSize t))

/-- The length of what follows the digits of a number: fraction, exponent and suffix. -/
def numberTailSize (t : Text) : Nat := fractionSize t + scaleSize (t.drop (fractionSize t))

/-- The length of a number whose digits are there. -/
def numberSize (t : Text) : Nat := digitsSize t + numberTailSize (t.drop (digitsSize t))

/-- A number literal is there when its digits are. -/
theorem numberSize?_eq (t : Text) :
    numberSize? t = if digitsSize t = 0 then none else some (numberSize t) := by
  unfold numberSize?
  split
  · next h => rw [h, if_pos rfl]
  · next n h =>
    -- The parts are cut off one by one instead of being counted from the start.
    rw [h, if_neg (Nat.succ_ne_zero n), numberSize, h, numberTailSize, scaleSize]
    simp only [List.drop_drop, Nat.add_assoc, Nat.succ_eq_add_one]

/-- The rule of numbers is stable. -/
theorem stable_numberSize? : Stable numberSize? := by
  have hsuffix : Greedy (Text.span Rune.isWordPart) := Greedy.span Rune.not_isWordPart_replacement
  have hsize : Greedy numberSize := greedy_digitsSize.andThen
    (greedy_fractionSize.andThen (greedy_exponentSize.andThen hsuffix))
  exact Stable.ofGreedy greedy_digitsSize hsize (fun t => Nat.le_add_right _ _) numberSize?_eq

end Rule

end CallConv
