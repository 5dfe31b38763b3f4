import Mathlib
import CallConv.Proofs.Token.Literal

/-!
# The longest token at the start of a text

Words and operators are stable as well, so all rules are, and with them the choice of the longest
token. `Begins` says that a text begins with a certain token, and `Begins.of_append` that a token
stays what it is when the text is cut anywhere behind it.
-/

namespace CallConv

namespace Rule

/-! ## Words -/

/-- A character that can begin a word can continue one. -/
theorem isWordPart_of_isWordStart {code : Nat} (h : Rune.isWordStart code = true) :
    Rune.isWordPart code = true := by
  unfold Rune.isWordStart at h
  unfold Rune.isWordPart
  rw [Bool.or_eq_true] at h ⊢
  rcases h with h | h
  · left
    rw [h, Bool.true_or]
  · exact .inr h

/-- A word takes all bytes of its first character. -/
theorem extra_lt_span_of_isWordStart {b : UInt8} {t : Text}
    (h : Rune.isWordStart (Rune.read b t).code = true) :
    (Rune.read b t).extra < Text.span Rune.isWordPart (b :: t) := by
  have hmin := Text.min_le_spanAfter Rune.isWordPart (Rune.read b t).extra t
  have hextra := (Rune.extra_read_le b t).1
  unfold Text.span Text.spanAfter
  rw [if_pos (isWordPart_of_isWordStart h)]
  omega

/-- A word begins with a character that can begin one, and takes all that can continue it. -/
theorem wordSize?_eq_some_iff {t : Text} {n : Nat} :
    wordSize? t = some n ↔
      ∃ b rest, t = b :: rest ∧ Rune.isWordStart (Rune.read b rest).code = true ∧
        n = Text.span Rune.isWordPart t := by
  unfold wordSize?
  cases t with
  | nil => simp
  | cons b rest =>
    simp only [List.cons.injEq]
    constructor
    · intro h
      split at h
      · next hstart => exact ⟨b, rest, ⟨rfl, rfl⟩, hstart, (Option.some.inj h).symm⟩
      · simp at h
    · rintro ⟨b', rest', ⟨rfl, rfl⟩, hstart, rfl⟩
      rw [if_pos hstart]

/-- Runs of characters that can continue a word are greedy. -/
theorem greedy_word : Greedy (Text.span Rune.isWordPart) :=
  Greedy.span Rune.not_isWordPart_replacement

/-- The rule of words is stable. -/
theorem stable_wordSize? : Stable wordSize? where
  pos {t n} h := by
    obtain ⟨b, rest, rfl, hstart, rfl⟩ := wordSize?_eq_some_iff.mp h
    exact lt_of_le_of_lt (Nat.zero_le _) (extra_lt_span_of_isWordStart hstart)
  le_length {t n} h := by
    obtain ⟨b, rest, rfl, -, rfl⟩ := wordSize?_eq_some_iff.mp h
    exact greedy_word.le_length _
  of_append {w s n} h hn := by
    obtain ⟨b, rest, heq, hstart, rfl⟩ := wordSize?_eq_some_iff.mp h
    have hextra := extra_lt_span_of_isWordStart hstart
    rw [← heq] at hextra
    rcases w with _ | ⟨c, w⟩
    · rw [List.length_nil] at hn
      omega
    · rw [List.cons_append] at heq
      obtain ⟨rfl, rfl⟩ := List.cons.inj heq
      rw [List.length_cons] at hn
      refine wordSize?_eq_some_iff.mpr ⟨c, w, rfl, ?_, (greedy_word.of_append hn).symm⟩
      -- The first code point lies in the run and with it in the start.
      rw [Rune.read_of_extra_le (s := s) (by omega)]
      exact hstart
  append {w m} s h := by
    obtain ⟨b, rest, rfl, hstart, rfl⟩ := wordSize?_eq_some_iff.mp h
    -- A character that can begin a word is no replacement, and stays whole.
    have hne : (Rune.read b rest).code ≠ Rune.replacement := by
      intro heq
      have hpart := isWordPart_of_isWordStart hstart
      rw [heq, Rune.not_isWordPart_replacement] at hpart
      exact absurd hpart (by decide)
    refine ⟨_, wordSize?_eq_some_iff.mpr ⟨b, rest ++ s, rfl, ?_, rfl⟩, greedy_word.append _ s⟩
    rw [Rune.read_append s hne]
    exact hstart

/-- An identifier is a raw one where a word follows `r#`, and a word otherwise. -/
theorem identifierSize?_eq_some_iff {t : Text} {n : Nat} :
    identifierSize? t = some n ↔
      (∃ rest k, t = 0x72 :: Byte.hash :: rest ∧ wordSize? rest = some k ∧ n = k + 2) ∨
        (∀ rest, t = 0x72 :: Byte.hash :: rest → wordSize? rest = none) ∧ wordSize? t = some n := by
  unfold identifierSize?
  -- Without a word behind `r#` the letter is an identifier by itself.
  by_cases ht : (utf8 "r#").isPrefixOf t = true
  · obtain ⟨rest, rfl⟩ := List.isPrefixOf_iff_prefix.mp ht
    have hdrop : (utf8 "r#" ++ rest).drop 2 = rest := rfl
    have hraw : utf8 "r#" ++ rest = 0x72 :: Byte.hash :: rest := rfl
    rw [if_pos ht, hdrop, hraw]
    simp only [List.cons.injEq, true_and]
    cases hk : wordSize? rest with
    | none => simp [hk]
    | some k => simp [hk, eq_comm]
  · have hraw : ∀ rest, t ≠ 0x72 :: Byte.hash :: rest := by
      rintro rest rfl
      exact ht rfl
    rw [if_neg ht]
    simp [hraw]

/-- The rule of identifiers is stable. -/
theorem stable_identifierSize? : Stable identifierSize? where
  pos {t n} h := by
    rcases identifierSize?_eq_some_iff.mp h with ⟨rest, k, -, -, rfl⟩ | ⟨-, hword⟩
    · omega
    · exact stable_wordSize?.pos hword
  le_length {t n} h := by
    rcases identifierSize?_eq_some_iff.mp h with ⟨rest, k, rfl, hk, rfl⟩ | ⟨-, hword⟩
    · have := stable_wordSize?.le_length hk
      simp only [List.length_cons]
      omega
    · exact stable_wordSize?.le_length hword
  of_append {w s n} h hn := by
    rw [identifierSize?_eq_some_iff]
    rcases identifierSize?_eq_some_iff.mp h with ⟨rest, k, heq, hk, rfl⟩ | ⟨hraw, hword⟩
    · left
      rcases w with _ | ⟨a, _ | ⟨b, w⟩⟩
      · simp at hn
      · simp at hn
      · obtain ⟨rfl, rfl, rfl⟩ : a = 0x72 ∧ b = Byte.hash ∧ w ++ s = rest := by simpa using heq
        simp only [List.length_cons] at hn
        exact ⟨w, k, rfl, stable_wordSize?.of_append hk (by omega), rfl⟩
    · right
      refine ⟨?_, stable_wordSize?.of_append hword hn⟩
      rintro rest rfl
      -- Where no word follows with more text, none follows without it.
      have hnone := hraw (rest ++ s) rfl
      cases hk : wordSize? rest with
      | none => rfl
      | some k =>
        obtain ⟨m, hm, -⟩ := stable_wordSize?.append s hk
        rw [hm] at hnone
        simp at hnone
  append {w m} s h := by
    rcases identifierSize?_eq_some_iff.mp h with ⟨rest, k, rfl, hk, rfl⟩ | ⟨hraw, hword⟩
    · obtain ⟨m, hm, hle⟩ := stable_wordSize?.append s hk
      exact ⟨m + 2, identifierSize?_eq_some_iff.mpr (.inl ⟨rest ++ s, m, rfl, hm, rfl⟩), by omega⟩
    · obtain ⟨n, hn, hle⟩ := stable_wordSize?.append s hword
      by_cases hr : ∃ rest k, w ++ s = 0x72 :: Byte.hash :: rest ∧ wordSize? rest = some k
      · -- The word `r` alone is shorter than the raw identifier.
        obtain ⟨rest, k, heq, hk⟩ := hr
        refine ⟨k + 2, identifierSize?_eq_some_iff.mpr (.inl ⟨rest, k, heq, hk, rfl⟩), ?_⟩
        rw [heq] at hn
        obtain ⟨-, -, -, -, rfl⟩ := wordSize?_eq_some_iff.mp hn
        have hone : Text.span Rune.isWordPart (0x72 :: Byte.hash :: rest) = 1 := rfl
        omega
      · refine ⟨n, identifierSize?_eq_some_iff.mpr (.inr ⟨?_, hn⟩), hle⟩
        intro rest heq
        cases hk : wordSize? rest with
        | none => rfl
        | some k => exact absurd ⟨rest, k, heq, hk⟩ hr

/-- A lifetime is an apostrophe and a word. -/
theorem lifetimeSize?_eq_some_iff {t : Text} {n : Nat} :
    lifetimeSize? t = some n ↔
      ∃ rest k, t = Byte.apostrophe :: rest ∧ wordSize? rest = some k ∧ n = k + 1 := by
  unfold lifetimeSize?
  cases t with
  | nil => simp
  | cons b t =>
    simp only [List.cons.injEq]
    constructor
    · intro h
      split at h
      · next hb =>
        obtain ⟨k, hk, rfl⟩ := Option.map_eq_some_iff.mp h
        exact ⟨t, k, ⟨hb, rfl⟩, hk, rfl⟩
      · simp at h
    · rintro ⟨rest, k, ⟨rfl, rfl⟩, hk, rfl⟩
      rw [if_pos rfl, hk]
      rfl

/-- The rule of lifetimes is stable. -/
theorem stable_lifetimeSize? : Stable lifetimeSize? where
  pos {t n} h := by
    obtain ⟨rest, k, -, -, rfl⟩ := lifetimeSize?_eq_some_iff.mp h
    exact Nat.succ_pos k
  le_length {t n} h := by
    obtain ⟨rest, k, rfl, hk, rfl⟩ := lifetimeSize?_eq_some_iff.mp h
    exact Nat.succ_le_succ (stable_wordSize?.le_length hk)
  of_append {w s n} h hn := by
    obtain ⟨rest, k, heq, hk, rfl⟩ := lifetimeSize?_eq_some_iff.mp h
    rcases w with _ | ⟨b, w⟩
    · simp at hn
    · rw [List.cons_append] at heq
      obtain ⟨rfl, rfl⟩ := List.cons.inj heq
      exact lifetimeSize?_eq_some_iff.mpr
        ⟨w, k, rfl, stable_wordSize?.of_append hk (Nat.le_of_succ_le_succ hn), rfl⟩
  append {w m} s h := by
    obtain ⟨rest, k, rfl, hk, rfl⟩ := lifetimeSize?_eq_some_iff.mp h
    obtain ⟨n, hn, hle⟩ := stable_wordSize?.append s hk
    exact ⟨n + 1, lifetimeSize?_eq_some_iff.mpr ⟨rest ++ s, n, rfl, hn, rfl⟩,
      Nat.succ_le_succ hle⟩

/-! ## Operators -/

/-- Every operator of the table of long ones has at least two bytes. -/
theorem two_le_length_of_mem_longOperators : ∀ op ∈ longOperators, 2 ≤ op.length := by decide

/-- The first word of a table that begins a text is one that no earlier one begins. -/
theorem find?_isPrefixOf_eq_some_iff {ops : List Text} {t op : Text} :
    ops.find? (·.isPrefixOf t) = some op ↔
      op <+: t ∧ ∃ before after, ops = before ++ op :: after ∧ ∀ o ∈ before, ¬ o <+: t := by
  rw [List.find?_eq_some_iff_append]
  simp only [List.isPrefixOf_iff_prefix, Bool.not_eq_true', Bool.eq_false_iff, ne_eq]

/-- The first word of a table that begins a text and fits into a start of it begins the start. -/
theorem find?_isPrefixOf_of_append {ops : List Text} {w s op : Text}
    (h : ops.find? (·.isPrefixOf (w ++ s)) = some op) (hle : op.length ≤ w.length) :
    ops.find? (·.isPrefixOf w) = some op := by
  obtain ⟨hop, before, after, heq, hbefore⟩ := find?_isPrefixOf_eq_some_iff.mp h
  refine find?_isPrefixOf_eq_some_iff.mpr ⟨?_, before, after, heq, ?_⟩
  · exact List.prefix_of_prefix_length_le hop (List.prefix_append w s) hle
  · -- A word that begins the start begins the text, so none comes earlier.
    intro o ho hw
    exact hbefore o ho (hw.trans (List.prefix_append w s))

/-- When no word of a table begins a text, none begins a start of it. -/
theorem find?_isPrefixOf_eq_none_of_append {ops : List Text} {w s : Text}
    (h : ops.find? (·.isPrefixOf (w ++ s)) = none) : ops.find? (·.isPrefixOf w) = none := by
  rw [List.find?_eq_none] at h ⊢
  intro op hop hw
  exact h op hop (isPrefixOf_append_of s hw)

/-- An operator is a long one, or else a single byte. -/
theorem operatorSize?_eq_some_iff {t : Text} {n : Nat} :
    operatorSize? t = some n ↔
      (∃ op, longOperators.find? (·.isPrefixOf t) = some op ∧ n = op.length) ∨
        longOperators.find? (·.isPrefixOf t) = none ∧
          ∃ b rest, t = b :: rest ∧ b ∈ shortOperators ∧ n = 1 := by
  unfold operatorSize?
  cases longOperators.find? (·.isPrefixOf t) with
  | some op => simp [eq_comm]
  | none =>
    cases t with
    | nil => simp
    | cons b rest => simp [eq_comm]

/-- The rule of the other operators is stable. -/
theorem stable_operatorSize? : Stable operatorSize? where
  pos {t n} h := by
    rcases operatorSize?_eq_some_iff.mp h with ⟨op, hop, rfl⟩ | ⟨-, b, rest, -, -, rfl⟩
    · have := two_le_length_of_mem_longOperators op (List.mem_of_find?_eq_some hop)
      omega
    · exact Nat.one_pos
  le_length {t n} h := by
    rcases operatorSize?_eq_some_iff.mp h with ⟨op, hop, rfl⟩ | ⟨-, b, rest, rfl, -, rfl⟩
    · exact (find?_isPrefixOf_eq_some_iff.mp hop).1.length_le
    · simp
  of_append {w s n} h hn := by
    refine operatorSize?_eq_some_iff.mpr ?_
    rcases operatorSize?_eq_some_iff.mp h with ⟨op, hop, rfl⟩ | ⟨hnone, b, rest, heq, hb, rfl⟩
    · exact .inl ⟨op, find?_isPrefixOf_of_append hop hn, rfl⟩
    · rcases w with _ | ⟨c, w⟩
      · simp at hn
      · obtain ⟨rfl, -⟩ := List.cons.inj heq
        exact .inr ⟨find?_isPrefixOf_eq_none_of_append hnone, c, w, rfl, hb, rfl⟩
  append {w m} s h := by
    rcases operatorSize?_eq_some_iff.mp h with ⟨op, hop, rfl⟩ | ⟨hnone, b, rest, rfl, hb, rfl⟩
    · cases hop' : longOperators.find? (·.isPrefixOf (w ++ s)) with
      | none =>
        rw [find?_isPrefixOf_eq_none_of_append hop'] at hop
        simp at hop
      | some op' =>
        refine ⟨op'.length, operatorSize?_eq_some_iff.mpr (.inl ⟨op', hop', rfl⟩), ?_⟩
        -- An operator that fits into `w` would be the one found in `w`.
        rcases Nat.lt_or_ge w.length op'.length with hlt | hge
        · have := (find?_isPrefixOf_eq_some_iff.mp hop).1.length_le
          omega
        · rw [find?_isPrefixOf_of_append hop' hge] at hop
          exact (congrArg List.length (Option.some.inj hop)).ge
    · cases hop' : longOperators.find? (·.isPrefixOf (b :: rest ++ s)) with
      | none =>
        exact ⟨1, operatorSize?_eq_some_iff.mpr (.inr ⟨hop', b, rest ++ s, rfl, hb, rfl⟩),
          le_refl 1⟩
      | some op' =>
        have := two_le_length_of_mem_longOperators op' (List.mem_of_find?_eq_some hop')
        exact ⟨op'.length, operatorSize?_eq_some_iff.mpr (.inl ⟨op', hop', rfl⟩), by omega⟩

/-! ## All rules together -/

/-- Every rule of the lexer is stable. -/
theorem stable_of_mem_all {rule : Rule} (h : rule ∈ all) : Stable rule.size? := by
  simp only [all, List.mem_cons, List.not_mem_nil, or_false] at h
  rcases h with rfl | rfl | rfl | rfl | rfl | rfl | rfl | rfl | rfl | rfl | h
  · exact stable_exactly (by decide)
  · exact stable_whitespaceSize?
  · exact stable_lineCommentSize?
  · exact delimited_blockCommentSize?.stable
  · exact delimited_rawStringSize?.stable
  · exact delimited_stringSize?.stable
  · exact delimited_characterSize?.stable
  · exact stable_identifierSize?
  · exact stable_lifetimeSize?
  · exact stable_numberSize?
  · rcases h with rfl | rfl | rfl | rfl | rfl | rfl | rfl | rfl | rfl | rfl | rfl | rfl | rfl |
      rfl | rfl | rfl | rfl | rfl | rfl | rfl
    any_goals exact stable_exactly (by decide)
    exact stable_operatorSize?

/-- A rule that finds no token reaching beyond a start of a text finds in the start what it finds
in the text. -/
theorem Stable.size?_eq {size? : Text → Option Nat} (hst : Stable size?) {w s : Text}
    (h : ∀ n, size? (w ++ s) = some n → n ≤ w.length) : size? w = size? (w ++ s) := by
  cases hws : size? (w ++ s) with
  | some n => exact hst.of_append hws (h n hws)
  | none =>
    cases hw : size? w with
    | none => rfl
    | some m =>
      obtain ⟨n, hn, -⟩ := hst.append s hw
      rw [hws] at hn
      simp at hn

/-- The best token of some rules is at least as long as any of theirs, and is that of one of them
unless it is the one to begin with. -/
theorem foldl_better_spec (t : Text) (rules : List Rule) (best : TokenKind × Nat) :
    best.2 ≤ (rules.foldl (better t) best).2 ∧
      (∀ rule ∈ rules, ∀ n, rule.size? t = some n → n ≤ (rules.foldl (better t) best).2) ∧
      (rules.foldl (better t) best = best ∨
        ∃ rule ∈ rules, rule.kind = (rules.foldl (better t) best).1 ∧
          rule.size? t = some (rules.foldl (better t) best).2) := by
  induction rules generalizing best with
  | nil => simp
  | cons rule rules ih =>
    rw [List.foldl_cons]
    obtain ⟨hle, hall, hex⟩ := ih (better t best rule)
    -- One rule either leaves the best token or replaces it by a longer one.
    have hstep : best.2 ≤ (better t best rule).2 ∧
        (∀ n, rule.size? t = some n → n ≤ (better t best rule).2) ∧
        (better t best rule = best ∨
          rule.kind = (better t best rule).1 ∧ rule.size? t = some (better t best rule).2) := by
      unfold better
      cases hsize : rule.size? t with
      | none => simp
      | some n =>
        simp only
        split
        · next hlt => simp [hlt.le]
        · next hge => simp [not_lt.mp hge]
    obtain ⟨hle', hrule, hex'⟩ := hstep
    refine ⟨le_trans hle' hle, ?_, ?_⟩
    · intro r hr n hn
      rcases List.mem_cons.mp hr with rfl | hr
      · exact le_trans (hrule n hn) hle
      · exact hall r hr n hn
    · rcases hex with heq | ⟨r, hr, hkind, hsize⟩
      · rw [heq]
        rcases hex' with heq' | hfound
        · exact .inl heq'
        · exact .inr ⟨rule, List.mem_cons_self, hfound⟩
      · exact .inr ⟨r, List.mem_cons_of_mem _ hr, hkind, hsize⟩

/-- The longest token is at least as long as that of any rule. -/
theorem le_longest {t : Text} {rule : Rule} {n : Nat} (hrule : rule ∈ all)
    (h : rule.size? t = some n) : n ≤ (longest t).2 :=
  (foldl_better_spec t all (.unassigned, 0)).2.1 rule hrule n h

/-- The longest token is that of a rule, unless no rule finds one. -/
theorem longest_cases (t : Text) :
    longest t = (.unassigned, 0) ∨
      ∃ rule ∈ all, rule.kind = (longest t).1 ∧ rule.size? t = some (longest t).2 :=
  (foldl_better_spec t all (.unassigned, 0)).2.2

/-- When no rule reaches beyond a start of a text, the longest token is that of the start. -/
theorem longest_eq {w s : Text}
    (h : ∀ rule ∈ all, ∀ n, rule.size? (w ++ s) = some n → n ≤ w.length) :
    longest w = longest (w ++ s) := by
  unfold longest
  -- The rules are compared one by one, and each finds the same.
  refine List.foldl_ext _ _ _ fun best rule hrule => ?_
  unfold better
  rw [(stable_of_mem_all hrule).size?_eq (h rule hrule)]

/-- There is one rule of each kind. -/
theorem eq_of_kind_eq {rule rule' : Rule} (h : rule ∈ all) (h' : rule' ∈ all)
    (hkind : rule.kind = rule'.kind) : rule = rule' :=
  List.inj_on_of_nodup_map (by decide) h h' hkind

/-- No rule finds unassigned tokens. -/
theorem kind_ne_unassigned {rule : Rule} (h : rule ∈ all) : rule.kind ≠ .unassigned := by
  have hall : TokenKind.unassigned ∉ all.map kind := by decide
  exact fun heq => hall (heq ▸ List.mem_map_of_mem h)

/-- Some text opens a raw string literal when it begins with such an opening. -/
theorem isSome_rawStringOpening?_iff {t : Text} :
    (rawStringOpening? t).isSome = true ↔
      ∃ mark hashes, IsMark mark ∧ rawOpening mark hashes <+: t := by
  rw [Option.isSome_iff_exists]
  constructor
  · rintro ⟨⟨n, hashes⟩, h⟩
    obtain ⟨mark, hmark, hpre, -⟩ := rawStringOpening?_eq_some_iff.mp h
    exact ⟨mark, hashes, hmark, hpre⟩
  · rintro ⟨mark, hashes, hmark, hpre⟩
    exact ⟨_, rawStringOpening?_eq_some_iff.mpr ⟨mark, hmark, hpre, rfl⟩⟩

/-- Some text opens a string literal when it begins with a quote that may be marked. -/
theorem isStringOpening_iff {t : Text} :
    isStringOpening t = true ↔ ∃ mark, IsMark mark ∧ mark ++ [Byte.quote] <+: t := by
  unfold isStringOpening
  rw [beq_iff_eq]
  constructor
  · intro h
    obtain ⟨rest, hrest⟩ := List.head?_eq_some_iff.mp h
    obtain ⟨mark, hmark, rfl, -⟩ := drop_byteMarkSize_iff.mp hrest
    exact ⟨mark, hmark, rest, by simp⟩
  · rintro ⟨mark, hmark, rest, rfl⟩
    rw [List.append_assoc, List.singleton_append, byteMarkSize_append hmark (by decide),
      List.drop_left]
    rfl

end Rule

/-! ## The token at the start of a text -/

/-- Nothing is left open at the start of a text when what is opened there is the token itself. -/
theorem unterminated?_eq_none_iff {kind : TokenKind} {t : Text} :
    unterminated? kind t = none ↔
      ((utf8 "/*").isPrefixOf t = true → kind = .blockComment) ∧
        ((Rule.rawStringOpening? t).isSome = true → kind = .rawString) ∧
        (Rule.isStringOpening t = true → kind = .string) := by
  unfold unterminated?
  constructor
  · intro h
    split at h
    · simp at h
    · next h₁ =>
      split at h
      · simp at h
      · next h₂ =>
        split at h
        · simp at h
        · next h₃ =>
          refine ⟨fun ho => ?_, fun ho => ?_, fun ho => ?_⟩
          · by_contra hk
            exact h₁ ⟨hk, ho⟩
          · by_contra hk
            exact h₂ ⟨hk, ho⟩
          · by_contra hk
            exact h₃ ⟨hk, ho⟩
  · -- Each check asks for an opening whose token is not the one at hand.
    rintro ⟨h₁, h₂, h₃⟩
    rw [if_neg fun h => h.1 (h₁ h.2), if_neg fun h => h.1 (h₂ h.2), if_neg fun h => h.1 (h₃ h.2)]

/-- The number of bytes of the first code point of a text. -/
def Text.firstWidth : Text → Nat
  | [] => 0
  | b :: t => (Rune.read b t).width

/-- The text `x ++ r` begins with the token `x` of the given kind. -/
def Begins (kind : TokenKind) : (x r : Text) → Prop
  | [], _ => False
  | b :: x, r => scan b (x ++ r) = .ok (kind, x.length + 1)

/-- The token at the start of a text is the longest one, or else one code point, and it leaves
nothing open. -/
theorem begins_iff {kind : TokenKind} {x r : Text} :
    Begins kind x r ↔
      x ≠ [] ∧ (Rule.longest (x ++ r)).1 = kind ∧ unterminated? kind (x ++ r) = none ∧
        x.length = if (Rule.longest (x ++ r)).2 = 0 then (x ++ r).firstWidth
          else (Rule.longest (x ++ r)).2 := by
  cases x with
  | nil => simp [Begins]
  | cons b x =>
    simp only [Begins, scan, List.cons_append, List.length_cons, Text.firstWidth, ne_eq,
      reduceCtorEq, not_false_eq_true, true_and]
    constructor
    · intro h
      split at h
      · simp at h
      · next hnone =>
        simp only [Except.ok.injEq, Prod.mk.injEq] at h
        obtain ⟨rfl, hsize⟩ := h
        exact ⟨rfl, hnone, hsize.symm⟩
    · rintro ⟨rfl, hnone, hsize⟩
      rw [hnone, hsize]

namespace Begins

variable {kind : TokenKind} {x r s : Text}

/-- No token is empty. -/
theorem ne_nil (h : Begins kind x r) : x ≠ [] := (begins_iff.mp h).1

/-- No rule finds a longer token than the one that a text begins with. -/
theorem size?_le (h : Begins kind x r) {rule : Rule} {n : Nat} (hrule : rule ∈ Rule.all)
    (hn : rule.size? (x ++ r) = some n) : n ≤ x.length := by
  obtain ⟨-, -, -, hx⟩ := begins_iff.mp h
  have hle := Rule.le_longest hrule hn
  split at hx <;> omega

/-- The kind of a token is that of a rule which finds it, unless no rule finds any and the token is
one code point. -/
theorem exists_rule (h : Begins kind x r) :
    (kind = .unassigned ∧ (∀ rule ∈ Rule.all, rule.size? (x ++ r) = none) ∧
      x.length = (x ++ r).firstWidth) ∨
      ∃ rule ∈ Rule.all, rule.kind = kind ∧ rule.size? (x ++ r) = some x.length := by
  obtain ⟨-, rfl, -, hx⟩ := begins_iff.mp h
  rcases Rule.longest_cases (x ++ r) with hnone | ⟨rule, hrule, hkind, hsize⟩
  · rw [hnone, if_pos rfl] at hx
    refine .inl ⟨by rw [hnone], fun rule hrule => ?_, hx⟩
    by_contra hsome
    obtain ⟨n, hn⟩ := Option.ne_none_iff_exists'.mp hsome
    have hle := Rule.le_longest hrule hn
    have hpos := (Rule.stable_of_mem_all hrule).pos hn
    rw [hnone] at hle
    omega
  · have hpos := (Rule.stable_of_mem_all hrule).pos hsize
    rw [if_neg hpos.ne'] at hx
    exact .inr ⟨rule, hrule, hkind, by rw [hx, hsize]⟩

/-- The rule of a token's kind finds the token. -/
theorem size?_eq (h : Begins kind x r) {rule : Rule} (hrule : rule ∈ Rule.all)
    (hkind : rule.kind = kind) : rule.size? (x ++ r) = some x.length := by
  rcases h.exists_rule with ⟨rfl, -, -⟩ | ⟨rule', hrule', hkind', hsize⟩
  · exact absurd hkind (Rule.kind_ne_unassigned hrule)
  · rw [Rule.eq_of_kind_eq hrule hrule' (hkind.trans hkind'.symm)]
    exact hsize

/-- Cutting the text behind a token keeps what can be opened at its start. -/
theorem unterminated?_of_append {w : Text} (h : unterminated? kind (w ++ s) = none) :
    unterminated? kind w = none := by
  obtain ⟨h₁, h₂, h₃⟩ := unterminated?_eq_none_iff.mp h
  refine unterminated?_eq_none_iff.mpr ⟨fun ho => ?_, fun ho => ?_, fun ho => ?_⟩
  · exact h₁ (Rule.isPrefixOf_append_of s ho)
  · obtain ⟨mark, hashes, hmark, hpre⟩ := Rule.isSome_rawStringOpening?_iff.mp ho
    exact h₂ (Rule.isSome_rawStringOpening?_iff.mpr
      ⟨mark, hashes, hmark, hpre.trans (List.prefix_append w s)⟩)
  · obtain ⟨mark, hmark, hpre⟩ := Rule.isStringOpening_iff.mp ho
    exact h₃ (Rule.isStringOpening_iff.mpr ⟨mark, hmark, hpre.trans (List.prefix_append w s)⟩)

end Begins

/-- The width of the first code point of a start of a text, when it lies within the start. -/
theorem Text.firstWidth_of_append {w s : Text} (h : (w ++ s).firstWidth ≤ w.length) :
    w.firstWidth = (w ++ s).firstWidth := by
  rcases w with _ | ⟨b, w⟩
  · rw [List.length_nil, Nat.le_zero] at h
    rw [h]
    rfl
  · simp only [List.cons_append, firstWidth, Rune.width, List.length_cons] at h ⊢
    rw [Rune.read_of_extra_le (s := s) (by omega)]

/-- A token is the same in a start of the text that no rule reaches beyond. -/
theorem begins_append_iff {kind : TokenKind} {x u s : Text}
    (hrule : ∀ rule ∈ Rule.all, ∀ n, rule.size? (x ++ u ++ s) = some n → n ≤ (x ++ u).length)
    (hwidth : (Rule.longest (x ++ u ++ s)).2 = 0 →
      (x ++ u ++ s).firstWidth ≤ (x ++ u).length)
    (hopen : unterminated? kind (x ++ u) = none → unterminated? kind (x ++ u ++ s) = none) :
    Begins kind x (u ++ s) ↔ Begins kind x u := by
  have hsize : (if (Rule.longest (x ++ u ++ s)).2 = 0 then (x ++ u ++ s).firstWidth
      else (Rule.longest (x ++ u ++ s)).2) =
      if (Rule.longest (x ++ u ++ s)).2 = 0 then (x ++ u).firstWidth
      else (Rule.longest (x ++ u ++ s)).2 := by
    split
    · next hzero => rw [Text.firstWidth_of_append (hwidth hzero)]
    · rfl
  rw [begins_iff, begins_iff, ← List.append_assoc, Rule.longest_eq hrule, hsize]
  constructor
  · rintro ⟨hne, hkind, hnone, hx⟩
    exact ⟨hne, hkind, Begins.unterminated?_of_append hnone, hx⟩
  · rintro ⟨hne, hkind, hnone, hx⟩
    exact ⟨hne, hkind, hopen hnone, hx⟩

/-- A token stays what it is when the text is cut anywhere behind it. -/
theorem Begins.of_append {kind : TokenKind} {x u s : Text} (h : Begins kind x (u ++ s)) :
    Begins kind x u := by
  have hsize : ∀ rule ∈ Rule.all, ∀ n, rule.size? (x ++ (u ++ s)) = some n → n ≤ x.length :=
    fun rule hrule n hn => h.size?_le hrule hn
  obtain ⟨-, -, hnone, hx⟩ := begins_iff.mp h
  rw [← List.append_assoc] at hnone hx
  refine (begins_append_iff (fun rule hrule n hn => ?_) (fun hzero => ?_) (fun _ => hnone)).mp h
  · rw [List.append_assoc] at hn
    have := hsize rule hrule n hn
    rw [List.length_append]
    omega
  · rw [if_pos hzero] at hx
    rw [← hx, List.length_append]
    omega

/-- The rule of a token's kind finds the token in its own text. -/
theorem Begins.size?_self {kind : TokenKind} {x r : Text} (h : Begins kind x r)
    {size? : Text → Option Nat} (hrule : ⟨kind, size?⟩ ∈ Rule.all) : size? x = some x.length := by
  have hsize : size? (x ++ []) = some x.length := (Begins.of_append (u := []) h).size?_eq hrule rfl
  rwa [List.append_nil] at hsize

end CallConv
