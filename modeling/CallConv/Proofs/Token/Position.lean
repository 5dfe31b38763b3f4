import Mathlib
import CallConv.Proofs.Declaration.Outline
import CallConv.Proofs.Token.Concat

/-!
# Where tokens stand

Columns count code points, so that moving over a text in two steps agrees with moving over it at
once only where the cut falls between two code points. `Text.Cut` says that it does, and every
token of the lexer ends at such a place: it ends with an ASCII character, before one, or with the
last byte of a code point. So `lex_exact` can state each position by the text before the token, on
valid and invalid UTF-8 alike, and `tokenize_slice` that the tokens of a part of a text between two
tokens are the tokens of the whole, positions included.
-/

namespace CallConv

namespace Text

/-- Reading `u ++ v` from the left, where `skip` bytes are already accounted for, a code point ends
where `u` does. -/
def CutAfter : (skip : Nat) → (u v : Text) → Prop
  | 0, [], _ => True
  | _ + 1, [], _ => False
  | 0, b :: u, v => CutAfter (Rune.read b (u ++ v)).extra u v
  | skip + 1, _ :: u, v => CutAfter skip u v

/-- Reading `u ++ v` from the left, a code point ends where `u` does. -/
def Cut (u v : Text) : Prop := CutAfter 0 u v

variable {u v w : Text} {skip : Nat}

/-- The bytes that are already accounted for lie before the cut. -/
theorem CutAfter.skip_le (h : CutAfter skip u v) : skip ≤ u.length := by
  induction u generalizing skip with
  | nil =>
    cases skip with
    | zero => exact le_refl _
    | succ skip => exact h.elim
  | cons b u ih =>
    cases skip with
    | zero => exact Nat.zero_le _
    | succ skip => exact Nat.succ_le_succ (ih h)

/-- The code points of a text are those before a cut and those behind it. -/
theorem CutAfter.runesAfter_append (h : CutAfter skip u v) :
    runesAfter skip (u ++ v) = runesAfter skip u ++ runesAfter 0 v := by
  induction u generalizing skip with
  | nil =>
    cases skip with
    | zero => simp [runesAfter]
    | succ skip => exact h.elim
  | cons b u ih =>
    cases skip with
    | zero =>
      have htail : CutAfter (Rune.read b (u ++ v)).extra u v := h
      simp only [List.cons_append, runesAfter, ih htail, Rune.read_of_extra_le htail.skip_le]
    | succ skip => exact ih h

/-- The number of code points is the sum of those before and behind a cut. -/
theorem Cut.runeCount_append (h : Cut u v) : runeCount (u ++ v) = runeCount u + runeCount v := by
  rw [runeCount, runes, CutAfter.runesAfter_append h, List.length_append]
  rfl

/-- Behind a cut a text can be cut again. -/
theorem CutAfter.append (h : CutAfter skip u (v ++ w)) (h' : Cut v w) :
    CutAfter skip (u ++ v) w := by
  induction u generalizing skip with
  | nil =>
    cases skip with
    | zero => exact h'
    | succ skip => exact h.elim
  | cons b u ih =>
    cases skip with
    | zero =>
      show CutAfter (Rune.read b (u ++ v ++ w)).extra (u ++ v) w
      rw [List.append_assoc]
      exact ih h
    | succ skip => exact ih h

/-- A text is cut where no code point that begins before the end of `u` reaches beyond it. -/
theorem cutAfter_of_extra_le
    (h : ∀ b t, b :: t <:+ u → (Rune.read b (t ++ v)).extra ≤ t.length) (hskip : skip ≤ u.length) :
    CutAfter skip u v := by
  induction u generalizing skip with
  | nil =>
    rw [Nat.le_zero.mp hskip]
    trivial
  | cons b u ih =>
    have htail : ∀ b' t, b' :: t <:+ u → (Rune.read b' (t ++ v)).extra ≤ t.length :=
      fun b' t ht => h b' t (ht.trans (List.suffix_cons b u))
    cases skip with
    | zero => exact ih htail (h b u List.suffix_rfl)
    | succ skip => exact ih htail (Nat.le_of_succ_le_succ hskip)

/-- A text can be cut behind an ASCII character. -/
theorem cut_of_getLast (h : u.getLast?.all (· < 0x80) = true) : Cut u v := by
  refine cutAfter_of_extra_le (fun b t ht => ?_) (Nat.zero_le _)
  obtain ⟨-, hbytes⟩ := Rune.extra_read_le b (t ++ v)
  by_contra hlt
  obtain ⟨front, rfl⟩ := ht
  rcases List.eq_nil_or_concat t with rfl | ⟨init, a, rfl⟩
  · -- The code point begins with the ASCII character itself.
    have hb : b < 0x80 := by simpa using h
    rw [Rune.read_of_lt _ hb] at hlt
    exact hlt (le_refl _)
  · rw [List.concat_eq_append] at *
    have ha : a < 0x80 := by simpa [List.getLast?_cons] using h
    have hmem : a ∈ (init ++ [a] ++ v).take (Rune.read b (init ++ [a] ++ v)).extra := by
      rw [List.take_append]
      refine List.mem_append_left _ ?_
      rw [List.take_of_length_le (by omega)]
      simp
    exact absurd ha (UInt8.not_lt.mpr (hbytes a hmem))

/-- A text can be cut before an ASCII character, and at its end. -/
theorem cut_of_head (h : ∀ c ∈ v.head?, c < 0x80) : Cut u v := by
  refine cutAfter_of_extra_le (fun b t _ => ?_) (Nat.zero_le _)
  obtain ⟨hle, hbytes⟩ := Rune.extra_read_le b (t ++ v)
  by_contra hlt
  rcases v with _ | ⟨c, v⟩
  · rw [List.append_nil] at hle hlt
    exact hlt hle
  · have hmem : c ∈ (t ++ c :: v).take (Rune.read b (t ++ c :: v)).extra := by
      obtain ⟨k, hk⟩ := Nat.exists_eq_add_of_lt (Nat.not_le.mp hlt)
      rw [hk, Nat.add_assoc, List.take_length_add_append]
      simp
    exact absurd (h c rfl) (UInt8.not_lt.mpr (hbytes c hmem))

/-- A text can be cut behind a run of code points. -/
theorem cutAfter_of_spanAfter {p : Nat → Bool} (h : spanAfter p skip (u ++ v) = u.length)
    (hskip : skip ≤ u.length) : CutAfter skip u v := by
  induction u generalizing skip with
  | nil =>
    rw [Nat.le_zero.mp hskip]
    trivial
  | cons b u ih =>
    cases skip with
    | succ skip =>
      simp only [List.cons_append, spanAfter, List.length_cons, Nat.add_right_cancel_iff] at h
      exact ih h (Nat.le_of_succ_le_succ hskip)
    | zero =>
      simp only [List.cons_append, spanAfter, List.length_cons] at h
      split at h
      · have hspan := Nat.add_right_cancel h
        have hmin := min_le_spanAfter p (Rune.read b (u ++ v)).extra (u ++ v)
        have hextra := (Rune.extra_read_le b (u ++ v)).1
        exact ih hspan (by omega)
      · simp at h

/-- A text can be cut behind the bytes that are already accounted for. -/
theorem cutAfter_length (u v : Text) : CutAfter u.length u v := by
  induction u with
  | nil => trivial
  | cons b u ih => exact ih

/-- A text that can be cut behind a part with an ASCII character in it can be cut behind what
follows that character. -/
theorem CutAfter.of_ascii {a : UInt8} (h : CutAfter skip (u ++ a :: w) v) (ha : a < 0x80)
    (hskip : ∀ b ∈ (u ++ a :: w).take skip, 0x80 ≤ b) : Cut w v := by
  induction u generalizing skip with
  | nil =>
    cases skip with
    | zero =>
      have hread := Rune.read_of_lt (w ++ v) ha
      simp only [List.nil_append, CutAfter, hread] at h
      exact h
    | succ skip => exact absurd ha (UInt8.not_lt.mpr (hskip a (by simp)))
  | cons b u ih =>
    cases skip with
    | zero =>
      have htail : CutAfter (Rune.read b (u ++ a :: w ++ v)).extra (u ++ a :: w) v := h
      refine ih htail fun c hc => (Rune.extra_read_le b (u ++ a :: w ++ v)).2 c ?_
      rw [List.take_append_of_le_length htail.skip_le]
      exact hc
    | succ skip => exact ih h fun c hc => hskip c (List.mem_cons_of_mem b hc)

/-! ## Positions -/

/-- What follows the last line break of a text is its last line. -/
theorem reverse_takeWhile_newline (u : Text) (h : Byte.newline ∉ w) :
    ((u ++ Byte.newline :: w).reverse.takeWhile (· != Byte.newline)).reverse = w := by
  have hall : ∀ b ∈ w.reverse, (b != Byte.newline) = true := by
    intro b hb
    rw [bne_iff_ne]
    rintro rfl
    exact h (List.mem_reverse.mp hb)
  rw [List.reverse_append, List.reverse_cons, List.append_assoc, List.takeWhile_append_of_pos hall]
  simp

/-- A text with line breaks is cut at the last one. -/
theorem exists_last_newline (h : Byte.newline ∈ u) :
    ∃ front line, u = front ++ Byte.newline :: line ∧ Byte.newline ∉ line := by
  obtain ⟨line, front, hline, heq⟩ := List.eq_append_cons_of_mem (List.mem_reverse.mpr h)
  refine ⟨front.reverse, line.reverse, ?_, fun hmem => heq (List.mem_reverse.mp hmem)⟩
  rw [← List.reverse_reverse u, hline]
  simp

end Text

namespace Cursor

variable {u v : Text}

/-- The line moves by the line breaks of a text. -/
theorem line_advance (c : Cursor) (u : Text) :
    (c.advance u).line = c.line + u.count Byte.newline := by
  unfold advance
  simp only
  split
  · next h => simp [h]
  · rfl

/-- The offset moves by the bytes of a text. -/
theorem offset_advance (c : Cursor) (u : Text) : (c.advance u).offset = c.offset + u.length := by
  unfold advance
  simp only
  split <;> rfl

/-- Over a text without line breaks the column moves by its code points. -/
theorem advance_of_not_mem (c : Cursor) (h : Byte.newline ∉ u) :
    c.advance u = ⟨c.line, c.column + u.runeCount, c.offset + u.length⟩ := by
  unfold advance
  rw [if_pos (List.count_eq_zero.mpr h)]

/-- Over a line break and a line behind it the column starts anew. -/
theorem advance_newline (c : Cursor) (u : Text) {line : Text} (h : Byte.newline ∉ line) :
    c.advance (u ++ Byte.newline :: line) =
      ⟨c.line + ((u.count Byte.newline + 1 : Nat) : Int), 1 + line.runeCount,
        c.offset + (u ++ Byte.newline :: line).length⟩ := by
  have hcount : (u ++ Byte.newline :: line).count Byte.newline = u.count Byte.newline + 1 := by
    rw [List.count_append, List.count_cons_self, List.count_eq_zero.mpr h]
  unfold advance
  simp only [hcount, Text.reverse_takeWhile_newline u h, Nat.succ_ne_zero, if_false]

/-- Moving over a text in two steps agrees with moving over it at once where it is cut between two
code points. -/
theorem advance_append (c : Cursor) (h : Text.Cut u v) :
    c.advance (u ++ v) = (c.advance u).advance v := by
  by_cases hv : Byte.newline ∈ v
  · -- The column is that of the last line of `v` in both ways.
    obtain ⟨front, line, rfl, hline⟩ := Text.exists_last_newline hv
    have hline₀ : (c.advance u).line = c.line + u.count Byte.newline := line_advance c u
    have hoffset : (c.advance u).offset = c.offset + u.length := offset_advance c u
    rw [← List.append_assoc, advance_newline c (u ++ front) hline, advance_newline _ front hline,
      hline₀, hoffset]
    simp only [List.count_append, List.length_append, List.append_assoc, Cursor.mk.injEq, true_and]
    push_cast
    constructor <;> omega
  by_cases hu : Byte.newline ∈ u
  · -- The last line of `u` goes on in `v`, and the cut is one of that line.
    obtain ⟨front, line, rfl, hline⟩ := Text.exists_last_newline hu
    have hcut : Text.Cut line v := Text.CutAfter.of_ascii h (by decide) (by simp)
    have hlong : Byte.newline ∉ line ++ v := by simp [hline, hv]
    rw [List.append_assoc, List.cons_append, advance_newline c front hlong,
      advance_newline c front hline, advance_of_not_mem _ hv, hcut.runeCount_append]
    simp only [List.length_append, List.length_cons, Cursor.mk.injEq, true_and]
    push_cast
    constructor <;> omega
  · rw [advance_of_not_mem c (by simp [hu, hv]), advance_of_not_mem c hu, advance_of_not_mem _ hv,
      h.runeCount_append, List.length_append]
    simp only [Cursor.mk.injEq, true_and]
    push_cast
    constructor <;> omega

/-- In the middle of a code point the two ways differ. -/
example : start.advance [0xE2, 0x82, 0xAC] ≠ (start.advance [0xE2]).advance [0x82, 0xAC] := by
  decide

end Cursor

/-! ## Tokens end at cuts -/

namespace Rule

/-- A length that ends between two code points of every text. -/
def Whole (size : Text → Nat) : Prop :=
  ∀ t : Text, Text.Cut (t.take (size t)) (t.drop (size t))

/-- One such length after the other is one. -/
theorem Whole.andThen {f g : Text → Nat} (hf : Whole f) (hg : Whole g) :
    Whole fun t => f t + g (t.drop (f t)) := by
  intro t
  simp only [List.take_add, ← List.drop_drop]
  refine Text.CutAfter.append ?_ (hg (t.drop (f t)))
  rw [List.take_append_drop]
  exact hf t

/-- The bytes of a length that consists of ASCII characters end between two code points. -/
theorem Within.whole {p : UInt8 → Bool} {size : Text → Nat} (h : Within p size)
    (hp : ∀ {b}, p b = true → b < 0x80) : Whole size := by
  intro t
  refine Text.cut_of_getLast ?_
  cases hlast : (t.take (size t)).getLast? with
  | none => rfl
  | some a => exact decide_eq_true (hp (h t a (List.mem_of_getLast? hlast)))

/-- A run of code points ends between two code points. -/
theorem whole_span (p : Nat → Bool) : Whole (Text.span p) := by
  intro t
  have hle : Text.span p t ≤ t.length := Text.spanAfter_le p 0 t
  refine Text.cutAfter_of_spanAfter (p := p) ?_ (Nat.zero_le _)
  rw [List.take_append_drop, List.length_take_of_le hle]
  rfl

/-- The bytes of a decimal are ASCII characters. -/
theorem lt_of_isDecimalPart {b : UInt8} (h : Byte.isDecimalPart b = true) : b < 0x80 := by
  unfold Byte.isDecimalPart at h
  rcases Bool.or_eq_true_iff.mp h with h | h
  · unfold isDigitPart Byte.isDigit at h
    simp only [Bool.or_eq_true, Bool.and_eq_true, decide_eq_true_eq, beq_iff_eq] at h
    rcases h with h | rfl
    · exact UInt8.lt_of_le_of_lt h.2 (by decide)
    · decide
  · have hmarks : ∀ b ∈ utf8 ".+-eE", b < 0x80 := by decide +kernel
    exact hmarks b (List.contains_iff_mem.mp h)

/-- A number ends between two code points. -/
theorem whole_numberSize : Whole numberSize :=
  ((within_digitsSize.mono Byte.isDecimalPart_of_isDigitPart).whole lt_of_isDecimalPart).andThen
    ((within_fractionSize.whole lt_of_isDecimalPart).andThen
      ((within_exponentSize.whole lt_of_isDecimalPart).andThen (whole_span Rune.isWordPart)))

end Rule

namespace Begins

open Rule

variable {kind : TokenKind} {x r : Text}

/-- A token that ends with an ASCII character ends at a cut. -/
theorem cut_of_suffix {a : UInt8} (h : [a] <:+ x) (ha : a < 0x80) : Text.Cut x r := by
  obtain ⟨init, rfl⟩ := h
  exact Text.cut_of_getLast (by simpa using ha)

/-- A token that is a single word ends at a cut. -/
theorem cut_of_word {word : String} (h : Begins kind x r) (hrule : exactly kind word ∈ all)
    (hword : (utf8 word).getLast?.all (· < 0x80) = true) : Text.Cut x r := by
  rw [h.eq_utf8 hrule]
  exact Text.cut_of_getLast hword

/-- An operator ends at a cut. -/
theorem cut_of_operator (h : Begins .punctuation x r) : Text.Cut x r := by
  have hsize : operatorSize? x = some x.length := h.size?_self (by simp [all])
  rcases operatorSize?_eq_some_iff.mp hsize with ⟨op, hop, hlen⟩ | ⟨-, b, rest, rfl, hb, hlen⟩
  · have hpre : op <+: x := (find?_isPrefixOf_eq_some_iff.mp hop).1
    obtain rfl := hpre.eq_of_length hlen.symm
    have hascii : ∀ op ∈ longOperators, op.getLast?.all (· < 0x80) = true := by decide
    exact Text.cut_of_getLast (hascii op (List.mem_of_find?_eq_some hop))
  · obtain rfl : rest = [] := by simpa using hlen
    have hascii : ∀ b ∈ shortOperators, b < 0x80 := by decide +kernel
    exact cut_of_suffix List.suffix_rfl (hascii b hb)

/-- A word ends at a cut. -/
theorem cut_of_wordSize? {t : Text} (h : wordSize? (t ++ r) = some t.length) : Text.Cut t r := by
  obtain ⟨-, -, -, -, hspan⟩ := wordSize?_eq_some_iff.mp h
  exact Text.cutAfter_of_spanAfter hspan.symm (Nat.zero_le _)

/-- An identifier ends at a cut. -/
theorem cut_of_identifier (h : Begins .identifier x r) : Text.Cut x r := by
  have hsize : identifierSize? (x ++ r) = some x.length :=
    h.size?_eq (by simp [all] : ⟨.identifier, identifierSize?⟩ ∈ all) rfl
  rcases identifierSize?_eq_some_iff.mp hsize with ⟨rest, k, heq, hk, hlen⟩ | ⟨-, hword⟩
  · -- The word stands behind `r#`, which is ASCII.
    rcases x with _ | ⟨b, _ | ⟨b', x⟩⟩
    · simp at hlen
    · simp at hlen
    · obtain ⟨rfl, rfl, rfl⟩ : b = 0x72 ∧ b' = Byte.hash ∧ x ++ r = rest := by simpa using heq
      simp only [List.length_cons, Nat.add_right_cancel_iff] at hlen
      rw [← hlen] at hk
      have hmark : Text.Cut [0x72, Byte.hash] (x ++ r) := Text.cut_of_getLast (by decide)
      exact Text.CutAfter.append hmark (cut_of_wordSize? hk)
  · exact cut_of_wordSize? hword

/-- A lifetime ends at a cut. -/
theorem cut_of_lifetime (h : Begins .lifetime x r) : Text.Cut x r := by
  have hsize : lifetimeSize? (x ++ r) = some x.length :=
    h.size?_eq (by simp [all] : ⟨.lifetime, lifetimeSize?⟩ ∈ all) rfl
  obtain ⟨rest, k, heq, hk, hlen⟩ := lifetimeSize?_eq_some_iff.mp hsize
  rcases x with _ | ⟨b, x⟩
  · simp at hlen
  · obtain ⟨rfl, rfl⟩ : b = Byte.apostrophe ∧ x ++ r = rest := by simpa using heq
    simp only [List.length_cons, Nat.add_right_cancel_iff] at hlen
    rw [← hlen] at hk
    have hmark : Text.Cut [Byte.apostrophe] (x ++ r) := Text.cut_of_getLast (by decide)
    exact Text.CutAfter.append hmark (cut_of_wordSize? hk)

/-- A number ends at a cut. -/
theorem cut_of_number (h : Begins .number x r) : Text.Cut x r := by
  have hsize : numberSize? (x ++ r) = some x.length :=
    h.size?_eq (by simp [all] : ⟨.number, numberSize?⟩ ∈ all) rfl
  rw [numberSize?_eq] at hsize
  split at hsize
  · simp at hsize
  · have hcut := whole_numberSize (x ++ r)
    rw [Option.some.inj hsize, List.take_left, List.drop_left] at hcut
    exact hcut

/-- A code point that is a token by itself ends at a cut. -/
theorem cut_of_unassigned (h : Begins .unassigned x r) : Text.Cut x r := by
  rcases h.exists_rule with ⟨-, -, hlen⟩ | ⟨rule, hrule, hkind, -⟩
  · rcases x with _ | ⟨b, x⟩
    · trivial
    · have hextra : (Rune.read b (x ++ r)).extra = x.length := by
        simp only [List.cons_append, Text.firstWidth, Rune.width, List.length_cons] at hlen
        omega
      show Text.CutAfter (Rune.read b (x ++ r)).extra x r
      rw [hextra]
      exact Text.cutAfter_length x r
  · exact absurd hkind (kind_ne_unassigned hrule)

/-- Every token ends between two code points of the text. -/
theorem cut (h : Begins kind x r) : Text.Cut x r := by
  by_cases hclosed : kind.isClosed = true
  · obtain ⟨a, hseam⟩ := Seam.of_closed h hclosed
    exact cut_of_suffix (hseam Byte.newline).ends (hseam Byte.newline).ascii
  cases kind
  case eof =>
    have hkinds : ∀ rule ∈ all, rule.kind ≠ .eof := by decide
    rcases h.exists_rule with ⟨hkind, -⟩ | ⟨rule, hrule, hkind, -⟩
    · exact absurd hkind (by decide)
    · exact absurd hkind (hkinds rule hrule)
  case unassigned => exact h.cut_of_unassigned
  case whitespace =>
    obtain ⟨a, hseam⟩ := Seam.of_whitespace (c := Byte.newline) h (by decide)
    exact cut_of_suffix hseam.ends hseam.ascii
  case lineComment =>
    refine Text.cut_of_head fun c hc => ?_
    rcases r with _ | ⟨c', r⟩
    · simp at hc
    · obtain rfl : c' = c := by simpa using hc
      rw [h.newline_of_lineComment]
      decide
  case identifier => exact h.cut_of_identifier
  case lifetime => exact h.cut_of_lifetime
  case number => exact h.cut_of_number
  case punctuation => exact h.cut_of_operator
  case pathSeparator => exact h.cut_of_word (by simp [all] : exactly _ "::" ∈ all) (by decide)
  case colon => exact h.cut_of_word (by simp [all] : exactly _ ":" ∈ all) (by decide)
  case arrow => exact h.cut_of_word (by simp [all] : exactly _ "->" ∈ all) (by decide)
  case fatArrow => exact h.cut_of_word (by simp [all] : exactly _ "=>" ∈ all) (by decide)
  case equal => exact h.cut_of_word (by simp [all] : exactly _ "=" ∈ all) (by decide)
  case hash => exact h.cut_of_word (by simp [all] : exactly _ "#" ∈ all) (by decide)
  case bang => exact h.cut_of_word (by simp [all] : exactly _ "!" ∈ all) (by decide)
  case less => exact h.cut_of_word (by simp [all] : exactly _ "<" ∈ all) (by decide)
  case greater => exact h.cut_of_word (by simp [all] : exactly _ ">" ∈ all) (by decide)
  case ampersand => exact h.cut_of_word (by simp [all] : exactly _ "&" ∈ all) (by decide)
  case star => exact h.cut_of_word (by simp [all] : exactly _ "*" ∈ all) (by decide)
  all_goals exact absurd rfl hclosed

end Begins

/-! ## The tokens of a text -/

/-- The end of lexed lexemes is the end of their text: moving over them one by one agrees with
moving over the whole. -/
theorem Lexed.after_eq {ls : List Lexeme} (h : Lexed ls) (c : Cursor) :
    Lexeme.after c ls = c.advance (Lexeme.join ls) := by
  induction ls generalizing c with
  | nil =>
    rw [Lexeme.join_nil, Cursor.advance_of_not_mem c (by simp)]
    simp [Lexeme.after, Text.runeCount, Text.runes, Text.runesAfter]
  | cons l ls ih =>
    obtain ⟨hbegins, htail⟩ := h
    calc Lexeme.after c (l :: ls) = Lexeme.after (c.advance l.content) ls := rfl
      _ = (c.advance l.content).advance (Lexeme.join ls) := ih htail _
      _ = c.advance (Lexeme.join (l :: ls)) := (c.advance_append hbegins.cut).symm

/-- A placed lexeme stands where those before it end. -/
theorem Lexeme.location_place {c : Cursor} {ls : List Lexeme} {k : Nat} {t : Token}
    (h : (place c ls)[k]? = some t) : t.location = after c (ls.take k) := by
  induction ls generalizing c k with
  | nil => simp [place] at h
  | cons l ls ih =>
    cases k with
    | zero =>
      obtain rfl := Option.some.inj h
      rfl
    | succ k => exact ih h

/-- Tokens that are not empty are no more than the bytes of their text. -/
theorem length_le_length_join {ts : List Token} (h : ∀ t ∈ ts, t.content ≠ []) :
    ts.length ≤ (Token.join ts).length := by
  induction ts with
  | nil => exact le_refl _
  | cons t ts ih =>
    have hpos := List.length_pos_iff.mpr (h t List.mem_cons_self)
    have htail := ih fun u hu => h u (List.mem_cons_of_mem t hu)
    rw [Token.join_cons, List.length_append, List.length_cons]
    omega

/-- Lexemes are placed at or behind the position where they begin. -/
theorem Lexeme.offset_le_of_mem_place {c : Cursor} {ls : List Lexeme} :
    ∀ t ∈ place c ls, c.offset ≤ t.location.offset := by
  induction ls generalizing c with
  | nil => simp [place]
  | cons l ls ih =>
    have hadvance := Cursor.offset_advance c l.content
    refine List.forall_mem_cons.mpr ⟨le_refl _, fun t ht => ?_⟩
    have := ih t ht
    omega

/-- Lexemes that are not empty are placed behind one another. -/
theorem Lexeme.pairwise_place {c : Cursor} {ls : List Lexeme} (h : ∀ l ∈ ls, l.content ≠ []) :
    (place c ls).Pairwise fun t u => t.location.offset < u.location.offset := by
  induction ls generalizing c with
  | nil => exact .nil
  | cons l ls ih =>
    obtain ⟨hl, hls⟩ := List.forall_mem_cons.mp h
    have hpos := List.length_pos_iff.mpr hl
    have hadvance := Cursor.offset_advance c l.content
    refine .cons (fun t ht => ?_) (ih hls)
    have hle := offset_le_of_mem_place t ht
    show c.offset < t.location.offset
    omega

/-- The offsets of the tokens of a text increase. -/
theorem pairwise_offset_of_tokenize {t : Text} {c : Cursor} {ts : List Token}
    (h : tokenize t c = .ok ts) : ts.Pairwise fun t u => t.location.offset < u.location.offset := by
  obtain ⟨hlexed, -, hplace⟩ := tokenize_eq_ok_iff.mp h
  rw [← hplace]
  exact Lexeme.pairwise_place fun l hl => hlexed.content_ne_nil hl

namespace Cuts

variable {s rest : Text} {c : Cursor} {l : Lexing}

/-- Moving over the first tokens one by one agrees with moving over their text at once. -/
theorem foldl_advance (h : Cuts s c l rest) (k : Nat) :
    (l.tokens.take k).foldl (fun p t => p.advance t.content) c =
      c.advance (Token.join (l.tokens.take k)) := by
  have hlexed : Lexed ((l.tokens.take k).map Token.lexeme) := by
    have hsplit := h.lexed
    rw [← List.take_append_drop k l.tokens, List.map_append] at hsplit
    exact hsplit.left
  have hafter := hlexed.after_eq c
  rw [Lexeme.after, List.foldl_map] at hafter
  rw [Token.join_eq]
  exact hafter

/-- A token stands behind the text of the tokens before it. -/
theorem location_eq (h : Cuts s c l rest) {k : Nat} (hk : k < l.tokens.length) :
    l.tokens[k].location = c.advance (Token.join (l.tokens.take k)) := by
  have hget : (Lexeme.place c (l.tokens.map Token.lexeme))[k]? = some l.tokens[k] := by
    rw [h.place_eq, List.getElem?_eq_getElem hk]
  rw [Lexeme.location_place hget, ← h.foldl_advance k, ← List.map_take, Lexeme.after,
    List.foldl_map]
  rfl

end Cuts

/-- The lexer loses nothing and its positions are exact, on every text and from every place on. No
token is empty, each stands behind the text of the tokens before it, and moving over tokens one by
one agrees with moving over their text at once. Without a failure the tokens make up the text; with
one they make up a start of it but not all, and the failure is reported where that start ends. -/
theorem lex_exact (s : Text) (c : Cursor) :
    (lex s c).tokens.length ≤ s.length ∧
      (∀ t ∈ (lex s c).tokens, t.content ≠ []) ∧
      (∀ k (hk : k < (lex s c).tokens.length),
        (lex s c).tokens[k].location = c.advance (Token.join ((lex s c).tokens.take k))) ∧
      (∀ k, ((lex s c).tokens.take k).foldl (fun p t => p.advance t.content) c =
        c.advance (Token.join ((lex s c).tokens.take k))) ∧
      match (lex s c).error? with
      | none => Token.join (lex s c).tokens = s
      | some e => Token.join (lex s c).tokens <+: s ∧ Token.join (lex s c).tokens ≠ s ∧
          e.location = c.advance (Token.join (lex s c).tokens) := by
  obtain ⟨rest, hcuts⟩ := exists_cuts s c
  have hjoin : Token.join (lex s c).tokens ++ rest = s := by
    rw [Token.join_eq]
    exact hcuts.join_eq
  have hne : ∀ t ∈ (lex s c).tokens, t.content ≠ [] := fun t ht =>
    hcuts.lexed.content_ne_nil (List.mem_map_of_mem ht)
  refine ⟨?_, hne, fun k hk => hcuts.location_eq hk, hcuts.foldl_advance, ?_⟩
  · calc (lex s c).tokens.length ≤ (Token.join (lex s c).tokens).length :=
        length_le_length_join hne
      _ ≤ (Token.join (lex s c).tokens ++ rest).length := by simp
      _ = s.length := by rw [hjoin]
  · split
    · next herror =>
      rw [hcuts.complete herror, List.append_nil] at hjoin
      exact hjoin
    · next e herror =>
      obtain ⟨hrest, hlocation⟩ := hcuts.stopped e herror
      refine ⟨⟨rest, hjoin⟩, fun heq => hrest ?_, ?_⟩
      · rw [heq, List.append_right_eq_self] at hjoin
        exact hjoin
      · rw [hlocation, hcuts.lexed.after_eq, ← Token.join_eq]

/-- In a text with two bytes that are no code point and an open literal, the failure is reported on
the second line, and the second byte in the second column. -/
theorem lex_exact_invalid :
    lex [0xE2, 0x82, Byte.newline, Byte.quote] Cursor.start =
        ⟨[⟨.unassigned, ⟨1, 1, 0⟩, [0xE2]⟩, ⟨.unassigned, ⟨1, 2, 1⟩, [0x82]⟩,
          ⟨.newline, ⟨1, 3, 2⟩, [Byte.newline]⟩], some ⟨⟨2, 1, 3⟩, .string⟩⟩ ∧
      (⟨1, 2, 1⟩ : Cursor) = Cursor.start.advance [0xE2] ∧
      (⟨2, 1, 3⟩ : Cursor) = Cursor.start.advance [0xE2, 0x82, Byte.newline] := by
  have hlex : lex [0xE2, 0x82, Byte.newline, Byte.quote] Cursor.start =
      ⟨[⟨.unassigned, ⟨1, 1, 0⟩, [0xE2]⟩, ⟨.unassigned, ⟨1, 2, 1⟩, [0x82]⟩,
        ⟨.newline, ⟨1, 3, 2⟩, [Byte.newline]⟩], some ⟨⟨2, 1, 3⟩, .string⟩⟩ := by
    decide +kernel
  have hexact := lex_exact [0xE2, 0x82, Byte.newline, Byte.quote] Cursor.start
  rw [hlex] at hexact
  obtain ⟨-, -, hlocation, -, -, -, herror⟩ := hexact
  exact ⟨hlex, hlocation 1 (by decide), herror⟩

/-! ## Parts of a text -/

/-- The part of a text from one token up to another falls into the tokens between, when it is read
where the first of them stands. -/
theorem tokenize_slice (s : Text) (c : Cursor) (ts : List Token) (h : tokenize s c = .ok ts)
    (i j : Nat) (hij : i < j) (hj : j ≤ ts.length) :
    Shape.slice s c ts[i].location.offset ts[j - 1].endOffset =
        Token.join ((ts.drop i).take (j - i)) ∧
      tokenize (Shape.slice s c ts[i].location.offset ts[j - 1].endOffset) ts[i].location =
        .ok ((ts.drop i).take (j - i)) := by
  obtain ⟨n, rfl⟩ := Nat.exists_eq_add_of_lt hij
  have hlength : i + n + 1 - i = n + 1 := by omega
  have hlast : n < (ts.drop i).length := by
    rw [List.length_drop]
    omega
  have hcons : (ts.drop i).take (n + 1) = ts[i] :: (ts.drop (i + 1)).take n := by
    rw [List.drop_eq_getElem_cons (by omega), List.take_succ_cons]
  have hconcat : (ts.drop i).take (n + 1) = (ts.drop i).take n ++ [ts[i + n]] := by
    rw [List.take_succ_eq_append_getElem hlast, List.getElem_drop]
  -- The text falls into the tokens before the part, those of the part and those behind it.
  have hsplit : ts = ts.take i ++ (ts[i] :: (ts.drop (i + 1)).take n) ++
      (ts.drop i).drop (n + 1) := by
    rw [← hcons, List.append_assoc, List.take_append_drop, List.take_append_drop]
  have hslice : Shape.slice s c ts[i].location.offset ts[i + n].endOffset =
      Token.join ((ts.drop i).take (n + 1)) := by
    rw [hcons]
    refine Shape.slice_eq_join (hsplit ▸ h) ?_
    rw [← hcons, hconcat]
    exact List.suffix_append _ _
  simp only [hlength, Nat.add_sub_cancel, hslice, true_and]
  rw [hcons]
  rw [hsplit, List.append_assoc] at h
  exact tokenize_middle h

/-- A part that begins with a byte that is no code point is read as in the whole. -/
theorem tokenize_slice_invalid :
    ∃ ts, tokenize (utf8 "a " ++ [0xE2] ++ utf8 "'b' r#\"c\"# 'd") ⟨3, 5, 40⟩ = .ok ts ∧
      ts.length = 8 ∧
      tokenize ([0xE2] ++ utf8 "'b' r#\"c\"#") ⟨3, 7, 42⟩ = .ok ((ts.drop 2).take 4) := by
  let ts : List Token :=
    [⟨.identifier, ⟨3, 5, 40⟩, utf8 "a"⟩, ⟨.whitespace, ⟨3, 6, 41⟩, utf8 " "⟩,
      ⟨.unassigned, ⟨3, 7, 42⟩, [0xE2]⟩, ⟨.character, ⟨3, 8, 43⟩, utf8 "'b'"⟩,
      ⟨.whitespace, ⟨3, 11, 46⟩, utf8 " "⟩, ⟨.rawString, ⟨3, 12, 47⟩, utf8 "r#\"c\"#"⟩,
      ⟨.whitespace, ⟨3, 18, 53⟩, utf8 " "⟩, ⟨.lifetime, ⟨3, 19, 54⟩, utf8 "'d"⟩]
  have htokens : tokenize (utf8 "a " ++ [0xE2] ++ utf8 "'b' r#\"c\"# 'd") ⟨3, 5, 40⟩ = .ok ts := by
    decide +kernel
  have hslice := tokenize_slice _ _ ts htokens 2 6 (by decide) (by decide)
  exact ⟨ts, htokens, rfl, hslice.2⟩

end CallConv
