import Mathlib
import CallConv.Proofs.Token.Stable

/-!
# Comments and literals between delimiters

Block comments and literals end with a closing delimiter, so nothing that follows makes them
longer. Each literal is described by what it is made of: a mark for bytes that may be absent, the
opening, a body, and the first closing after it.
-/

namespace CallConv.Rule

/-! ## Block comments -/

/-- The end of a block comment is found in bytes of the text, at least two of them. -/
theorem bounds_of_blockCommentEnd? {depth n : Nat} {t : Text}
    (h : blockCommentEnd? depth t = some n) : 2 ≤ n ∧ n ≤ t.length := by
  fun_induction blockCommentEnd? depth t generalizing n with
  | case1 depth a b t hopen ih =>
    obtain ⟨m, hm, rfl⟩ := Option.map_eq_some_iff.mp h
    have := ih hm
    simp only [List.length_cons]
    omega
  | case2 depth a b t hopen hclose hdepth =>
    obtain rfl := Option.some.inj h
    simp
  | case3 depth a b t hopen hclose hdepth ih =>
    obtain ⟨m, hm, rfl⟩ := Option.map_eq_some_iff.mp h
    have := ih hm
    simp only [List.length_cons]
    omega
  | case4 depth a b t hopen hclose ih =>
    obtain ⟨m, hm, rfl⟩ := Option.map_eq_some_iff.mp h
    have := ih hm
    simp only [List.length_cons] at this ⊢
    omega
  | case5 => simp at h

/-- The end of a block comment does not depend on what follows it. -/
theorem blockCommentEnd?_append {depth n : Nat} {w : Text} (s : Text)
    (h : blockCommentEnd? depth w = some n) : blockCommentEnd? depth (w ++ s) = some n := by
  -- The search for the end looks at two bytes at a time, all of them before the end.
  fun_induction blockCommentEnd? depth w generalizing n with
  | case1 depth a b t hopen ih =>
    obtain ⟨m, hm, rfl⟩ := Option.map_eq_some_iff.mp h
    rw [List.cons_append, List.cons_append, blockCommentEnd?, if_pos hopen, ih hm]
    rfl
  | case2 depth a b t hopen hclose hdepth =>
    rw [List.cons_append, List.cons_append, blockCommentEnd?, if_neg hopen, if_pos hclose,
      if_pos hdepth]
    exact h
  | case3 depth a b t hopen hclose hdepth ih =>
    obtain ⟨m, hm, rfl⟩ := Option.map_eq_some_iff.mp h
    rw [List.cons_append, List.cons_append, blockCommentEnd?, if_neg hopen, if_pos hclose,
      if_neg hdepth, ih hm]
    rfl
  | case4 depth a b t hopen hclose ih =>
    obtain ⟨m, hm, rfl⟩ := Option.map_eq_some_iff.mp h
    rw [List.cons_append, List.cons_append, blockCommentEnd?, if_neg hopen, if_neg hclose]
    rw [← List.cons_append, ih hm]
    rfl
  | case5 => simp at h

/-- The end of a block comment within a start of a text is found in the start alone. -/
theorem blockCommentEnd?_of_append {depth n : Nat} {w s : Text}
    (h : blockCommentEnd? depth (w ++ s) = some n) (hn : n ≤ w.length) :
    blockCommentEnd? depth w = some n := by
  fun_induction blockCommentEnd? depth w generalizing n with
  | case1 depth a b t hopen ih =>
    rw [List.cons_append, List.cons_append, blockCommentEnd?, if_pos hopen] at h
    obtain ⟨m, hm, rfl⟩ := Option.map_eq_some_iff.mp h
    simp only [List.length_cons] at hn
    rw [ih hm (by omega)]
    rfl
  | case2 depth a b t hopen hclose hdepth =>
    rw [List.cons_append, List.cons_append, blockCommentEnd?, if_neg hopen, if_pos hclose,
      if_pos hdepth] at h
    exact h
  | case3 depth a b t hopen hclose hdepth ih =>
    rw [List.cons_append, List.cons_append, blockCommentEnd?, if_neg hopen, if_pos hclose,
      if_neg hdepth] at h
    obtain ⟨m, hm, rfl⟩ := Option.map_eq_some_iff.mp h
    simp only [List.length_cons] at hn
    rw [ih hm (by omega)]
    rfl
  | case4 depth a b t hopen hclose ih =>
    rw [List.cons_append, List.cons_append, blockCommentEnd?, if_neg hopen, if_neg hclose,
      ← List.cons_append] at h
    obtain ⟨m, hm, rfl⟩ := Option.map_eq_some_iff.mp h
    simp only [List.length_cons] at hn ih
    rw [ih hm (by omega)]
    rfl
  | case5 t depth hshort =>
    -- A text of fewer than two bytes does not hold the end.
    exfalso
    have h2 := (bounds_of_blockCommentEnd? h).1
    rcases t with _ | ⟨a, _ | ⟨b, t⟩⟩
    · simp at hn
      omega
    · simp at hn
      omega
    · exact hshort a b t rfl

/-- Block comments end with their closing delimiter. -/
theorem delimited_blockCommentSize? : Delimited blockCommentSize? where
  pos {t n} h := by
    unfold blockCommentSize? at h
    split at h
    · have := (bounds_of_blockCommentEnd? h).1
      omega
    · simp at h
  le_length {t n} h := by
    unfold blockCommentSize? at h
    split at h
    · exact (bounds_of_blockCommentEnd? h).2
    · simp at h
  of_append {w s n} h hn := by
    unfold blockCommentSize? at h ⊢
    split at h
    · next hp =>
      have h2 := (bounds_of_blockCommentEnd? h).1
      rw [isPrefixOf_append (le_trans h2 hn)] at hp
      rw [if_pos hp, blockCommentEnd?_of_append h hn]
    · simp at h
  append {w n} s h := by
    unfold blockCommentSize? at h ⊢
    split at h
    · next hp => rw [if_pos (isPrefixOf_append_of s hp), blockCommentEnd?_append s h]
    · simp at h

/-! ## Strings -/

/-- A quote ends a string literal. -/
@[simp]
theorem stringEnd?_quote (t : Text) : stringEnd? (Byte.quote :: t) = some 1 := by
  rw [stringEnd?.eq_def]
  rfl

/-- A backslash in a string literal takes the next byte with it. -/
@[simp]
theorem stringEnd?_backslash (c : UInt8) (t : Text) :
    stringEnd? (Byte.backslash :: c :: t) = (stringEnd? t).map (· + 2) := by
  rw [stringEnd?.eq_def]
  rfl

/-- Any other byte stands for itself in a string literal. -/
theorem stringEnd?_cons {b : UInt8} (t : Text) (hquote : b ≠ Byte.quote)
    (hescape : b ≠ Byte.backslash) : stringEnd? (b :: t) = (stringEnd? t).map (· + 1) := by
  rw [stringEnd?.eq_def]
  simp only [if_neg hquote, if_neg hescape]

/-- The end of a string literal is found in bytes of the text, and is not empty. -/
theorem bounds_of_stringEnd? {t : Text} {n : Nat} (h : stringEnd? t = some n) :
    0 < n ∧ n ≤ t.length := by
  fun_induction stringEnd? t generalizing n with
  | case1 => simp at h
  | case2 t =>
    obtain rfl := Option.some.inj h
    simp
  | case3 => simp at h
  | case4 c t hne ih =>
    obtain ⟨m, hm, rfl⟩ := Option.map_eq_some_iff.mp h
    have := ih hm
    simp only [List.length_cons]
    omega
  | case5 b t hquote hescape ih =>
    obtain ⟨m, hm, rfl⟩ := Option.map_eq_some_iff.mp h
    have := ih hm
    simp only [List.length_cons]
    omega

/-- The end of a string literal does not depend on what follows it. -/
theorem stringEnd?_append {w : Text} {n : Nat} (s : Text) (h : stringEnd? w = some n) :
    stringEnd? (w ++ s) = some n := by
  fun_induction stringEnd? w generalizing n with
  | case1 => simp at h
  | case2 t =>
    rw [List.cons_append, stringEnd?_quote]
    exact h
  | case3 => simp at h
  | case4 c t hne ih =>
    obtain ⟨m, hm, rfl⟩ := Option.map_eq_some_iff.mp h
    rw [List.cons_append, List.cons_append, stringEnd?_backslash, ih hm]
    rfl
  | case5 b t hquote hescape ih =>
    obtain ⟨m, hm, rfl⟩ := Option.map_eq_some_iff.mp h
    rw [List.cons_append, stringEnd?_cons _ hquote hescape, ih hm]
    rfl

/-- The end of a string literal within a start of a text is found in the start alone. -/
theorem stringEnd?_of_append {w s : Text} {n : Nat} (h : stringEnd? (w ++ s) = some n)
    (hn : n ≤ w.length) : stringEnd? w = some n := by
  fun_induction stringEnd? w generalizing n with
  | case1 =>
    have := (bounds_of_stringEnd? h).1
    simp only [List.length_nil] at hn
    omega
  | case2 t =>
    rw [List.cons_append, stringEnd?_quote] at h
    exact h
  | case3 hne =>
    -- The backslash takes a byte with it, and the closing quote is a third one.
    exfalso
    rcases s with _ | ⟨c, s⟩
    · simp [stringEnd?.eq_def, hne] at h
    · rw [List.cons_append, List.nil_append, stringEnd?_backslash] at h
      obtain ⟨m, hm, rfl⟩ := Option.map_eq_some_iff.mp h
      simp only [List.length_cons, List.length_nil] at hn
      omega
  | case4 c t hne ih =>
    rw [List.cons_append, List.cons_append, stringEnd?_backslash] at h
    obtain ⟨m, hm, rfl⟩ := Option.map_eq_some_iff.mp h
    simp only [List.length_cons] at hn
    rw [ih hm (by omega)]
    rfl
  | case5 b t hquote hescape ih =>
    rw [List.cons_append, stringEnd?_cons _ hquote hescape] at h
    obtain ⟨m, hm, rfl⟩ := Option.map_eq_some_iff.mp h
    simp only [List.length_cons] at hn
    rw [ih hm (by omega)]
    rfl

/-- The rest of a string literal ends with its closing quote. -/
theorem delimited_stringEnd? : Delimited stringEnd? where
  pos h := (bounds_of_stringEnd? h).1
  le_length h := (bounds_of_stringEnd? h).2
  of_append := stringEnd?_of_append
  append := stringEnd?_append

/-- The byte mark of a literal, which may be absent. -/
def IsMark (mark : Text) : Prop := mark = [] ∨ mark = [0x62]

/-- What stands behind the byte mark of a text. -/
theorem drop_byteMarkSize_iff {t rest : Text} {b : UInt8} :
    t.drop (byteMarkSize t) = b :: rest ↔
      ∃ mark, IsMark mark ∧ t = mark ++ b :: rest ∧ byteMarkSize t = mark.length := by
  constructor
  · intro h
    unfold byteMarkSize at h ⊢
    split at h
    · next hmark =>
      -- The mark is there.
      rcases t with _ | ⟨c, t⟩
      · simp at hmark
      · obtain rfl := Option.some.inj hmark
        exact ⟨[0x62], .inr rfl, by rw [← h]; rfl, by simp⟩
    · next hmark => exact ⟨[], .inl rfl, h, by simp [hmark]⟩
  · rintro ⟨mark, -, ht, hsize⟩
    rw [hsize, ht, List.drop_left]

/-- A literal opened by a quote character that a byte mark may stand before. -/
def markedSize? (quote : UInt8) (end? : Text → Option Nat) (t : Text) : Option Nat :=
  if (t.drop (byteMarkSize t)).head? = some quote then
    (end? (t.drop (byteMarkSize t + 1))).map (· + (byteMarkSize t + 1))
  else none

/-- A marked literal is a mark, the quote character, and the rest up to its end. -/
theorem markedSize?_eq_some_iff {quote : UInt8} {end? : Text → Option Nat} {t : Text} {n : Nat}
    (hquote : quote ≠ 0x62) :
    markedSize? quote end? t = some n ↔
      ∃ mark rest k, IsMark mark ∧ t = mark ++ quote :: rest ∧ end? rest = some k ∧
        n = k + (mark.length + 1) := by
  unfold markedSize?
  constructor
  · intro h
    split at h
    · next hhead =>
      obtain ⟨k, hk, rfl⟩ := Option.map_eq_some_iff.mp h
      obtain ⟨rest, hrest⟩ := List.head?_eq_some_iff.mp hhead
      obtain ⟨mark, hmark, ht, hsize⟩ := drop_byteMarkSize_iff.mp hrest
      rw [← List.drop_drop, hrest, List.drop_one, List.tail_cons] at hk
      exact ⟨mark, rest, k, hmark, ht, hk, by rw [hsize]⟩
    · simp at h
  · rintro ⟨mark, rest, k, hmark, ht, hk, rfl⟩
    -- The quote is no mark, so that the mark is all that stands before it.
    have hsize : byteMarkSize t = mark.length := by
      rw [ht]
      rcases hmark with rfl | rfl
      · unfold byteMarkSize
        exact if_neg fun heq => hquote (Option.some.inj heq)
      · rfl
    have hdrop := drop_byteMarkSize_iff.mpr ⟨mark, hmark, ht, hsize⟩
    rw [hdrop, List.head?_cons, if_pos rfl, ← List.drop_drop, hdrop, List.drop_one, List.tail_cons,
      hk, hsize]
    rfl

/-- A start of a text that is long enough for the opening of the text begins with it. -/
theorem exists_of_append_eq {opening rest w s : Text} (heq : w ++ s = opening ++ rest)
    (hle : opening.length ≤ w.length) : ∃ rest', w = opening ++ rest' ∧ rest = rest' ++ s := by
  obtain ⟨rest', rfl⟩ :=
    List.prefix_of_prefix_length_le ⟨rest, heq.symm⟩ (List.prefix_append w s) hle
  rw [List.append_assoc, List.append_right_inj] at heq
  exact ⟨rest', rfl, heq.symm⟩

/-- A marked literal ends with its closing delimiter if what follows its quote does. -/
theorem Delimited.marked {quote : UInt8} {end? : Text → Option Nat} (hquote : quote ≠ 0x62)
    (h : Delimited end?) : Delimited (markedSize? quote end?) where
  pos {t n} ht := by
    obtain ⟨mark, rest, k, -, -, -, rfl⟩ := (markedSize?_eq_some_iff hquote).mp ht
    omega
  le_length {t n} ht := by
    obtain ⟨mark, rest, k, -, rfl, hk, rfl⟩ := (markedSize?_eq_some_iff hquote).mp ht
    have := h.le_length hk
    rw [List.length_append, List.length_cons]
    omega
  of_append {w s n} ht hn := by
    obtain ⟨mark, rest, k, hmark, heq, hk, rfl⟩ := (markedSize?_eq_some_iff hquote).mp ht
    -- The start is long enough to hold the mark and the quote.
    have heq' : w ++ s = mark ++ [quote] ++ rest := by
      rw [heq]
      simp
    have hle : (mark ++ [quote]).length ≤ w.length := by
      rw [List.length_append, List.length_singleton]
      omega
    obtain ⟨rest', rfl, rfl⟩ := exists_of_append_eq heq' hle
    simp only [List.length_append, List.length_singleton] at hn
    exact (markedSize?_eq_some_iff hquote).mpr
      ⟨mark, rest', k, hmark, by simp, h.of_append hk (by omega), rfl⟩
  append {w n} s ht := by
    obtain ⟨mark, rest, k, hmark, rfl, hk, rfl⟩ := (markedSize?_eq_some_iff hquote).mp ht
    exact (markedSize?_eq_some_iff hquote).mpr
      ⟨mark, rest ++ s, k, hmark, by simp, h.append s hk, rfl⟩

/-- String literals are marked literals in double quotes. -/
theorem stringSize?_eq_markedSize? : stringSize? = markedSize? Byte.quote stringEnd? := by
  funext t
  unfold stringSize? isStringOpening markedSize?
  simp only [beq_iff_eq]

/-- String literals end with their closing quote. -/
theorem delimited_stringSize? : Delimited stringSize? := by
  rw [stringSize?_eq_markedSize?]
  exact delimited_stringEnd?.marked (by decide)

/-- Character literals are marked literals in apostrophes. -/
theorem characterSize?_eq_markedSize? :
    characterSize? = markedSize? Byte.apostrophe characterEnd? := rfl

/-! ## Characters -/

/-- A byte behind a run divides the text into the run, the byte, and the rest. -/
theorem eq_takeWhile_append_of_head? {p : UInt8 → Bool} {t : Text} {b : UInt8}
    (h : (t.drop (t.takeWhile p).length).head? = some b) :
    ∃ rest, t = t.takeWhile p ++ b :: rest := by
  obtain ⟨rest, hrest⟩ := List.head?_eq_some_iff.mp h
  have htake := List.prefix_iff_eq_take.mp (List.takeWhile_prefix p (l := t))
  refine ⟨rest, ?_⟩
  calc t = t.take (t.takeWhile p).length ++ t.drop (t.takeWhile p).length :=
        (List.take_append_drop _ t).symm
    _ = t.takeWhile p ++ b :: rest := by rw [← htake, hrest]

/-- A run before a byte that is not part of it is what it is. -/
theorem takeWhile_append_cons {p : UInt8 → Bool} {run rest : Text} {b : UInt8}
    (hrun : ∀ c ∈ run, p c = true) (hb : p b = false) :
    (run ++ b :: rest).takeWhile p = run := by
  rw [List.takeWhile_append_of_pos hrun, List.takeWhile_cons_of_neg (by rw [hb]; decide),
    List.append_nil]

/-- Whether a byte can continue an escape sequence of a character literal. -/
def isEscapePart (b : UInt8) : Bool := b != Byte.apostrophe && b != Byte.newline

/-- The end of a character literal whose body is an escape sequence. -/
theorem characterEnd?_backslash (c : UInt8) (t : Text) :
    characterEnd? (Byte.backslash :: c :: t) =
      if c ≠ Byte.newline ∧
          (t.drop (t.takeWhile isEscapePart).length).head? = some Byte.apostrophe then
        some ((t.takeWhile isEscapePart).length + 3)
      else none := by
  rw [characterEnd?.eq_def]
  rfl

/-- The end of a character literal whose body is a code point. -/
theorem characterEnd?_cons {b : UInt8} (t : Text) (hescape : b ≠ Byte.backslash) :
    characterEnd? (b :: t) =
      if b = Byte.apostrophe ∨ b = Byte.newline then none
      else if (t.drop (Rune.read b t).extra).head? = some Byte.apostrophe then
        some ((Rune.read b t).extra + 2)
      else none := by
  rw [characterEnd?.eq_def]
  simp only [if_neg hescape]
  rfl

/-- The body of a character literal between its apostrophes: an escape sequence of any length, or
one code point, on one line. -/
inductive CharacterBody : Text → Prop where
  | escape {c : UInt8} {body : Text} (hc : c ≠ Byte.newline)
      (hbody : ∀ b ∈ body, isEscapePart b = true) : CharacterBody (Byte.backslash :: c :: body)
  | rune {b : UInt8} {more : Text} (hescape : b ≠ Byte.backslash) (hquote : b ≠ Byte.apostrophe)
      (hnewline : b ≠ Byte.newline) (hmore : (Rune.read b more).extra = more.length) :
      CharacterBody (b :: more)

/-- The code point before an ASCII character is read from the bytes up to it. -/
theorem extra_read_eq_iff {b c : UInt8} {more rest : Text} (hc : c < 0x80) :
    (Rune.read b (more ++ c :: rest)).extra = more.length ↔
      (Rune.read b more).extra = more.length := by
  -- An ASCII character is no part of a longer code point.
  have hle : (Rune.read b (more ++ c :: rest)).extra ≤ more.length := by
    by_contra hlt
    have hmem : c ∈ (more ++ c :: rest).take (Rune.read b (more ++ c :: rest)).extra := by
      rw [List.take_append]
      refine List.mem_append_right _ ?_
      obtain ⟨k, hk⟩ := Nat.exists_eq_succ_of_ne_zero (Nat.sub_ne_zero_of_lt (not_le.mp hlt))
      rw [hk, List.take_succ_cons]
      exact List.mem_cons_self
    exact absurd hc (UInt8.not_lt.mpr ((Rune.extra_read_le b (more ++ c :: rest)).2 c hmem))
  rw [Rune.read_of_extra_le hle]

/-- A character literal is read as its body and the closing apostrophe. -/
theorem characterEnd?_eq_some_iff {t : Text} {n : Nat} :
    characterEnd? t = some n ↔
      ∃ body rest, CharacterBody body ∧ t = body ++ Byte.apostrophe :: rest ∧
        n = body.length + 1 := by
  constructor
  · intro h
    rcases t with _ | ⟨b, t⟩
    · simp [characterEnd?] at h
    -- An escape sequence runs up to the apostrophe, and anything else is one code point.
    by_cases hescape : b = Byte.backslash
    · subst hescape
      rcases t with _ | ⟨c, t⟩
      · simp [characterEnd?.eq_def] at h
      rw [characterEnd?_backslash] at h
      split at h
      · next hc =>
        obtain ⟨rest, ht⟩ := eq_takeWhile_append_of_head? hc.2
        obtain rfl := Option.some.inj h
        refine ⟨Byte.backslash :: c :: t.takeWhile isEscapePart, rest,
          .escape hc.1 (fun b hb => List.mem_takeWhile_imp hb), ?_, rfl⟩
        rw [List.cons_append, List.cons_append, ← ht]
      · simp at h
    · rw [characterEnd?_cons t hescape] at h
      split at h
      · simp at h
      · next hb =>
        rw [not_or] at hb
        split at h
        · next hhead =>
          obtain ⟨rest, hrest⟩ := List.head?_eq_some_iff.mp hhead
          obtain rfl := Option.some.inj h
          have hle := (Rune.extra_read_le b t).1
          have ht : t = t.take (Rune.read b t).extra ++ Byte.apostrophe :: rest := by
            rw [← hrest, List.take_append_drop]
          have hlen : (t.take (Rune.read b t).extra).length = (Rune.read b t).extra :=
            List.length_take_of_le hle
          refine ⟨b :: t.take (Rune.read b t).extra, rest, .rune hescape hb.1 hb.2 ?_, ?_, ?_⟩
          · -- The code point is read from the bytes before the apostrophe alone.
            have hread : (Rune.read b (t.take (Rune.read b t).extra ++
                Byte.apostrophe :: rest)).extra = (t.take (Rune.read b t).extra).length := by
              rw [← ht, hlen]
            exact (extra_read_eq_iff (by decide)).mp hread
          · rw [List.cons_append, ← ht]
          · rw [List.length_cons, hlen]
        · simp at h
  · rintro ⟨body, rest, hbody, rfl, rfl⟩
    cases hbody with
    | @escape c body hc hbody =>
      have hrun : (body ++ Byte.apostrophe :: rest).takeWhile isEscapePart = body :=
        takeWhile_append_cons hbody (by decide)
      rw [List.cons_append, List.cons_append, characterEnd?_backslash, hrun, List.drop_left,
        List.head?_cons, if_pos ⟨hc, rfl⟩]
      rfl
    | @rune b more hescape hquote hnewline hmore =>
      have hread : (Rune.read b (more ++ Byte.apostrophe :: rest)).extra = more.length :=
        (extra_read_eq_iff (by decide)).mpr hmore
      rw [List.cons_append, characterEnd?_cons _ hescape, if_neg (not_or.mpr ⟨hquote, hnewline⟩),
        hread, List.drop_left, List.head?_cons, if_pos rfl, List.length_cons]

/-- The rest of a character literal ends with its closing apostrophe. -/
theorem delimited_characterEnd? : Delimited characterEnd? where
  pos {t n} h := by
    obtain ⟨body, rest, -, -, rfl⟩ := characterEnd?_eq_some_iff.mp h
    exact Nat.succ_pos _
  le_length {t n} h := by
    obtain ⟨body, rest, -, rfl, rfl⟩ := characterEnd?_eq_some_iff.mp h
    simp
  of_append {w s n} h hn := by
    obtain ⟨body, rest, hbody, heq, rfl⟩ := characterEnd?_eq_some_iff.mp h
    -- The start is long enough to hold the body and the closing apostrophe.
    have heq' : w ++ s = body ++ [Byte.apostrophe] ++ rest := by
      rw [heq]
      simp
    obtain ⟨rest', rfl, rfl⟩ := exists_of_append_eq heq' (by simpa using hn)
    exact characterEnd?_eq_some_iff.mpr ⟨body, rest', hbody, by simp, rfl⟩
  append {w n} s h := by
    obtain ⟨body, rest, hbody, rfl, rfl⟩ := characterEnd?_eq_some_iff.mp h
    exact characterEnd?_eq_some_iff.mpr ⟨body, rest ++ s, hbody, by simp, rfl⟩

/-- Character literals end with their closing apostrophe. -/
theorem delimited_characterSize? : Delimited characterSize? := by
  rw [characterSize?_eq_markedSize?]
  exact delimited_characterEnd?.marked (by decide)

/-! ## Raw strings -/

/-- The opening of a raw string literal: a byte mark, the letter, hashes, and the quote. -/
def rawOpening (mark : Text) (hashes : Nat) : Text :=
  mark ++ 0x72 :: (List.replicate hashes Byte.hash ++ [Byte.quote])

/-- The length of the byte mark before a letter that is not the mark. -/
theorem byteMarkSize_append {mark rest : Text} {b : UInt8} (hmark : IsMark mark) (hb : b ≠ 0x62) :
    byteMarkSize (mark ++ b :: rest) = mark.length := by
  rcases hmark with rfl | rfl
  · exact if_neg fun heq => hb (Option.some.inj heq)
  · rfl

/-- A raw string literal is opened by a start of the text. -/
theorem rawStringOpening?_eq_some_iff {t : Text} {n hashes : Nat} :
    rawStringOpening? t = some (n, hashes) ↔
      ∃ mark, IsMark mark ∧ rawOpening mark hashes <+: t ∧ n = mark.length + 2 + hashes := by
  unfold rawStringOpening?
  constructor
  · intro h
    simp only at h
    split at h
    · next r t' hdrop =>
      split at h
      · next hr =>
        obtain ⟨rfl, hquote⟩ := hr
        simp only [Option.some.injEq, Prod.mk.injEq] at h
        obtain ⟨rfl, rfl⟩ := h
        obtain ⟨mark, hmark, rfl, hsize⟩ := drop_byteMarkSize_iff.mp hdrop
        obtain ⟨rest, hrest⟩ := eq_takeWhile_append_of_head? hquote
        -- The hashes are a run that the quote ends.
        have hrun : t'.takeWhile (· == Byte.hash) =
            List.replicate (t'.takeWhile (· == Byte.hash)).length Byte.hash :=
          List.eq_replicate_of_mem fun b hb => by simpa using List.mem_takeWhile_imp hb
        refine ⟨mark, hmark, ⟨rest, ?_⟩, by rw [hsize]⟩
        unfold rawOpening
        rw [← hrun, List.append_assoc, List.cons_append, List.append_assoc, List.singleton_append,
          ← hrest]
      · simp at h
    · simp at h
  · rintro ⟨mark, hmark, ⟨rest, rfl⟩, rfl⟩
    have heq : rawOpening mark hashes ++ rest =
        mark ++ 0x72 :: (List.replicate hashes Byte.hash ++ Byte.quote :: rest) := by
      simp [rawOpening]
    have hrun : ((List.replicate hashes Byte.hash ++ Byte.quote :: rest).takeWhile
        (· == Byte.hash)) = List.replicate hashes Byte.hash :=
      takeWhile_append_cons (fun c hc => by simp [List.eq_of_mem_replicate hc]) (by decide)
    have hhead : ((List.replicate hashes Byte.hash ++ Byte.quote :: rest).drop hashes).head? =
        some Byte.quote := by
      rw [List.drop_left' List.length_replicate]
      rfl
    rw [heq, byteMarkSize_append hmark (by decide)]
    simp only [List.drop_left, hrun, List.length_replicate, hhead]
    rfl

/-- An occurrence of a text lies within the text it is found in. -/
theorem indexOf?_add_length_le {needle t : Text} {k : Nat}
    (h : Text.indexOf? needle t = some k) : k + needle.length ≤ t.length := by
  induction t generalizing k with
  | nil =>
    rw [Text.indexOf?] at h
    split at h
    · next hne =>
      obtain rfl := Option.some.inj h
      simp [hne]
    · simp at h
  | cons b t ih =>
    rw [Text.indexOf?] at h
    split at h
    · next hp =>
      obtain rfl := Option.some.inj h
      rw [Nat.zero_add]
      exact (List.isPrefixOf_iff_prefix.mp hp).length_le
    · obtain ⟨m, hm, rfl⟩ := Option.map_eq_some_iff.mp h
      have := ih hm
      rw [List.length_cons]
      omega

/-- The first occurrence of a text within a start is the same in the whole. -/
theorem indexOf?_append_iff {needle w s : Text} {k : Nat} (hne : needle ≠ [])
    (hk : k + needle.length ≤ w.length) :
    Text.indexOf? needle (w ++ s) = some k ↔ Text.indexOf? needle w = some k := by
  have hpos := List.length_pos_iff.mpr hne
  induction w generalizing k with
  | nil =>
    rw [List.length_nil] at hk
    omega
  | cons b w ih =>
    rw [List.length_cons] at hk
    have hle : needle.length ≤ (b :: w).length := by
      rw [List.length_cons]
      omega
    -- Whether the needle stands here is decided by bytes of the start.
    rw [List.cons_append, Text.indexOf?, Text.indexOf?, ← List.cons_append, isPrefixOf_append hle]
    split
    · rfl
    · cases k with
      | zero => simp
      | succ k => simp [ih (by omega : k + needle.length ≤ w.length)]

/-- What closes a raw string literal: the quote and as many hashes as opened it. -/
def rawClosing (hashes : Nat) : Text := Byte.quote :: List.replicate hashes Byte.hash

/-- The length of the opening of a raw string literal. -/
theorem length_rawOpening (mark : Text) (hashes : Nat) :
    (rawOpening mark hashes).length = mark.length + 2 + hashes := by
  simp only [rawOpening, List.length_append, List.length_cons, List.length_replicate,
    List.length_nil]
  omega

/-- The length of the closing of a raw string literal. -/
theorem length_rawClosing (hashes : Nat) : (rawClosing hashes).length = hashes + 1 := by
  simp [rawClosing]

/-- A raw string literal is its opening, a body, and the first closing after it. -/
theorem rawStringSize?_eq_some_iff {t : Text} {n : Nat} :
    rawStringSize? t = some n ↔
      ∃ mark hashes rest k, IsMark mark ∧ t = rawOpening mark hashes ++ rest ∧
        Text.indexOf? (rawClosing hashes) rest = some k ∧
        n = (rawOpening mark hashes).length + k + (rawClosing hashes).length := by
  unfold rawStringSize?
  constructor
  · intro h
    simp only [Option.bind_eq_bind, Option.bind_eq_some_iff, Option.some.injEq] at h
    obtain ⟨⟨m, hashes⟩, hopen, k, hk, rfl⟩ := h
    obtain ⟨mark, hmark, ⟨rest, rfl⟩, rfl⟩ := rawStringOpening?_eq_some_iff.mp hopen
    refine ⟨mark, hashes, rest, k, hmark, rfl, ?_, ?_⟩
    · rw [← length_rawOpening, List.drop_left] at hk
      exact hk
    · rw [length_rawOpening, length_rawClosing]
      simp
  · rintro ⟨mark, hashes, rest, k, hmark, rfl, hk, rfl⟩
    have hopen := rawStringOpening?_eq_some_iff.mpr
      ⟨mark, hmark, List.prefix_append (rawOpening mark hashes) rest, rfl⟩
    simp only [Option.bind_eq_bind, Option.bind_eq_some_iff, Option.some.injEq]
    refine ⟨_, hopen, k, ?_, ?_⟩
    · rw [← length_rawOpening, List.drop_left]
      exact hk
    · rw [length_rawOpening, length_rawClosing]
      simp

/-- Raw string literals end with their closing delimiter. -/
theorem delimited_rawStringSize? : Delimited rawStringSize? where
  pos {t n} h := by
    obtain ⟨mark, hashes, rest, k, -, -, -, rfl⟩ := rawStringSize?_eq_some_iff.mp h
    rw [length_rawClosing]
    omega
  le_length {t n} h := by
    obtain ⟨mark, hashes, rest, k, -, rfl, hk, rfl⟩ := rawStringSize?_eq_some_iff.mp h
    have := indexOf?_add_length_le hk
    rw [List.length_append]
    omega
  of_append {w s n} h hn := by
    obtain ⟨mark, hashes, rest, k, hmark, heq, hk, rfl⟩ := rawStringSize?_eq_some_iff.mp h
    obtain ⟨rest', rfl, rfl⟩ := exists_of_append_eq heq (by omega)
    rw [List.length_append] at hn
    -- The first closing lies in the start, so that it is the first one there too.
    exact rawStringSize?_eq_some_iff.mpr ⟨mark, hashes, rest', k, hmark, rfl,
      (indexOf?_append_iff (by simp [rawClosing]) (by omega)).mp hk, rfl⟩
  append {w n} s h := by
    obtain ⟨mark, hashes, rest, k, hmark, rfl, hk, rfl⟩ := rawStringSize?_eq_some_iff.mp h
    have hle := indexOf?_add_length_le hk
    exact rawStringSize?_eq_some_iff.mpr ⟨mark, hashes, rest ++ s, k, hmark, by simp,
      (indexOf?_append_iff (by simp [rawClosing]) hle).mpr hk, rfl⟩

end CallConv.Rule
