import Mathlib
import CallConv.Proofs.Token.Newline

/-!
# Texts without a piece of white space

What becomes of the tokens of a text when the white space between two of them is taken out. The
tokens before it are cut off as they were if the last of them is joined to what follows
(`LexedBefore.remove`); the only rule that could notice the difference is that of character
literals. Between an angle that closes and an equals sign two things can happen. Where other trivia
stands there as well, both tokens are kept (`Lexed.remove_of_gap`). Where none does, the two become
one operator, which takes in an angle in front of them too (`Lexed.fuse`).
-/

namespace CallConv

namespace Rule

variable {z w s : Text} {a c : UInt8} {n : Nat}

/-- Blanks can be put into the body of a character literal that goes on behind them. -/
theorem CharacterBody.insert {after : Text} (h : CharacterBody (z ++ after)) (hafter : after ≠ [])
    (hends : [a] <:+ z) (hascii : a < 0x80) (ha : a ≠ Byte.backslash)
    (hw : ∀ b ∈ w, isBlank b = true) : CharacterBody (z ++ (w ++ after)) := by
  generalize htext : z ++ after = body at h
  rcases z with _ | ⟨b, z⟩
  · simp at hends
  cases h with
  | @rune b' more hescape hquote hnewline hmore =>
    exfalso
    obtain ⟨rfl, hrest⟩ := List.cons.inj htext
    obtain rfl : z ++ after = more := hrest
    rcases List.suffix_cons_iff.mp hends with heq | hsuffix
    · -- The body would be one ASCII character, with nothing behind it.
      obtain ⟨rfl, rfl⟩ := List.cons.inj heq
      rw [Rune.read_of_lt _ hascii] at hmore
      exact hafter (List.eq_nil_of_length_eq_zero hmore.symm)
    · have hmem : a ∈ z ++ after :=
        List.mem_append_left after (hsuffix.subset (List.mem_singleton_self a))
      have hge := (Rune.extra_read_le b (z ++ after)).2 a (by rwa [hmore, List.take_length])
      exact absurd hascii (UInt8.not_lt.mpr hge)
  | @escape c' more hc hbody =>
    obtain ⟨rfl, hrest⟩ := List.cons.inj htext
    rcases List.suffix_cons_iff.mp hends with heq | hsuffix
    · exact absurd (List.cons.inj heq).1 ha
    · obtain ⟨b, z, rfl⟩ := List.exists_cons_of_ne_nil (hsuffix.ne_nil (List.cons_ne_nil a []))
      obtain ⟨rfl, hmore⟩ := List.cons.inj hrest
      obtain rfl : z ++ after = more := hmore
      refine CharacterBody.escape hc fun b hb => ?_
      have hblank : ∀ b, isBlank b = true → isEscapePart b = true := by
        intro b hb
        by_contra hpart
        simp only [isEscapePart, Bool.and_eq_true, bne_iff_ne, not_and_or, not_not] at hpart
        rcases hpart with rfl | rfl <;> exact absurd hb (by decide)
      have hb : b ∈ z ++ (w ++ after) := hb
      rcases List.mem_append.mp hb with hb | hb
      · exact hbody b (List.mem_append_left after hb)
      · rcases List.mem_append.mp hb with hb | hb
        · exact hblank b (hw b hb)
        · exact hbody b (List.mem_append_right z hb)

/-- Blanks can be put into a character literal that goes on behind them. -/
theorem characterSize?_insert (hends : [a] <:+ z) (hascii : a < 0x80)
    (ha : a ≠ Byte.backslash ∧ a ≠ Byte.apostrophe ∧ a ≠ 0x62) (hc : c ≠ Byte.apostrophe)
    (hw : ∀ b ∈ w, isBlank b = true) (hn : characterSize? (z ++ c :: s) = some n)
    (hlt : z.length < n) : characterSize? (z ++ (w ++ c :: s)) = some (n + w.length) := by
  rw [characterSize?_eq_markedSize?] at hn ⊢
  obtain ⟨mark, rest, k, hmark, heq, hk, rfl⟩ := (markedSize?_eq_some_iff (by decide)).mp hn
  obtain ⟨body, rest, hbody, rfl, rfl⟩ := characterEnd?_eq_some_iff.mp hk
  -- The text up to the blanks ends inside of the body of the literal.
  have hpre : z <+: mark ++ Byte.apostrophe :: body := by
    have hwhole : mark ++ Byte.apostrophe :: body <+: z ++ c :: s :=
      ⟨Byte.apostrophe :: rest, by rw [heq]; simp⟩
    refine List.prefix_of_prefix_length_le (List.prefix_append z _) hwhole ?_
    simp only [List.length_append, List.length_cons]
    omega
  obtain ⟨z, rfl, hlast⟩ : ∃ z', z = mark ++ Byte.apostrophe :: z' ∧ [a] <:+ z' := by
    have hcons : ∀ {b : UInt8} {z t : Text}, [a] <:+ z → a ≠ b → z <+: b :: t →
        ∃ z', z = b :: z' ∧ [a] <:+ z' ∧ z' <+: t := by
      intro b z t hz hne hzt
      rcases z with _ | ⟨b', z⟩
      · simp at hz
      · obtain ⟨rfl, htail⟩ := List.cons_prefix_cons.mp hzt
        rcases List.suffix_cons_iff.mp hz with heq | hz
        · exact absurd (List.cons.inj heq).1 hne
        · exact ⟨z, rfl, hz, htail⟩
    rcases hmark with rfl | rfl
    · obtain ⟨z', rfl, hz', -⟩ := hcons hends ha.2.1 hpre
      exact ⟨z', rfl, hz'⟩
    · obtain ⟨z', rfl, hz', hpre'⟩ := hcons hends ha.2.2 hpre
      obtain ⟨z'', rfl, hz'', -⟩ := hcons hz' ha.2.1 hpre'
      exact ⟨z'', rfl, hz''⟩
  obtain ⟨after, rfl⟩ : z <+: body := by simpa using hpre
  obtain heq : c :: s = after ++ Byte.apostrophe :: rest := by simpa using heq
  have hafter : after ≠ [] := by
    rintro rfl
    exact hc (List.cons.inj heq).1
  refine (markedSize?_eq_some_iff (by decide)).mpr
    ⟨mark, z ++ (w ++ c :: s), _, hmark, by simp, characterEnd?_eq_some_iff.mpr
      ⟨z ++ (w ++ after), rest, hbody.insert hafter hlast hascii ha.1 hw, by simp [heq], rfl⟩, ?_⟩
  simp only [List.length_append]
  omega

end Rule

/-! ## Lexemes before a seam -/

/-- A stray apostrophe at the start of calm lexemes stands before no backslash. -/
theorem Calm.head?_ne {l : Lexeme} {ls : List Lexeme} {t : Text} (h : Calm (l :: ls))
    (hl : l = Lexeme.stray) (hne : ∀ l ∈ ls, l.content ≠ []) (ht : t.head? ≠ some Byte.backslash) :
    (Lexeme.join ls ++ t).head? ≠ some Byte.backslash := by
  cases ls with
  | nil => exact ht
  | cons l' ls =>
    rw [Lexeme.join_cons, List.append_assoc,
      List.head?_append_of_ne_nil _ (hne l' List.mem_cons_self)]
    intro hhead
    exact (List.isChain_cons_cons.mp h).1 ⟨hl, hhead⟩

/-- No lexeme that is cut off a text is empty. -/
theorem LexedBefore.content_ne_nil {t : Text} {ls : List Lexeme} (h : LexedBefore t ls) :
    ∀ l ∈ ls, l.content ≠ [] := by
  induction ls with
  | nil => simp
  | cons l ls ih => exact List.forall_mem_cons.mpr ⟨h.1.ne_nil, ih h.2⟩

/-- Lexemes that are cut off the text of other lexemes go before these. -/
theorem LexedBefore.append {ls ls' : List Lexeme} (h : LexedBefore (Lexeme.join ls') ls)
    (h' : Lexed ls') : Lexed (ls ++ ls') := by
  induction ls with
  | nil => exact h'
  | cons l ls ih =>
    refine ⟨?_, ih h.2⟩
    show Begins l.kind l.content (Lexeme.join (ls ++ ls'))
    rw [Lexeme.join_append]
    exact h.1

/-- The first lexemes of a text are cut off it before the others. -/
theorem Lexed.before {ls ls' : List Lexeme} (h : Lexed (ls ++ ls')) :
    LexedBefore (Lexeme.join ls') ls := by
  induction ls with
  | nil => trivial
  | cons l ls ih =>
    obtain ⟨hbegins, htail⟩ : Begins l.kind l.content (Lexeme.join (ls ++ ls')) ∧
        Lexed (ls ++ ls') := h
    rw [Lexeme.join_append] at hbegins
    exact ⟨hbegins, ih htail⟩

/-- The last token of a text and what is left of the text up to `c` make a seam with `c`, at which
no literal begins or ends. -/
def Joined (y : Text) (c : UInt8) : Prop :=
  ∃ a, Seam y a c ∧ a ≠ Byte.backslash ∧ a ≠ Byte.apostrophe ∧ a ≠ 0x62

/-- Lexemes are cut off a text without the white space behind a seam as they are with it. Only a
character literal could go on over the seam, and it could have gone on over blanks already; behind a
line break that is taken out it has to be excluded. -/
theorem LexedBefore.remove {ls : List Lexeme} {u w s : Text} {c : UInt8}
    (h : LexedBefore (u ++ (w ++ c :: s)) ls)
    (hseam : ∀ us y, ls = us ++ [y] → Joined (y.content ++ u) c) (hc : c ≠ Byte.apostrophe)
    (hu : u.head? ≠ some Byte.backslash)
    (hcharacter : u ≠ [] → ∀ n, Rule.characterSize? (u ++ c :: s) = some n → n ≤ u.length)
    (hw : (∀ b ∈ w, Rule.isBlank b = true) ∨ Calm ls) : LexedBefore (u ++ c :: s) ls := by
  have hrule : ⟨.character, Rule.characterSize?⟩ ∈ Rule.all := by simp [Rule.all]
  induction ls with
  | nil => trivial
  | cons l ls ih =>
    obtain ⟨hbegins, htail⟩ := h
    have htail' : LexedBefore (u ++ c :: s) ls :=
      ih htail (fun us y hy => hseam (l :: us) y (by rw [hy, List.cons_append]))
        (hw.imp_right fun hcalm => hcalm.part (List.suffix_cons l ls).isInfix)
    refine ⟨?_, htail'⟩
    -- The seam is at the end of the lexemes, and so at the end of what follows each of them.
    obtain ⟨y, hlast, a, hsm, ha⟩ : ∃ y, (y = l.content ++ (Lexeme.join ls ++ u) ∨
        y <:+ Lexeme.join ls ++ u) ∧ Joined y c := by
      rcases List.eq_nil_or_concat ls with rfl | ⟨us, y, rfl⟩
      · exact ⟨l.content ++ u, .inl rfl, hseam [] l rfl⟩
      · refine ⟨y.content ++ u, .inr ?_, hseam (l :: us) y (by simp)⟩
        rw [List.concat_eq_append, Lexeme.join_append, Lexeme.join_cons, Lexeme.join_nil,
          List.append_nil, List.append_assoc]
        exact List.suffix_append _ _
    have hz := Seam.suffix_append hlast
    have hb : Begins l.kind l.content (Lexeme.join ls ++ u) := by
      rw [← List.append_assoc] at hbegins
      exact hbegins.of_append
    have hliteral : ∀ n, Rule.characterSize? (l.content ++ (Lexeme.join ls ++ u) ++ c :: s) =
        some n → n ≤ (l.content ++ (Lexeme.join ls ++ u)).length := by
      intro n hn
      rcases hw with hblank | hcalm
      · by_contra hlt
        have hlonger := Rule.characterSize?_insert (hsm.ends.trans hz) hsm.ascii ha hc hblank hn
          (not_le.mp hlt)
        have hle := hbegins.size?_le hrule (by simpa using hlonger)
        simp only [List.length_append] at hlt
        omega
      · refine hsm.characterSize?_le hb hlast (fun hne n hn => ?_) (fun hkind hx => ?_) hn
        · cases ls with
          | nil => exact hcharacter hne n hn
          | cons l' ls =>
            have hle := htail'.1.size?_le hrule (by simpa using hn)
            simp only [Lexeme.join_cons, List.length_append]
            omega
        · have hl : l = Lexeme.stray := by rw [Lexeme.stray, ← hkind, ← hx]
          exact ⟨hcalm.head?_ne hl htail.content_ne_nil hu, fun heq => absurd heq hc⟩
    rw [← List.append_assoc]
    exact (begins_append_iff (fun rule hrule n hn => hsm.size?_le hb hlast hliteral hrule hn)
      (fun _ => hsm.firstWidth_le hz) (hsm.unterminated?_eq_none hz)).mpr hb

/-! ## Trivia and angles before a seam -/

/-- The bytes that trivia begins with. -/
def triviaBytes : Text :=
  [Byte.tab, Byte.verticalTab, Byte.formFeed, Byte.carriageReturn, Byte.space, Byte.newline,
    Byte.slash]

namespace Begins

open Rule

variable {kind : TokenKind} {x r : Text} {c : UInt8}

/-- A blank is one of the bytes that trivia begins with. -/
theorem mem_triviaBytes_of_isBlank (hc : isBlank c = true) : c ∈ triviaBytes := by
  have hmem : c = Byte.tab ∨ c = Byte.verticalTab ∨ c = Byte.formFeed ∨ c = Byte.carriageReturn ∨
      c = Byte.space := by
    simpa [isBlank, or_assoc] using hc
  rcases hmem with rfl | rfl | rfl | rfl | rfl <;> decide

/-- Trivia begins with one of its bytes. -/
theorem mem_triviaBytes (h : Begins kind (c :: x) r) (hkind : kind.isTrivia = true) :
    c ∈ triviaBytes := by
  cases kind
  case newline =>
    have heq := h.eq_utf8 (by simp [all] : exactly .newline "\n" ∈ all)
    obtain ⟨rfl, -⟩ := List.cons.inj heq
    decide
  case whitespace =>
    exact mem_triviaBytes_of_isBlank (Seam.isBlank_of_mem h c List.mem_cons_self)
  case lineComment =>
    have hsize : lineCommentSize? (c :: x) = some (c :: x).length := h.size?_self (by simp [all])
    unfold lineCommentSize? at hsize
    split at hsize
    · next hpre =>
      obtain ⟨rfl, -⟩ := List.cons_prefix_cons.mp (List.isPrefixOf_iff_prefix.mp hpre)
      decide
    · simp at hsize
  case blockComment =>
    obtain ⟨rfl, -⟩ := List.cons_prefix_cons.mp h.blockComment_ends.1
    decide
  all_goals exact absurd hkind (by decide)

/-- White space goes on as long as there are blanks. -/
theorem isBlank_eq_false (h : Begins .whitespace x (c :: r)) : isBlank c = false := by
  have hall : ∀ b ∈ x, isBlank b = true := Seam.isBlank_of_mem h
  have hsize : whitespaceSize? (x ++ c :: r) = some x.length := h.size?_eq (by simp [all] :
    ⟨.whitespace, whitespaceSize?⟩ ∈ all) rfl
  by_contra hc
  rw [Bool.not_eq_false] at hc
  have hlen : ((x ++ c :: r).takeWhile isBlank).length = x.length := by
    unfold whitespaceSize? at hsize
    split at hsize
    · simp at hsize
    · next n hn => exact hn.trans (Option.some.inj hsize)
  rw [List.takeWhile_append_of_pos hall, List.takeWhile_cons_of_pos hc, List.length_append,
    List.length_cons] at hlen
  omega

/-- More blanks in front belong to white space. -/
theorem append_whitespace {y : Text} (hy : ∀ b ∈ y, isBlank b = true)
    (h : Begins .whitespace x r) : Begins .whitespace (y ++ x) r := by
  have hall : ∀ b ∈ y ++ x, isBlank b = true := by
    intro b hb
    exact (List.mem_append.mp hb).elim (hy b) (Seam.isBlank_of_mem h b)
  have hne : y ++ x ≠ [] := List.append_ne_nil_of_right_ne_nil y h.ne_nil
  have hrule : ⟨.whitespace, whitespaceSize?⟩ ∈ all := by simp [all]
  have hwhole : whitespaceSize? (y ++ x ++ r) = some (y ++ x).length := by
    have hrun : ((y ++ x ++ r).takeWhile isBlank).length = (y ++ x).length := by
      rw [List.takeWhile_append_of_pos hall, List.length_append, Nat.add_eq_left,
        List.length_eq_zero_iff]
      cases r with
      | nil => rfl
      | cons c r => exact List.takeWhile_cons_of_neg (by simp [h.isBlank_eq_false])
    obtain ⟨k, hk⟩ := Nat.exists_eq_succ_of_ne_zero (List.length_pos_iff.mpr hne).ne'
    rw [whitespaceSize?, hrun, hk]
  obtain ⟨b, t, hcons⟩ := List.exists_cons_of_ne_nil hne
  have hb : isBlank b = true := hall b (by rw [hcons]; exact List.mem_cons_self)
  have hpos := List.length_pos_iff.mpr hne
  -- At a blank no other rule finds anything.
  have hlongest : longest (y ++ x ++ r) = (.whitespace, (y ++ x).length) := by
    have hle := le_longest hrule hwhole
    rcases longest_cases (y ++ x ++ r) with hnone | ⟨rule, hmem, hkind, hsize⟩
    · rw [hnone] at hle
      omega
    · have hwhite : rule.kind = .whitespace := by
        refine (size?_at_blank hmem hb (t ++ r)).resolve_right fun hnone => ?_
        rw [hcons, List.cons_append, hnone] at hsize
        simp at hsize
      obtain rfl := eq_of_kind_eq hmem hrule hwhite
      exact Prod.ext hkind.symm (Option.some.inj (hsize.symm.trans hwhole))
  refine begins_iff.mpr ⟨hne, by rw [hlongest], ?_, by rw [hlongest, if_neg hpos.ne']⟩
  have hmem : b = Byte.tab ∨ b = Byte.verticalTab ∨ b = Byte.formFeed ∨ b = Byte.carriageReturn ∨
      b = Byte.space := by
    simpa [isBlank, or_assoc] using hb
  rw [hcons]
  rcases hmem with rfl | rfl | rfl | rfl | rfl <;> rfl

end Begins

namespace Joined

open Rule

variable {kind : TokenKind} {y r : Text} {c : UInt8}

/-- Trivia that is no line comment is joined to every byte that does not go on with it. -/
theorem of_trivia (h : Begins kind y r) (hkind : kind.isTrivia = true)
    (hcomment : kind ≠ .lineComment) (hblank : kind = .whitespace → isBlank c = false) :
    Joined y c := by
  cases kind
  case newline =>
    have heq := h.eq_utf8 (by simp [all] : exactly .newline "\n" ∈ all)
    obtain ⟨a, hseam⟩ := Seam.of_closed h rfl
    have ha : a ∈ utf8 "\n" := heq ▸ (hseam c).last_mem
    rw [show utf8 "\n" = [Byte.newline] by decide] at ha
    obtain rfl := List.mem_singleton.mp ha
    exact ⟨_, hseam c, by decide, by decide, by decide⟩
  case whitespace =>
    obtain ⟨a, hseam⟩ := Seam.of_whitespace h (hblank rfl)
    have ha := Seam.isBlank_of_mem h a hseam.last_mem
    refine ⟨a, hseam, ?_, ?_, ?_⟩ <;> rintro rfl <;> exact absurd ha (by decide)
  case blockComment => exact ⟨_, Seam.of_blockComment h, by decide, by decide, by decide⟩
  case lineComment => exact absurd rfl hcomment
  all_goals exact absurd hkind (by decide)

/-- An angle is joined to trivia. -/
theorem of_greater (h : Begins .greater y r) (hc : c ∈ triviaBytes) : Joined y c := by
  rw [h.eq_utf8 (by simp [all] : exactly .greater ">" ∈ all)]
  have hseams : ∀ c ∈ triviaBytes, Seam (utf8 ">") 0x3E c := by
    intro c hc
    simp only [triviaBytes, List.mem_cons, List.not_mem_nil, or_false] at hc
    rcases hc with rfl | rfl | rfl | rfl | rfl | rfl | rfl <;> constructor <;> decide +kernel
  exact ⟨0x3E, hseams c hc, by decide, by decide, by decide⟩

end Joined

/-! ## White space that is taken out -/

/-- White space that can be taken out behind some lexemes: blanks, or a line break that ends no line
comment. A line break has to stay as well where a stray apostrophe before a backslash could become
a character literal without it. -/
def Lexeme.IsFree (w : Lexeme) (ls : List Lexeme) : Prop :=
  w.kind = .whitespace ∨
    w.kind = .newline ∧ Calm ls ∧ ∀ l ∈ ls.getLast?, l.kind ≠ .lineComment

namespace Lexed

variable {ls gap gap' rest : List Lexeme} {g w l e y : Lexeme} {c : UInt8} {x : Text}

/-- Lexemes before white space are cut off without it, if they are joined to what follows. -/
theorem remove (h : Lexed (ls ++ w :: l :: rest)) (hw : w.IsFree ls)
    (hl : l.content = c :: x) (hc : c ≠ Byte.apostrophe)
    (hseam : ∀ us y, ls = us ++ [y] → Joined y.content c) : Lexed (ls ++ l :: rest) := by
  have hbefore : LexedBefore ([] ++ (w.content ++ c :: (x ++ Lexeme.join rest))) ls := by
    have := h.before
    rwa [Lexeme.join_cons, Lexeme.join_cons, hl] at this
  refine LexedBefore.append ?_ h.right.2
  rw [Lexeme.join_cons, hl]
  refine hbefore.remove (fun us y hy => ?_) hc (by simp) (fun hne => absurd rfl hne) ?_
  · rw [List.append_nil]
    exact hseam us y hy
  · rcases hw with hblank | ⟨-, hcalm, -⟩
    · have hbegins := h.begins
      rw [hblank] at hbegins
      exact .inl (Seam.isBlank_of_mem hbegins)
    · exact .inr hcalm

/-- An angle and trivia behind it are joined to a byte that does not belong to them. -/
theorem joined_last (h : Lexed (ls ++ g :: gap)) (hg : g.kind = .greater)
    (hgap : ∀ l ∈ gap, l.isTrivia = true) (hc : gap = [] → c ∈ triviaBytes)
    (hlast : ∀ l ∈ gap.getLast?,
      l.kind ≠ .lineComment ∧ (l.kind = .whitespace → Rule.isBlank c = false)) :
    ∀ us y, ls ++ g :: gap = us ++ [y] → Joined y.content c := by
  intro us y hy
  rcases List.eq_nil_or_concat gap with rfl | ⟨gap, z, rfl⟩
  · obtain rfl : g = y := by simpa using (List.append_inj' hy rfl).2
    have hbegins := h.begins
    rw [hg] at hbegins
    exact .of_greater hbegins (hc rfl)
  · rw [List.concat_eq_append] at h hgap hlast hy
    rw [← List.cons_append, ← List.append_assoc] at h hy
    obtain rfl : z = y := by simpa using (List.append_inj' hy rfl).2
    obtain ⟨hcomment, hblank⟩ := hlast z (by simp)
    exact .of_trivia h.begins (hgap z (by simp)) hcomment hblank

/-- Behind a line comment and behind white space no blank begins another token. -/
theorem kind_of_isBlank {t : Text} (h : Begins y.kind y.content (c :: t))
    (hc : Rule.isBlank c = true) : y.kind ≠ .lineComment ∧ y.kind ≠ .whitespace := by
  constructor
  · intro hkind
    rw [hkind] at h
    rw [h.newline_of_lineComment] at hc
    exact absurd hc (by decide)
  · intro hkind
    rw [hkind] at h
    simp [h.isBlank_eq_false] at hc

/-- Before a token of white space stands neither a line comment nor another one. -/
theorem kind_before_whitespace (h : Lexed (ls ++ y :: w :: rest)) (hw : w.kind = .whitespace) :
    y.kind ≠ .lineComment ∧ y.kind ≠ .whitespace := by
  have hwbegins := h.right.2.1
  rw [hw] at hwbegins
  obtain ⟨b, z, hcontent⟩ := List.exists_cons_of_ne_nil hwbegins.ne_nil
  have hybegins := h.begins
  rw [Lexeme.join_cons, hcontent] at hybegins
  exact kind_of_isBlank hybegins (Seam.isBlank_of_mem hwbegins b (by simp [hcontent]))

/-- What stands before white space that can be taken out is no line comment. -/
theorem ne_lineComment_of_isFree (h : Lexed (ls ++ y :: w :: rest)) (hw : w.IsFree (ls ++ [y])) :
    y.kind ≠ .lineComment := by
  rcases hw with hwhite | ⟨-, -, hlast⟩
  · exact (h.kind_before_whitespace hwhite).1
  · exact hlast y (by simp)

/-- Blanks on both sides of white space that is taken out become one token. -/
theorem merge (h : Lexed (ls ++ g :: (gap ++ y :: w :: l :: rest))) (hg : g.kind = .greater)
    (hgap : ∀ l ∈ gap, l.isTrivia = true) (hy : y.kind = .whitespace) (hl : l.kind = .whitespace)
    (hw : w.IsFree (ls ++ g :: (gap ++ [y]))) :
    Lexed (ls ++ g :: (gap ++ ⟨.whitespace, y.content ++ l.content⟩ :: rest)) := by
  have hwhole : Lexed ((ls ++ g :: gap) ++ y :: w :: l :: rest) := by simpa using h
  have hcalm : Calm (ls ++ g :: gap) := by
    rcases hw with hwhite | ⟨-, hcalm, -⟩
    · exact absurd hy (hwhole.kind_before_whitespace hwhite).2
    · exact hcalm.part ⟨[], [y], by simp⟩
  have hybegins := hwhole.begins
  have hlbegins := hwhole.right.2.2.1
  rw [hy] at hybegins
  rw [hl] at hlbegins
  obtain ⟨b, z, hcontent⟩ := List.exists_cons_of_ne_nil hybegins.ne_nil
  have hb : Rule.isBlank b = true := Seam.isBlank_of_mem hybegins b (by simp [hcontent])
  have hmerged : Lexed (⟨.whitespace, y.content ++ l.content⟩ :: rest) :=
    ⟨Begins.append_whitespace (Seam.isBlank_of_mem hybegins) hlbegins, hwhole.right.2.2.2⟩
  have hjoined : ∀ vs v, ls ++ g :: gap = vs ++ [v] → Joined v.content b := by
    refine joined_last hwhole.left hg hgap
      (fun _ => Begins.mem_triviaBytes_of_isBlank hb) fun v hv => ?_
    obtain ⟨vs, rfl⟩ := List.getLast?_eq_some_iff.mp hv
    have hvs : Lexed ((ls ++ g :: vs) ++ v :: y :: w :: l :: rest) := by simpa using h
    have hne := hvs.kind_before_whitespace hy
    exact ⟨hne.1, fun hwhite => absurd hwhite hne.2⟩
  have hquote : b ≠ Byte.apostrophe := by
    rintro rfl
    exact absurd hb (by decide)
  obtain ⟨vs, v, hvs⟩ : ∃ vs v, ls ++ g :: gap = vs ++ [v] :=
    (List.eq_nil_or_concat' (ls ++ g :: gap)).resolve_left (by simp)
  obtain ⟨a, hseam, -⟩ := hjoined vs v hvs
  have hbefore := hwhole.left
  rw [hvs] at hbefore hcalm
  have hsealed : Sealed (Lexeme.stray ∈ vs) v.content
      (Lexeme.join (⟨.whitespace, y.content ++ l.content⟩ :: rest)) := by
    rw [Lexeme.join_cons, hcontent]
    exact .of_seam hseam hquote
  have happend := hbefore.append hmerged hcalm hsealed
  rw [← hvs] at happend
  simpa using happend

/-- White space behind an angle and trivia can be taken out when no blanks meet over it. -/
theorem remove_apart (h : Lexed (ls ++ g :: gap ++ w :: l :: rest)) (hg : g.kind = .greater)
    (hgap : ∀ l ∈ gap, l.isTrivia = true) (hw : w.IsFree (ls ++ g :: gap))
    (hl : l.content = c :: x) (hquote : c ≠ Byte.apostrophe) (hc : gap = [] → c ∈ triviaBytes)
    (hapart : ∀ y ∈ gap.getLast?, y.kind = .whitespace → Rule.isBlank c = false) :
    Lexed (ls ++ g :: gap ++ l :: rest) := by
  refine h.remove hw hl hquote
    (joined_last h.left hg hgap hc fun y hy => ⟨?_, hapart y hy⟩)
  obtain ⟨gap₀, rfl⟩ := List.getLast?_eq_some_iff.mp hy
  have hlast : Lexed ((ls ++ g :: gap₀) ++ y :: w :: l :: rest) := by simpa using h
  exact hlast.ne_lineComment_of_isFree (by simpa using hw)

/-- White space between an angle and an equals sign can be taken out if other trivia stands there.
What is left of the trivia may be cut anew. -/
theorem remove_of_gap (h : Lexed (ls ++ g :: (gap ++ w :: (gap' ++ e :: rest))))
    (hg : g.kind = .greater) (he : e.kind = .equal) (hgap : ∀ l ∈ gap, l.isTrivia = true)
    (hgap' : ∀ l ∈ gap', l.isTrivia = true) (hw : w.IsFree (ls ++ g :: gap))
    (hne : gap ++ gap' ≠ []) :
    ∃ trivia : List Lexeme, (∀ l ∈ trivia, l.isTrivia = true) ∧
      Lexeme.join trivia = Lexeme.join gap ++ Lexeme.join gap' ∧
      Lexed (ls ++ g :: (trivia ++ e :: rest)) := by
  rcases gap' with _ | ⟨l, gap'⟩
  · have hwhole : Lexed (ls ++ g :: gap ++ w :: e :: rest) := by simpa using h
    have hequals : e.content = Byte.equals :: [] :=
      h.content_of_word (by simp) he (by simp [Rule.all] : Rule.exactly .equal "=" ∈ Rule.all)
    -- The equals sign is no blank, and some trivia is left between it and the angle.
    have hremoved := hwhole.remove_apart hg hgap hw hequals (by decide)
      (fun hnil => absurd (by rw [hnil]; rfl) hne) fun _ _ _ => by decide
    exact ⟨gap, hgap, by simp, by simpa using hremoved⟩
  · have hwhole : Lexed (ls ++ g :: gap ++ w :: l :: (gap' ++ e :: rest)) := by simpa using h
    have hlbegins := hwhole.right.2.1
    by_cases hmerge : ∃ gap₀ y, gap = gap₀ ++ [y] ∧ y.kind = .whitespace ∧ l.kind = .whitespace
    · obtain ⟨gap₀, y, rfl, hy, hl⟩ := hmerge
      rw [List.forall_mem_append] at hgap
      rw [List.forall_mem_cons] at hgap'
      refine ⟨gap₀ ++ ⟨.whitespace, y.content ++ l.content⟩ :: gap', ?_, by simp, ?_⟩
      · rw [List.forall_mem_append, List.forall_mem_cons]
        exact ⟨hgap.1, rfl, hgap'.2⟩
      · have hmerged := merge (by simpa using h) hg hgap.1 hy hl hw
        simpa using hmerged
    · obtain ⟨c, x, hcontent⟩ := List.exists_cons_of_ne_nil hlbegins.ne_nil
      rw [hcontent] at hlbegins
      have hc : c ∈ triviaBytes := hlbegins.mem_triviaBytes (hgap' l List.mem_cons_self)
      have hquote : c ≠ Byte.apostrophe := by
        rintro rfl
        exact absurd hc (by decide)
      have hremoved := hwhole.remove_apart hg hgap hw hcontent hquote (fun _ => hc)
        fun y hy hwhite => ?_
      · exact ⟨gap ++ l :: gap', List.forall_mem_append.mpr ⟨hgap, hgap'⟩,
          Lexeme.join_append _ _, by simpa using hremoved⟩
      · obtain ⟨gap₀, rfl⟩ := List.getLast?_eq_some_iff.mp hy
        exact hlbegins.not_isBlank fun hl => hmerge ⟨gap₀, y, rfl, hwhite, hl⟩

end Lexed

/-! ## Angles that become part of an operator -/

namespace Begins

open Rule

variable {kind : TokenKind} {x r : Text} {b : UInt8}

/-- At two slashes only a line comment goes on behind the first one. -/
theorem size?_at_slashes {rule : Rule} (hrule : rule ∈ all) (t : Text) :
    rule.kind = .lineComment ∨ rule.size? (Byte.slash :: Byte.slash :: t) = none ∨
      rule.size? (Byte.slash :: Byte.slash :: t) = some 1 := by
  simp only [all, List.mem_cons, List.not_mem_nil, or_false] at hrule
  rcases hrule with rfl | rfl | rfl | rfl | rfl | rfl | rfl | rfl | rfl | rfl | rfl | rfl | rfl |
    rfl | rfl | rfl | rfl | rfl | rfl | rfl | rfl | rfl | rfl | rfl | rfl | rfl | rfl | rfl | rfl |
    rfl
  all_goals first
    | exact .inl rfl
    | exact .inr (.inl rfl)
    | exact .inr (.inr rfl)

/-- A token that begins with two slashes is a line comment. -/
theorem kind_of_slashes (h : Begins kind x r) (hpre : utf8 "//" <+: x) : kind = .lineComment := by
  obtain ⟨t, rfl⟩ := hpre
  have hslashes : utf8 "//" ++ t ++ r = Byte.slash :: Byte.slash :: (t ++ r) := rfl
  have hcomment : ∃ n, lineCommentSize? (Byte.slash :: Byte.slash :: (t ++ r)) = some n :=
    ⟨_, rfl⟩
  rcases h.exists_rule with ⟨-, hnone, -⟩ | ⟨rule, hrule, rfl, hsize⟩
  · obtain ⟨n, hn⟩ := hcomment
    have hnone : lineCommentSize? (Byte.slash :: Byte.slash :: (t ++ r)) = none :=
      hnone _ (by simp [all] : ⟨.lineComment, lineCommentSize?⟩ ∈ all)
    rw [hn] at hnone
    simp at hnone
  · rw [hslashes] at hsize
    rcases size?_at_slashes hrule (t ++ r) with hkind | hnone | hone
    · exact hkind
    · rw [hnone] at hsize
      simp at hsize
    · rw [hone] at hsize
      have hlen := Option.some.inj hsize
      simp [show utf8 "//" = [Byte.slash, Byte.slash] by decide] at hlen

/-- An angle before another one and white space is a token that closes angles. -/
theorem kind_of_greater {t : Text} (h : Begins kind (utf8 ">") (0x3E :: b :: t))
    (hb : b ∈ triviaBytes) : kind = .greater := by
  have hscan : scan 0x3E (0x3E :: b :: t) = .ok (.greater, 1) := by
    simp only [triviaBytes, List.mem_cons, List.not_mem_nil, or_false] at hb
    rcases hb with rfl | rfl | rfl | rfl | rfl | rfl | rfl <;> rfl
  have hbegins : scan 0x3E (0x3E :: b :: t) = .ok (kind, 1) := h
  exact (Prod.mk.inj (Except.ok.inj (hbegins.symm.trans hscan))).1

/-- A token before one or two angles is joined to the equals sign behind them, unless one more angle
belongs to the operator. -/
theorem joined_equals {u : Text} (h : Begins kind x (0x3E :: r))
    (hu : u = utf8 ">" ∧ x ≠ utf8 ">" ∨ u = utf8 ">>") : Joined (x ++ u) Byte.equals := by
  have hnumber : Byte.isNumberPart 0x3E = false := by decide +kernel
  have hends : [0x3E] <:+ u := by
    rcases hu with ⟨rfl, -⟩ | rfl <;> decide
  have hsecond : ∀ b, ¬ utf8 "//" <+: b :: u := by
    intro b hpre
    rcases hu with ⟨rfl, -⟩ | rfl <;>
      exact absurd (List.cons_prefix_cons.mp (List.cons_prefix_cons.mp hpre).2).1 (by decide)
  obtain ⟨b, t, rfl⟩ := List.exists_cons_of_ne_nil h.ne_nil
  refine ⟨0x3E, ?_, by decide, by decide, by decide⟩
  constructor
  case ends => exact hends.trans (List.suffix_append _ _)
  case ascii => decide
  case blank => exact fun h => absurd h (by decide)
  case number => exact fun h => absurd h (by rw [hnumber]; decide)
  case apostrophe => exact fun _ => by decide
  case mark => exact fun h => absurd h (by decide)
  case hash => exact fun h => absurd h (by decide)
  case word =>
    intro word hword hpart
    -- No joint is longer than three bytes, and only one ends with an angle and an equals sign.
    have hfacts : ∀ word ∈ joints, word.length ≤ 3 ∧
        (word.drop 1 = utf8 ">=" → word = utf8 ">>=") := by decide
    obtain ⟨hlen, honly⟩ := hfacts word hword
    have hle := hpart.length_le
    simp only [List.length_append, List.length_cons, List.length_nil] at hle
    rcases hu with ⟨rfl, hx⟩ | rfl
    · have hone : (utf8 ">").length = 1 := rfl
      obtain rfl : t = [] := List.eq_nil_of_length_eq_zero (by omega)
      have heq := hpart.eq_of_length (by
        simp only [List.length_append, List.length_cons, List.length_nil]
        omega)
      have hword := honly (by rw [← heq]; rfl)
      rw [← heq] at hword
      exact hx (by rw [(List.cons.inj hword).1]; rfl)
    · have htwo : (utf8 ">>").length = 2 := rfl
      omega
  case comment =>
    intro hpre
    rcases t with _ | ⟨b', t⟩
    · exact hsecond b hpre
    · have hslashes : utf8 "//" <+: b :: b' :: t :=
        List.prefix_of_prefix_length_le hpre (List.prefix_append _ u) (Nat.le_add_left 2 t.length)
      have hcomment := h.kind_of_slashes hslashes
      rw [hcomment] at h
      exact absurd h.newline_of_lineComment (by decide)
  case stray =>
    intro heq
    have hmem := hends.subset (List.mem_singleton_self _)
    have hlast : (0x3E : UInt8) ∈ [Byte.apostrophe] := heq ▸ List.mem_append_right (b :: t) hmem
    exact absurd hlast (by decide)

end Begins

namespace Lexed

variable {ls rest : List Lexeme} {g w e : Lexeme}

/-- Angles and the equals sign behind them are one operator when nothing stands between them. -/
theorem fuse_of {us tail : List Lexeme} {u blank : Text} (h : Lexed (us ++ tail))
    (htail : Lexeme.join tail = u ++ (blank ++ Byte.equals :: Lexeme.join rest))
    (hrest : Lexed rest) (hblank : (∀ b ∈ blank, Rule.isBlank b = true) ∨ Calm us)
    (hu : u = utf8 ">" ∨ u = utf8 ">>")
    (hseam : ∀ vs y, us = vs ++ [y] → Joined (y.content ++ u) Byte.equals) :
    Lexed (us ++ ⟨.punctuation, u ++ utf8 "="⟩ :: rest) := by
  have hbefore := h.before
  rw [htail] at hbefore
  refine LexedBefore.append ?_ ⟨?_, hrest⟩
  · rw [Lexeme.join_cons, List.append_assoc]
    refine hbefore.remove hseam (by decide) ?_ (fun _ n hn => ?_) hblank
    · rcases hu with rfl | rfl <;> decide
    · -- No character literal begins with an angle.
      rcases hu with rfl | rfl <;> exact absurd hn (by rintro ⟨⟩)
  · rcases hu with rfl | rfl <;> rfl

/-- Without the white space between an angle and an equals sign the angle becomes part of an
operator, together with an angle in front of it. -/
theorem fuse (h : Lexed (ls ++ g :: w :: e :: rest)) (hg : g.kind = .greater) (he : e.kind = .equal)
    (hw : w.IsFree (ls ++ [g])) (hspace : w.isTrivia = true) :
    ∃ us fused, fused.kind = .punctuation ∧ Lexed (us ++ fused :: rest) ∧
      Lexeme.join us ++ fused.content = Lexeme.join ls ++ (g.content ++ e.content) ∧
      (us = ls ∨ ∃ g₀, g₀.kind = .greater ∧ ls = us ++ [g₀]) := by
  have hangle : g.content = utf8 ">" :=
    h.content_of_word (by simp) hg (by simp [Rule.all] : Rule.exactly .greater ">" ∈ Rule.all)
  have hequals : e.content = utf8 "=" :=
    h.content_of_word (by simp) he (by simp [Rule.all] : Rule.exactly .equal "=" ∈ Rule.all)
  obtain ⟨b, z, hcontent⟩ := List.exists_cons_of_ne_nil (h.content_ne_nil (l := w) (by simp))
  have hwbegins := h.right.2.1
  have hb : b ∈ triviaBytes := by
    rw [hcontent] at hwbegins
    exact hwbegins.mem_triviaBytes hspace
  have hblank : ∀ us, us <:+: ls → (∀ b ∈ w.content, Rule.isBlank b = true) ∨ Calm us := by
    intro us hpart
    rcases hw with hwhite | ⟨-, hcalm, -⟩
    · rw [hwhite] at hwbegins
      exact .inl (Seam.isBlank_of_mem hwbegins)
    · exact .inr (hcalm.part (hpart.trans (List.prefix_append ls [g]).isInfix))
  have htail : Lexeme.join (g :: w :: e :: rest) =
      utf8 ">" ++ (w.content ++ Byte.equals :: Lexeme.join rest) := by
    simp only [Lexeme.join_cons, hangle, hequals]
    rfl
  by_cases hlast : ∃ us g₀, ls = us ++ [g₀] ∧ g₀.content = utf8 ">"
  · obtain ⟨us, g₀, rfl, hcontent₀⟩ := hlast
    rw [List.append_assoc] at h
    have hbegins₀ : Begins g₀.kind g₀.content (Lexeme.join (g :: w :: e :: rest)) := h.begins
    rw [htail, hcontent₀, hcontent] at hbegins₀
    have htail₀ : Lexeme.join ([g₀] ++ g :: w :: e :: rest) =
        utf8 ">>" ++ (w.content ++ Byte.equals :: Lexeme.join rest) := by
      rw [List.singleton_append, Lexeme.join_cons, htail, hcontent₀]
      rfl
    refine ⟨us, ⟨.punctuation, utf8 ">>="⟩, rfl, ?_, ?_,
      .inr ⟨g₀, hbegins₀.kind_of_greater hb, rfl⟩⟩
    · refine fuse_of (u := utf8 ">>") h htail₀ h.right.2.2.2.2
        (hblank us (List.prefix_append us _).isInfix) (.inr rfl) fun vs y hy => ?_
      subst hy
      rw [List.append_assoc] at h
      have hybegins : Begins y.kind y.content (Lexeme.join ([g₀] ++ g :: w :: e :: rest)) :=
        h.begins
      rw [htail₀] at hybegins
      exact hybegins.joined_equals (.inr rfl)
    · rw [Lexeme.join_append, Lexeme.join_cons, Lexeme.join_nil, hcontent₀, hangle, hequals,
        List.append_assoc]
      rfl
  · refine ⟨ls, ⟨.punctuation, utf8 ">="⟩, rfl, ?_, by rw [hangle, hequals]; rfl, .inl rfl⟩
    refine fuse_of (u := utf8 ">") h htail h.right.2.2.2 (hblank ls List.infix_rfl) (.inl rfl)
      fun vs y hy => ?_
    subst hy
    have hybegins : Begins y.kind y.content (Lexeme.join (g :: w :: e :: rest)) := by
      rw [List.append_assoc] at h
      exact h.begins
    rw [htail] at hybegins
    exact hybegins.joined_equals (.inl ⟨rfl, fun hy => hlast ⟨vs, y, rfl, hy⟩⟩)

end Lexed

end CallConv
