import Mathlib
import CallConv.Proofs.Token.Lexeme

/-!
# Comments and literals that are closed, and those that are not

A block comment, a raw string literal or a string literal is opened by the first bytes of a text,
and every way to open one says which texts close it (`Opening`). Comments nest, so what closes one
is a sequence of complete comments and of bytes that begin no delimiter, up to a delimiter
(`CommentTail`). The lexer fails exactly where a text opens something that no part of the text
behind it closes, and otherwise the token ends with the first text that does (`next_terminated`).

The reason is that no other rule reaches to the end of an opening, so that the rule of the opened
comment or literal wins as soon as it finds anything.
-/

namespace CallConv

namespace Rule

/-! ## Block comments -/

/-- What stands behind the opening of a block comment, with what closes it: bytes that begin no
delimiter, complete comments, and the closing delimiter at the end. -/
inductive CommentTail : Text → Prop where
  | close : CommentTail (utf8 "*/")
  | comment {inner rest : Text} (hinner : CommentTail inner) (hrest : CommentTail rest) :
      CommentTail (utf8 "/*" ++ inner ++ rest)
  | byte {b : UInt8} {rest : Text} (hopen : ¬ utf8 "/*" <+: b :: rest)
      (hclose : ¬ utf8 "*/" <+: b :: rest) (hrest : CommentTail rest) : CommentTail (b :: rest)

/-- What closes some open block comments, the innermost first. -/
def CommentTails : Nat → Text → Prop
  | 0, t => t = []
  | depth + 1, t => ∃ tail rest, t = tail ++ rest ∧ CommentTail tail ∧ CommentTails depth rest

theorem CommentTail.ne_nil {t : Text} (h : CommentTail t) : t ≠ [] := by
  cases h <;> simp [utf8]

/-- A delimiter is two bytes in a row. -/
theorem delimiter_prefix_iff {a b a' b' : UInt8} {t : Text} :
    [a, b] <+: a' :: b' :: t ↔ a' = a ∧ b' = b := by
  rw [List.cons_prefix_cons, List.cons_prefix_cons]
  simp [eq_comm]

theorem utf8_slash_star : utf8 "/*" = [Byte.slash, Byte.star] := rfl

theorem utf8_star_slash : utf8 "*/" = [Byte.star, Byte.slash] := rfl

theorem blockCommentEnd?_opening (depth : Nat) (t : Text) :
    blockCommentEnd? depth (utf8 "/*" ++ t) = (blockCommentEnd? (depth + 1) t).map (· + 2) := by
  rw [utf8_slash_star, List.cons_append, List.cons_append, blockCommentEnd?, if_pos ⟨rfl, rfl⟩]
  rfl

/-- What closes the innermost open comment leaves the others open. -/
theorem blockCommentEnd?_tail {tail : Text} (h : CommentTail tail) (depth : Nat) (t : Text) :
    blockCommentEnd? (depth + 1) (tail ++ t) =
      if depth = 0 then some tail.length
      else (blockCommentEnd? depth t).map (· + tail.length) := by
  induction h generalizing depth t with
  | close =>
    rw [utf8_star_slash, List.cons_append, List.cons_append, blockCommentEnd?,
      if_neg (by decide), if_pos ⟨rfl, rfl⟩]
    rcases depth with _ | depth
    · rfl
    · rw [if_neg (by omega), if_neg (by omega)]
      rfl
  | @comment inner rest _ _ ihinner ihrest =>
    rw [List.append_assoc, List.append_assoc, blockCommentEnd?_opening, ihinner, if_neg (by omega),
      ihrest]
    have hlength : (utf8 "/*" ++ inner ++ rest).length = rest.length + inner.length + 2 := by
      simp only [utf8_slash_star, List.length_append, List.length_cons, List.length_nil]
      omega
    rw [hlength]
    split
    · rfl
    · simp only [Option.map_map, Function.comp_def, Nat.add_assoc]
  | @byte b rest hopen hclose hrest ih =>
    obtain ⟨c, rest, rfl⟩ := List.exists_cons_of_ne_nil hrest.ne_nil
    have hopen' : ¬ (b = Byte.slash ∧ c = Byte.star) := fun h =>
      hopen (delimiter_prefix_iff.mpr h)
    have hclose' : ¬ (b = Byte.star ∧ c = Byte.slash) := fun h =>
      hclose (delimiter_prefix_iff.mpr h)
    rw [List.cons_append, List.cons_append, blockCommentEnd?, if_neg hopen', if_neg hclose',
      ← List.cons_append, ih]
    split
    · rfl
    · rw [Option.map_map]
      congr 1

/-- The end of some open block comments is where texts that close them end. -/
theorem tails_of_blockCommentEnd? {depth n : Nat} {t : Text} (h : blockCommentEnd? depth t = some n)
    (hdepth : depth ≠ 0) :
    ∃ tails rest, t = tails ++ rest ∧ n = tails.length ∧ CommentTails depth tails := by
  fun_induction blockCommentEnd? depth t generalizing n with
  | case1 depth a b t hopen ih =>
    -- A comment that is opened closes before those around it.
    obtain ⟨m, hm, rfl⟩ := Option.map_eq_some_iff.mp h
    obtain ⟨tails, rest, rfl, rfl, inner, _, rfl, hinner, htails⟩ := ih hm (by omega)
    obtain ⟨depth, rfl⟩ := Nat.exists_eq_succ_of_ne_zero hdepth
    obtain ⟨tail, outer, rfl, htail, houter⟩ := htails
    obtain ⟨rfl, rfl⟩ := hopen
    exact ⟨utf8 "/*" ++ inner ++ tail ++ outer, rest, by simp [utf8_slash_star],
      by simp [utf8_slash_star], _, outer, rfl, .comment hinner htail, houter⟩
  | case2 depth a b t hopen hclose hone =>
    obtain ⟨rfl, rfl⟩ := hclose
    obtain rfl := Option.some.inj h
    obtain rfl : depth = 1 := by omega
    exact ⟨utf8 "*/", t, rfl, rfl, _, [], (List.append_nil _).symm, .close, rfl⟩
  | case3 depth a b t hopen hclose hone ih =>
    obtain ⟨rfl, rfl⟩ := hclose
    obtain ⟨m, hm, rfl⟩ := Option.map_eq_some_iff.mp h
    obtain ⟨tails, rest, rfl, rfl, htails⟩ := ih hm (by omega)
    obtain ⟨depth, rfl⟩ := Nat.exists_eq_succ_of_ne_zero hdepth
    exact ⟨utf8 "*/" ++ tails, rest, rfl, by simp [utf8_star_slash], _, tails, rfl, .close, htails⟩
  | case4 depth a b t hopen hclose ih =>
    obtain ⟨m, hm, rfl⟩ := Option.map_eq_some_iff.mp h
    obtain ⟨tails, rest, heq, rfl, htails⟩ := ih hm hdepth
    obtain ⟨depth, rfl⟩ := Nat.exists_eq_succ_of_ne_zero hdepth
    obtain ⟨tail, outer, rfl, htail, houter⟩ := htails
    obtain ⟨c, tail, rfl⟩ := List.exists_cons_of_ne_nil htail.ne_nil
    obtain ⟨rfl, -⟩ : b = c ∧ t = tail ++ outer ++ rest := by simpa using heq
    refine ⟨a :: (b :: tail ++ outer), rest, by rw [heq]; rfl, rfl, a :: b :: tail, outer, rfl,
      .byte ?_ ?_ htail, houter⟩
    · exact fun h => hopen (delimiter_prefix_iff.mp h)
    · exact fun h => hclose (delimiter_prefix_iff.mp h)
  | case5 => simp at h

/-! ## String literals -/

/-- The body of a string literal: bytes that stand for themselves, and backslashes that take the
byte behind them along. -/
inductive StringBody : Text → Prop where
  | nil : StringBody []
  | byte {b : UInt8} {t : Text} (hquote : b ≠ Byte.quote) (hescape : b ≠ Byte.backslash)
      (ht : StringBody t) : StringBody (b :: t)
  | escape (c : UInt8) {t : Text} (ht : StringBody t) : StringBody (Byte.backslash :: c :: t)

/-- The rest of a string literal is a body and the closing quote. -/
theorem stringEnd?_eq_some_iff {t : Text} {n : Nat} :
    stringEnd? t = some n ↔
      ∃ body rest, StringBody body ∧ t = body ++ Byte.quote :: rest ∧ n = body.length + 1 := by
  constructor
  · intro h
    fun_induction stringEnd? t generalizing n with
    | case1 => simp at h
    | case2 t => exact ⟨[], t, .nil, rfl, (Option.some.inj h).symm⟩
    | case3 => simp at h
    | case4 c t _ ih =>
      obtain ⟨m, hm, rfl⟩ := Option.map_eq_some_iff.mp h
      obtain ⟨body, rest, hbody, rfl, rfl⟩ := ih hm
      exact ⟨_, rest, .escape c hbody, rfl, rfl⟩
    | case5 b t hquote hescape ih =>
      obtain ⟨m, hm, rfl⟩ := Option.map_eq_some_iff.mp h
      obtain ⟨body, rest, hbody, rfl, rfl⟩ := ih hm
      exact ⟨_, rest, .byte hquote hescape hbody, rfl, rfl⟩
  · rintro ⟨body, rest, hbody, rfl, rfl⟩
    induction hbody with
    | nil => exact stringEnd?_quote rest
    | byte hquote hescape _ ih =>
      rw [List.cons_append, stringEnd?_cons _ hquote hescape, ih]
      rfl
    | escape c _ ih =>
      rw [List.cons_append, List.cons_append, stringEnd?_backslash, ih]
      rfl

/-! ## Raw string literals -/

/-- A text is found where it first occurs. -/
theorem indexOf?_eq_some_iff {needle t : Text} {k : Nat} :
    Text.indexOf? needle t = some k ↔
      (∃ before after, t = before ++ needle ++ after ∧ k = before.length) ∧
        ∀ before after, t = before ++ needle ++ after → k ≤ before.length := by
  induction t generalizing k with
  | nil =>
    rw [Text.indexOf?]
    by_cases hneedle : needle = []
    · simp [hneedle, eq_comm]
    · simp [hneedle]
  | cons b t ih =>
    rw [Text.indexOf?]
    by_cases hpre : needle <+: b :: t
    · obtain ⟨after, hafter⟩ := hpre
      rw [if_pos (List.isPrefixOf_iff_prefix.mpr ⟨after, hafter⟩)]
      constructor
      · rintro h
        obtain rfl := Option.some.inj h
        exact ⟨⟨[], after, hafter.symm, rfl⟩, fun _ _ _ => Nat.zero_le _⟩
      · rintro ⟨-, h⟩
        rw [Nat.le_zero.mp (h [] after hafter.symm)]
    · rw [if_neg fun h => hpre (List.isPrefixOf_iff_prefix.mp h), Option.map_eq_some_iff]
      -- The text does not stand here, so that every occurrence has a byte before it.
      have hcons : ∀ before after, b :: t = before ++ needle ++ after →
          ∃ before', before = b :: before' ∧ t = before' ++ needle ++ after := by
        rintro (_ | ⟨c, before⟩) after heq
        · exact absurd ⟨after, heq.symm⟩ hpre
        · obtain ⟨rfl, rfl⟩ := List.cons.inj heq
          exact ⟨before, rfl, rfl⟩
      constructor
      · rintro ⟨m, hm, rfl⟩
        obtain ⟨⟨before, after, rfl, rfl⟩, hfirst⟩ := ih.mp hm
        refine ⟨⟨b :: before, after, rfl, rfl⟩, fun before' after' heq => ?_⟩
        obtain ⟨before', rfl, heq'⟩ := hcons before' after' heq
        exact Nat.succ_le_succ (hfirst before' after' heq')
      · rintro ⟨⟨before, after, heq, rfl⟩, hfirst⟩
        obtain ⟨before, rfl, rfl⟩ := hcons before after heq
        refine ⟨before.length, ih.mpr ⟨⟨before, after, rfl, rfl⟩, fun before' after' heq' => ?_⟩,
          rfl⟩
        exact Nat.le_of_succ_le_succ (hfirst (b :: before') after' (by rw [heq']; rfl))

/-! ## What else begins where a comment or literal is opened -/

section Rivals

variable {rule : Rule} {mark : Text}

/-- Where a block comment is opened, any other rule finds an operator at most. -/
theorem size?_at_slash_star (hrule : rule ∈ all) (t : Text) :
    rule.kind = .blockComment ∨ rule.size? (Byte.slash :: Byte.star :: t) = none ∨
      rule.size? (Byte.slash :: Byte.star :: t) = some 1 := by
  simp only [all, List.mem_cons, List.not_mem_nil, or_false] at hrule
  rcases hrule with rfl | rfl | rfl | rfl | rfl | rfl | rfl | rfl | rfl | rfl | rfl | rfl | rfl |
    rfl | rfl | rfl | rfl | rfl | rfl | rfl | rfl | rfl | rfl | rfl | rfl | rfl | rfl | rfl | rfl |
    rfl
  all_goals first
    | exact .inl rfl
    | exact .inr (.inl rfl)
    | exact .inr (.inr rfl)

/-- Where a raw string literal is opened, any other rule finds a word before the hashes at most. -/
theorem size?_at_rawOpening (hrule : rule ∈ all) (hmark : IsMark mark) (hashes : Nat) (t : Text) :
    rule.kind = .rawString ∨ rule.size? (rawOpening mark hashes ++ t) = none ∨
      rule.size? (rawOpening mark hashes ++ t) = some (mark.length + 1) := by
  simp only [all, List.mem_cons, List.not_mem_nil, or_false] at hrule
  -- A raw identifier has one hash, so that up to two hashes are looked at.
  rcases hmark with rfl | rfl <;> rcases hashes with _ | _ | hashes <;>
    rcases hrule with rfl | rfl | rfl | rfl | rfl | rfl | rfl | rfl | rfl | rfl | rfl | rfl | rfl |
      rfl | rfl | rfl | rfl | rfl | rfl | rfl | rfl | rfl | rfl | rfl | rfl | rfl | rfl | rfl |
      rfl | rfl
  all_goals first
    | exact .inl rfl
    | exact .inr (.inl rfl)
    | exact .inr (.inr rfl)

/-- Where a string literal is opened, any other rule finds the mark at most. -/
theorem size?_at_marked_quote (hrule : rule ∈ all) (hmark : IsMark mark) (t : Text) :
    rule.kind = .string ∨ rule.size? (mark ++ Byte.quote :: t) = none ∨
      rule.size? (mark ++ Byte.quote :: t) = some mark.length := by
  simp only [all, List.mem_cons, List.not_mem_nil, or_false] at hrule
  rcases hmark with rfl | rfl <;>
    rcases hrule with rfl | rfl | rfl | rfl | rfl | rfl | rfl | rfl | rfl | rfl | rfl | rfl | rfl |
      rfl | rfl | rfl | rfl | rfl | rfl | rfl | rfl | rfl | rfl | rfl | rfl | rfl | rfl | rfl |
      rfl | rfl
  all_goals first
    | exact .inl rfl
    | exact .inr (.inl rfl)
    | exact .inr (.inr rfl)

end Rivals

/-! ## Openings and what closes them -/

/-- What can close a raw string literal: a quote and as many hashes as opened it, behind
anything. -/
def RawTail (hashes : Nat) (t : Text) : Prop := ∃ body, t = body ++ rawClosing hashes

/-- What can close a string literal: a quote that no backslash takes along. -/
def StringTail (t : Text) : Prop := ∃ body, StringBody body ∧ t = body ++ [Byte.quote]

/-- The shortest text with a property among its starts. -/
def Shortest (Tail : Text → Prop) (t : Text) : Prop :=
  Tail t ∧ ∀ s, Tail s → s <+: t → s = t

/-- A text that begins with one that has a property begins with a shortest one. -/
theorem exists_shortest {Tail : Text → Prop} {t rest : Text} (h : Tail t) (hpre : t <+: rest) :
    ∃ s, Shortest Tail s ∧ s <+: rest := by
  induction hlength : t.length using Nat.strong_induction_on generalizing t with
  | _ length ih =>
    subst hlength
    by_cases hshortest : ∀ s, Tail s → s <+: t → s = t
    · exact ⟨t, ⟨h, hshortest⟩, hpre⟩
    · push Not at hshortest
      obtain ⟨s, hs, hst, hne⟩ := hshortest
      have hlt : s.length < t.length :=
        lt_of_le_of_ne hst.length_le fun heq => hne (hst.eq_of_length heq)
      exact ih s.length hlt hs (hst.trans hpre) rfl

/-- A reader takes the shortest text of some kind off the texts that begin with one. -/
def TakesOff (Tail : Text → Prop) (end? : Text → Option Nat) : Prop :=
  ∀ t n, end? t = some n ↔ ∃ tail rest, t = tail ++ rest ∧ Shortest Tail tail ∧ n = tail.length

/-- Of two texts of a kind that begin a text, a reader of the kind takes the same off, so that each
is the shortest. -/
theorem shortest_of_read {Tail : Text → Prop} {end? : Text → Option Nat}
    (hread : ∀ tail rest, Tail tail → end? (tail ++ rest) = some tail.length) {tail : Text}
    (h : Tail tail) : Shortest Tail tail := by
  refine ⟨h, ?_⟩
  rintro s hs ⟨rest, rfl⟩
  have hwhole := hread (s ++ rest) [] h
  rw [List.append_nil, hread s rest hs, Option.some.injEq, List.length_append] at hwhole
  rw [List.eq_nil_of_length_eq_zero (by omega : rest.length = 0), List.append_nil]

/-- What a reader takes off every text that begins with it is the shortest of its kind. -/
theorem takesOff_of_read {Tail : Text → Prop} {end? : Text → Option Nat}
    (hread : ∀ tail rest, Tail tail → end? (tail ++ rest) = some tail.length)
    (htail : ∀ t n, end? t = some n → ∃ tail rest, t = tail ++ rest ∧ Tail tail) :
    TakesOff Tail end? := by
  intro t n
  constructor
  · intro h
    obtain ⟨tail, rest, rfl, htail⟩ := htail t n h
    rw [hread tail rest htail] at h
    exact ⟨tail, rest, rfl, shortest_of_read hread htail, (Option.some.inj h).symm⟩
  · rintro ⟨tail, rest, rfl, htail, rfl⟩
    exact hread tail rest htail.1

theorem takesOff_comment : TakesOff CommentTail (blockCommentEnd? 1) := by
  refine takesOff_of_read (fun tail rest h => ?_) fun t n h => ?_
  · rw [blockCommentEnd?_tail h, if_pos rfl]
  · obtain ⟨_, rest, rfl, rfl, tail, _, rfl, htail, rfl⟩ :=
      tails_of_blockCommentEnd? h one_ne_zero
    exact ⟨tail, rest, by rw [List.append_nil], htail⟩

/-- A string literal is read up to what closes it. -/
theorem stringEnd?_tail {tail : Text} (rest : Text) (h : StringTail tail) :
    stringEnd? (tail ++ rest) = some tail.length := by
  obtain ⟨body, hbody, rfl⟩ := h
  exact stringEnd?_eq_some_iff.mpr ⟨body, rest, hbody, by simp, by simp⟩

theorem takesOff_string : TakesOff StringTail stringEnd? := by
  refine takesOff_of_read (fun _ rest => stringEnd?_tail rest) fun t n h => ?_
  obtain ⟨body, rest, hbody, rfl, -⟩ := stringEnd?_eq_some_iff.mp h
  exact ⟨body ++ [Byte.quote], rest, by simp, body, hbody, rfl⟩

theorem takesOff_raw (hashes : Nat) : TakesOff (RawTail hashes) fun t =>
    (Text.indexOf? (rawClosing hashes) t).map (· + (rawClosing hashes).length) := by
  intro t n
  rw [Option.map_eq_some_iff]
  constructor
  · rintro ⟨k, hk, rfl⟩
    obtain ⟨⟨body, rest, rfl, rfl⟩, hfirst⟩ := indexOf?_eq_some_iff.mp hk
    refine ⟨_, rest, rfl, ⟨⟨body, rfl⟩, ?_⟩, List.length_append.symm⟩
    rintro _ ⟨body', rfl⟩ hpre
    obtain ⟨more, hmore⟩ := id hpre
    have hle := hfirst body' (more ++ rest) (by rw [← hmore]; simp)
    refine hpre.eq_of_length_le ?_
    rw [List.length_append, List.length_append]
    omega
  · rintro ⟨_, rest, rfl, ⟨⟨body, rfl⟩, hshortest⟩, rfl⟩
    refine ⟨body.length, indexOf?_eq_some_iff.mpr ⟨⟨body, rest, rfl, rfl⟩, ?_⟩,
      List.length_append.symm⟩
    intro body' rest' heq
    -- An earlier end would be that of a shorter text.
    by_contra hlt
    have hpre : body' ++ rawClosing hashes <+: body ++ rawClosing hashes := by
      refine List.prefix_of_prefix_length_le ⟨rest', heq.symm⟩ (List.prefix_append _ rest) ?_
      rw [List.length_append, List.length_append]
      omega
    have hlength := congrArg List.length (hshortest _ ⟨body', rfl⟩ hpre)
    rw [List.length_append, List.length_append] at hlength
    omega

end Rule

namespace Unterminated

open Rule

/-- The rule of the comments or literals that can be left open. -/
def rule : Unterminated → Rule
  | blockComment => ⟨.blockComment, blockCommentSize?⟩
  | rawString => ⟨.rawString, rawStringSize?⟩
  | string => ⟨.string, stringSize?⟩

/-- The kind of the comments or literals that can be left open. -/
def kind (cause : Unterminated) : TokenKind := cause.rule.kind

/-- The byte that says what is opened. -/
def firstByte : Unterminated → UInt8
  | blockComment => Byte.slash
  | rawString => 0x72
  | string => Byte.quote

theorem rule_mem_all (cause : Unterminated) : cause.rule ∈ Rule.all := by
  cases cause <;> simp [rule, Rule.all]

/-- The ways to open a comment or literal, each with what can close it. -/
inductive Opening : Unterminated → Text → (Text → Prop) → Prop where
  | blockComment : Opening .blockComment (utf8 "/*") CommentTail
  | rawString {mark : Text} (hashes : Nat) (hmark : IsMark mark) :
      Opening .rawString (rawOpening mark hashes) (RawTail hashes)
  | string {mark : Text} (hmark : IsMark mark) :
      Opening .string (mark ++ [Byte.quote]) StringTail

/-- A text opens a comment or literal. -/
def IsOpenedBy (t : Text) (cause : Unterminated) : Prop :=
  ∃ opening Tail, Opening cause opening Tail ∧ opening <+: t

/-- A comment or literal that is closed: an opening, and the shortest text that can close it. -/
def IsClosed (cause : Unterminated) (content : Text) : Prop :=
  ∃ opening Tail tail, Opening cause opening Tail ∧ Shortest Tail tail ∧ content = opening ++ tail

/-- A text opens a comment or literal that nothing behind the opening closes. -/
def IsLeftOpenBy (t : Text) (cause : Unterminated) : Prop :=
  ∃ opening Tail rest, Opening cause opening Tail ∧ t = opening ++ rest ∧
    ∀ tail, Tail tail → ¬ tail <+: rest

namespace Opening

variable {cause : Unterminated} {opening tail rest : Text} {Tail : Text → Prop} {n : Nat}

/-- Behind an opening, a comment or literal goes on up to what closes it. -/
theorem exists_takesOff (h : Opening cause opening Tail) :
    ∃ end?, TakesOff Tail end? ∧
      ∀ rest, cause.rule.size? (opening ++ rest) = (end? rest).map (opening.length + ·) := by
  cases h with
  | blockComment =>
    refine ⟨_, takesOff_comment, fun rest => ?_⟩
    have hpre : (utf8 "/*").isPrefixOf (utf8 "/*" ++ rest) = true :=
      List.isPrefixOf_iff_prefix.mpr (List.prefix_append _ rest)
    simp only [rule, blockCommentSize?, if_pos hpre, blockCommentEnd?_opening, Nat.add_comm]
    rfl
  | rawString hashes hmark =>
    refine ⟨_, takesOff_raw hashes, fun rest => ?_⟩
    have hopen := rawStringOpening?_eq_some_iff.mpr
      ⟨_, hmark, List.prefix_append (rawOpening _ hashes) rest, rfl⟩
    rw [← length_rawOpening] at hopen
    simp only [rule, rawStringSize?, hopen, Option.bind_eq_bind, Option.bind_some, List.drop_left]
    rw [← rawClosing]
    cases Text.indexOf? (rawClosing hashes) rest with
    | none => rfl
    | some k => simp [Nat.add_assoc]
  | @string mark hmark =>
    refine ⟨_, takesOff_string, fun rest => ?_⟩
    have hsize : byteMarkSize (mark ++ [Byte.quote] ++ rest) = mark.length := by
      rw [List.append_assoc]
      exact byteMarkSize_append hmark (by decide)
    have hdrop : (mark ++ [Byte.quote] ++ rest).drop mark.length = Byte.quote :: rest := by
      rw [List.append_assoc, List.drop_left]
      rfl
    have hdrop' : (mark ++ [Byte.quote] ++ rest).drop (mark.length + 1) = rest := by
      rw [← List.drop_drop, hdrop, List.drop_one, List.tail_cons]
    simp only [rule, stringSize?, isStringOpening, hsize, hdrop, hdrop', List.head?_cons,
      beq_self_eq_true, if_true, List.length_append, List.length_singleton, Nat.add_comm]

/-- A comment or literal is an opening and the shortest text behind it that can close it. -/
theorem size?_eq_some_iff (h : Opening cause opening Tail) :
    cause.rule.size? (opening ++ rest) = some n ↔
      ∃ tail after, rest = tail ++ after ∧ Shortest Tail tail ∧ n = (opening ++ tail).length := by
  obtain ⟨end?, htakes, hsize⟩ := h.exists_takesOff
  rw [hsize, Option.map_eq_some_iff]
  constructor
  · rintro ⟨k, hk, rfl⟩
    obtain ⟨tail, after, rfl, hshortest, rfl⟩ := (htakes rest k).mp hk
    exact ⟨tail, after, rfl, hshortest, List.length_append.symm⟩
  · rintro ⟨tail, after, rfl, hshortest, rfl⟩
    exact ⟨tail.length, (htakes _ _).mpr ⟨tail, after, rfl, hshortest, rfl⟩,
      List.length_append.symm⟩

/-- Nothing is found behind an opening if and only if nothing there closes it. -/
theorem size?_eq_none_iff (h : Opening cause opening Tail) :
    cause.rule.size? (opening ++ rest) = none ↔ ∀ tail, Tail tail → ¬ tail <+: rest := by
  rw [Option.eq_none_iff_forall_ne_some]
  constructor
  · intro hnone tail htail hpre
    obtain ⟨short, hshort, after, rfl⟩ := exists_shortest htail hpre
    exact hnone _ (h.size?_eq_some_iff.mpr ⟨short, after, rfl, hshort, rfl⟩)
  · intro hnone n hn
    obtain ⟨tail, after, rfl, hshortest, -⟩ := h.size?_eq_some_iff.mp hn
    exact hnone tail hshortest.1 (List.prefix_append tail after)

/-- At an opening every other rule finds less than the opening. -/
theorem size?_lt (h : Opening cause opening Tail) {rule : Rule} (hrule : rule ∈ Rule.all)
    (hkind : rule.kind ≠ cause.kind) (hn : rule.size? (opening ++ rest) = some n) :
    n < opening.length := by
  cases h with
  | blockComment =>
    rcases (size?_at_slash_star hrule rest).resolve_left hkind with hnone | hone
    · exact absurd (hnone.symm.trans hn) (by simp)
    · obtain rfl := Option.some.inj (hone.symm.trans hn)
      decide
  | rawString hashes hmark =>
    rcases (size?_at_rawOpening hrule hmark hashes rest).resolve_left hkind with hnone | hword
    · exact absurd (hnone.symm.trans hn) (by simp)
    · obtain rfl := Option.some.inj (hword.symm.trans hn)
      rw [length_rawOpening]
      omega
  | string hmark =>
    rw [List.append_assoc, List.singleton_append] at hn
    rcases (size?_at_marked_quote hrule hmark rest).resolve_left hkind with hnone | hword
    · exact absurd (hnone.symm.trans hn) (by simp)
    · obtain rfl := Option.some.inj (hword.symm.trans hn)
      simp

/-- At an opening the rule of what is opened wins as soon as it finds anything. -/
theorem longest_eq (h : Opening cause opening Tail)
    (hn : cause.rule.size? (opening ++ rest) = some n) :
    longest (opening ++ rest) = (cause.kind, n) := by
  have hle := le_longest cause.rule_mem_all hn
  have hpos := (stable_of_mem_all cause.rule_mem_all).pos hn
  rcases longest_cases (opening ++ rest) with hnone | ⟨rule, hrule, hkind, hsize⟩
  · rw [hnone] at hle
    omega
  · by_cases heq : rule.kind = cause.kind
    · rw [eq_of_kind_eq hrule cause.rule_mem_all heq, hn] at hsize
      exact Prod.ext (hkind.symm.trans heq) (Option.some.inj hsize).symm
    · -- Any other winner would end within the opening.
      have hlt := h.size?_lt hrule heq hsize
      obtain ⟨tail, after, -, -, rfl⟩ := h.size?_eq_some_iff.mp hn
      rw [List.length_append] at hle
      omega

/-- An opening begins with a byte of its own, which a mark may stand before. -/
theorem exists_mark (h : Opening cause opening Tail) :
    ∃ mark more, IsMark mark ∧ opening = mark ++ cause.firstByte :: more := by
  cases h with
  | blockComment => exact ⟨[], _, .inl rfl, rfl⟩
  | rawString hashes hmark => exact ⟨_, _, hmark, rfl⟩
  | string hmark => exact ⟨_, [], hmark, rfl⟩

end Opening

section Opened

variable {t : Text} {cause cause' : Unterminated} {kind : TokenKind}

/-- A text opens one comment or literal at most. -/
theorem IsOpenedBy.unique (h : IsOpenedBy t cause) (h' : IsOpenedBy t cause') : cause = cause' := by
  have hfirst : ∀ cause, IsOpenedBy t cause →
      (t.drop (byteMarkSize t)).head? = some cause.firstByte := by
    rintro cause ⟨opening, Tail, hopening, rest, rfl⟩
    obtain ⟨mark, more, hmark, rfl⟩ := hopening.exists_mark
    rw [List.append_assoc, List.cons_append,
      byteMarkSize_append hmark (by cases cause <;> decide), List.drop_left, List.head?_cons]
  have heq := Option.some.inj ((hfirst cause h).symm.trans (hfirst cause' h'))
  cases cause <;> cases cause' <;> first | rfl | exact absurd heq (by decide)

theorem isOpenedBy_blockComment_iff :
    IsOpenedBy t .blockComment ↔ (utf8 "/*").isPrefixOf t = true := by
  rw [List.isPrefixOf_iff_prefix]
  constructor
  · rintro ⟨_, _, ⟨⟩, h⟩
    exact h
  · exact fun h => ⟨_, _, .blockComment, h⟩

theorem isOpenedBy_rawString_iff :
    IsOpenedBy t .rawString ↔ (rawStringOpening? t).isSome = true := by
  rw [isSome_rawStringOpening?_iff]
  constructor
  · rintro ⟨_, _, ⟨⟩, h⟩
    next mark hashes hmark => exact ⟨mark, hashes, hmark, h⟩
  · rintro ⟨mark, hashes, hmark, h⟩
    exact ⟨_, _, .rawString hashes hmark, h⟩

theorem isOpenedBy_string_iff : IsOpenedBy t .string ↔ isStringOpening t = true := by
  rw [isStringOpening_iff]
  constructor
  · rintro ⟨_, _, ⟨⟩, h⟩
    next mark hmark => exact ⟨mark, hmark, h⟩
  · rintro ⟨mark, hmark, h⟩
    exact ⟨_, _, .string hmark, h⟩

/-- What is left open is what the text opens, unless that is the token itself. -/
theorem unterminated?_eq_some_iff :
    unterminated? kind t = some cause ↔ IsOpenedBy t cause ∧ kind ≠ cause.kind := by
  have hcomment := isOpenedBy_blockComment_iff (t := t)
  have hraw := isOpenedBy_rawString_iff (t := t)
  have hstring := isOpenedBy_string_iff (t := t)
  unfold unterminated?
  constructor
  · intro h
    split at h
    · next hopen =>
      obtain rfl := Option.some.inj h
      exact ⟨hcomment.mpr hopen.2, hopen.1⟩
    · split at h
      · next hopen =>
        obtain rfl := Option.some.inj h
        exact ⟨hraw.mpr hopen.2, hopen.1⟩
      · split at h
        · next hopen =>
          obtain rfl := Option.some.inj h
          exact ⟨hstring.mpr hopen.2, hopen.1⟩
        · simp at h
  · rintro ⟨hopen, hkind⟩
    -- The checks before the one for the cause look for what the text does not open.
    have hother : ∀ cause', cause ≠ cause' → ¬ IsOpenedBy t cause' := fun _ hne hopen' =>
      hne (hopen.unique hopen')
    cases cause with
    | blockComment => exact if_pos ⟨hkind, hcomment.mp hopen⟩
    | rawString =>
      rw [if_neg fun h => hother .blockComment (by decide) (hcomment.mpr h.2),
        if_pos ⟨hkind, hraw.mp hopen⟩]
    | string =>
      rw [if_neg fun h => hother .blockComment (by decide) (hcomment.mpr h.2),
        if_neg fun h => hother .rawString (by decide) (hraw.mpr h.2),
        if_pos ⟨hkind, hstring.mp hopen⟩]

/-- A rule for what can be left open finds only what the text opens. -/
theorem isOpenedBy_of_size? {n : Nat} (h : cause.rule.size? t = some n) : IsOpenedBy t cause := by
  cases cause with
  | blockComment =>
    refine isOpenedBy_blockComment_iff.mpr ?_
    by_contra hopen
    simp [rule, blockCommentSize?, hopen] at h
  | rawString =>
    obtain ⟨mark, hashes, rest, -, hmark, rfl, -⟩ := rawStringSize?_eq_some_iff.mp h
    exact ⟨_, _, .rawString hashes hmark, List.prefix_append _ _⟩
  | string =>
    refine isOpenedBy_string_iff.mpr ?_
    by_contra hopen
    simp [rule, stringSize?, hopen] at h

/-- The longest token is a comment or literal that can be left open only if its rule finds one. -/
theorem exists_size?_of_longest (h : (longest t).1 = cause.kind) :
    ∃ n, cause.rule.size? t = some n := by
  rcases longest_cases t with hnone | ⟨rule, hrule, hkind, hsize⟩
  · rw [hnone] at h
    exact absurd h.symm (kind_ne_unassigned cause.rule_mem_all)
  · rw [eq_of_kind_eq hrule cause.rule_mem_all (hkind.trans h)] at hsize
    exact ⟨_, hsize⟩

/-- What is opened is left open if and only if its rule finds nothing. -/
theorem isLeftOpenBy_iff :
    IsLeftOpenBy t cause ↔ IsOpenedBy t cause ∧ (longest t).1 ≠ cause.kind := by
  constructor
  · rintro ⟨opening, Tail, rest, hopening, rfl, hnone⟩
    refine ⟨⟨opening, Tail, hopening, List.prefix_append opening rest⟩, fun h => ?_⟩
    obtain ⟨n, hn⟩ := exists_size?_of_longest h
    rw [hopening.size?_eq_none_iff.mpr hnone] at hn
    simp at hn
  · rintro ⟨⟨opening, Tail, hopening, rest, rfl⟩, hkind⟩
    refine ⟨opening, Tail, rest, hopening, rfl, hopening.size?_eq_none_iff.mp ?_⟩
    by_contra hsome
    obtain ⟨n, hn⟩ := Option.ne_none_iff_exists'.mp hsome
    exact hkind (by rw [hopening.longest_eq hn])

end Opened

end Unterminated

namespace Lexer

open Rule Unterminated

variable {b : UInt8} {t : Text} {c : Cursor}

/-- The lexer fails with what the text leaves open, at its place. -/
theorem next_eq_error_iff {e : LexError} :
    Lexer.next ⟨b :: t, c⟩ = .error e ↔ e.location = c ∧ IsLeftOpenBy (b :: t) e.cause := by
  rw [isLeftOpenBy_iff, ← unterminated?_eq_some_iff]
  obtain ⟨location, cause⟩ := e
  simp only [Lexer.next, scan]
  cases h : unterminated? (longest (b :: t)).1 (b :: t) with
  | none => simp
  | some cause' => simp [eq_comm]

/-- A comment or literal that is closed is the next token. -/
theorem begins_of_opening {cause : Unterminated} {opening tail rest : Text} {Tail : Text → Prop}
    (hopening : Opening cause opening Tail) (htail : Shortest Tail tail) :
    Begins cause.kind (opening ++ tail) rest := by
  have hsize : cause.rule.size? (opening ++ (tail ++ rest)) = some (opening ++ tail).length :=
    hopening.size?_eq_some_iff.mpr ⟨tail, rest, rfl, htail, rfl⟩
  have hlongest := hopening.longest_eq hsize
  have hpos := (stable_of_mem_all cause.rule_mem_all).pos hsize
  rw [← List.append_assoc] at hlongest
  refine begins_iff.mpr ⟨List.length_pos_iff.mp hpos, by rw [hlongest], ?_, ?_⟩
  · -- What the text opens is the token.
    by_contra hsome
    obtain ⟨cause', hcause⟩ := Option.ne_none_iff_exists'.mp hsome
    obtain ⟨hopen, hkind⟩ := unterminated?_eq_some_iff.mp hcause
    refine hkind (congrArg Unterminated.kind (IsOpenedBy.unique ?_ hopen))
    exact ⟨opening, Tail, hopening, by rw [List.append_assoc]; exact List.prefix_append _ _⟩
  · rw [hlongest, if_neg hpos.ne']

/-- A token of a kind that can be left open is a closed comment or literal. -/
theorem isClosed_of_begins {cause : Unterminated} {content rest : Text}
    (h : Begins cause.kind content rest) : IsClosed cause content := by
  obtain ⟨-, hkind, -, hsize⟩ := begins_iff.mp h
  obtain ⟨n, hn⟩ := exists_size?_of_longest hkind
  obtain ⟨opening, Tail, hopening, after, heq⟩ := isOpenedBy_of_size? hn
  have hpos := (stable_of_mem_all cause.rule_mem_all).pos hn
  rw [← heq] at hn
  rw [← heq, hopening.longest_eq hn, if_neg hpos.ne'] at hsize
  obtain ⟨tail, after, rfl, hshortest, rfl⟩ := hopening.size?_eq_some_iff.mp hn
  rw [← List.append_assoc] at heq
  exact ⟨opening, Tail, tail, hopening, hshortest, (List.append_inj_left heq hsize.symm).symm⟩

/-- What a text opens is left open, or the text begins with the closed comment or literal. -/
theorem isLeftOpenBy_or_isClosed {s : Text} {cause : Unterminated} (h : IsOpenedBy s cause) :
    IsLeftOpenBy s cause ∨ ∃ content rest, IsClosed cause content ∧ s = content ++ rest := by
  obtain ⟨opening, Tail, hopening, rest, rfl⟩ := h
  by_cases hclosed : ∃ tail, Tail tail ∧ tail <+: rest
  · obtain ⟨tail, htail, hpre⟩ := hclosed
    obtain ⟨tail, hshortest, after, rfl⟩ := exists_shortest htail hpre
    exact .inr ⟨opening ++ tail, after, ⟨opening, Tail, tail, hopening, hshortest, rfl⟩,
      (List.append_assoc opening tail after).symm⟩
  · exact .inl ⟨opening, Tail, rest, hopening, rfl, fun tail htail hpre =>
      hclosed ⟨tail, htail, hpre⟩⟩

/-- Where a text opens nothing, the lexer cuts a token of another kind off it. -/
theorem exists_next_of_not_isOpenedBy (hopen : ∀ cause, ¬ IsOpenedBy (b :: t) cause) :
    ∃ tok lx, Lexer.next ⟨b :: t, c⟩ = .ok (tok, lx) ∧ tok.kind ≠ .eof ∧
      ∀ cause : Unterminated, tok.kind ≠ cause.kind := by
  have hnone : unterminated? (longest (b :: t)).1 (b :: t) = none := by
    by_contra hsome
    obtain ⟨cause, hcause⟩ := Option.ne_none_iff_exists'.mp hsome
    exact hopen cause (unterminated?_eq_some_iff.mp hcause).1
  obtain ⟨tok, lx, hnext, hlongest⟩ : ∃ tok lx, Lexer.next ⟨b :: t, c⟩ = .ok (tok, lx) ∧
      tok.kind = (longest (b :: t)).1 := by
    simp only [Lexer.next, scan, hnone]
    exact ⟨_, _, rfl, rfl⟩
  refine ⟨tok, lx, hnext, ?_, fun cause hkind => ?_⟩
  · -- No rule finds the end of the text.
    rw [hlongest]
    rcases longest_cases (b :: t) with heq | ⟨rule, hrule, hkind, -⟩
    · rw [heq]
      decide
    · rw [← hkind]
      have hall : TokenKind.eof ∉ all.map Rule.kind := by decide
      exact fun heq => hall (heq ▸ List.mem_map_of_mem hrule)
  · obtain ⟨n, hn⟩ := exists_size?_of_longest (hlongest.symm.trans hkind)
    exact hopen cause (isOpenedBy_of_size? hn)

/-- The lexer fails exactly where a text opens a block comment, a raw string literal or a string
literal that no part of the text behind the opening closes. The failure says what was opened and
where, no token is cut off, and the lexer does not move. What is closed is the next token, which
ends with the first text that closes it, and a text that opens nothing begins with a nonempty token
of another kind. -/
theorem next_terminated (b : UInt8) (t : Text) (c : Cursor) :
    (∀ e, Lexer.next ⟨b :: t, c⟩ = .error e ↔
      e.location = c ∧ IsLeftOpenBy (b :: t) e.cause) ∧
    (∀ e, Lexer.next ⟨b :: t, c⟩ = .error e →
      e.message = c.text ++ utf8 ": " ++ e.cause.text ∧ lex (b :: t) c = ⟨[], some e⟩ ∧
        nextToken.run ⟨b :: t, c⟩ = .error e ⟨b :: t, c⟩) ∧
    (∀ cause, IsOpenedBy (b :: t) cause →
      IsLeftOpenBy (b :: t) cause ∨
        ∃ content rest, IsClosed cause content ∧ b :: t = content ++ rest) ∧
    (∀ (cause : Unterminated) content rest,
      Lexer.next ⟨b :: t, c⟩ = .ok (⟨cause.kind, c, content⟩, ⟨rest, c.advance content⟩) ↔
        IsClosed cause content ∧ b :: t = content ++ rest) ∧
    ((∀ cause, ¬ IsOpenedBy (b :: t) cause) →
      ∃ tok rest, Lexer.next ⟨b :: t, c⟩ = .ok (tok, ⟨rest, c.advance tok.content⟩) ∧
        tok.content ≠ [] ∧ b :: t = tok.content ++ rest ∧ tok.location = c ∧ tok.kind ≠ .eof ∧
        ∀ cause : Unterminated, tok.kind ≠ cause.kind) := by
  refine ⟨fun e => next_eq_error_iff, fun e h => ?_, fun cause => isLeftOpenBy_or_isClosed,
    fun cause content rest => ⟨fun h => ?_, fun h => ?_⟩, fun hopen => ?_⟩
  · obtain ⟨location, cause⟩ := e
    obtain ⟨rfl, -⟩ := next_eq_error_iff.mp h
    refine ⟨rfl, ?_, by rw [run_nextToken, h]⟩
    rw [lex, Lexer.run, dif_neg (List.cons_ne_nil b t)]
    split
    · next e he => rw [← Except.error.inj (h.symm.trans he)]
    · next he => exact absurd (h.symm.trans he) (by simp)
  · have hne : cause.kind ≠ .eof := by cases cause <;> decide
    obtain ⟨heq, hbegins⟩ := begins_of_next h hne
    exact ⟨isClosed_of_begins hbegins, heq⟩
  · obtain ⟨⟨opening, Tail, tail, hopening, hshortest, rfl⟩, heq⟩ := h
    rw [heq]
    exact (begins_of_opening hopening hshortest).next c
  · obtain ⟨tok, lx, hnext, heof, hkind⟩ := exists_next_of_not_isOpenedBy (c := c) hopen
    obtain ⟨heq, hbegins⟩ := begins_of_next hnext heof
    have hcut := hbegins.next c
    rw [← heq, hnext] at hcut
    obtain ⟨htok, hlx⟩ := Prod.mk.inj (Except.ok.inj hcut)
    rw [hlx] at hnext
    exact ⟨tok, lx.rest, hnext, hbegins.ne_nil, heq, congrArg Token.location htok, heof, hkind⟩

/-- One of two comments stays open, a raw literal ends with as many hashes as it began with, and a
raw identifier opens nothing. -/
theorem next_terminated_hashes :
    IsLeftOpenBy (Byte.slash :: utf8 "*/* a */ x") .blockComment ∧
      lex (Byte.slash :: utf8 "*/* a */ x") Cursor.start =
        ⟨[], some ⟨Cursor.start, .blockComment⟩⟩ ∧
      Lexer.next ⟨0x72 :: utf8 "#\"a\"b\"# c", Cursor.start⟩ =
        .ok (⟨.rawString, Cursor.start, utf8 "r#\"a\"b\"#"⟩,
          ⟨utf8 " c", Cursor.start.advance (utf8 "r#\"a\"b\"#")⟩) ∧
      IsClosed .rawString (utf8 "r#\"a\"b\"#") ∧
      ∃ tok rest, Lexer.next ⟨0x72 :: utf8 "#a", Cursor.start⟩ =
          .ok (tok, ⟨rest, Cursor.start.advance tok.content⟩) ∧ tok.content ≠ [] ∧
        ∀ cause : Unterminated, tok.kind ≠ cause.kind := by
  have hopen : ∀ cause, ¬ IsOpenedBy (0x72 :: utf8 "#a") cause := by
    rintro (_ | _ | _) h
    · exact absurd (isOpenedBy_blockComment_iff.mp h) (by decide)
    · exact absurd (isOpenedBy_rawString_iff.mp h) (by decide)
    · exact absurd (isOpenedBy_string_iff.mp h) (by decide)
  have hcomment : Lexer.next ⟨Byte.slash :: utf8 "*/* a */ x", Cursor.start⟩ =
      .error ⟨Cursor.start, .blockComment⟩ := by rfl
  have hraw : Lexer.next ⟨0x72 :: utf8 "#\"a\"b\"# c", Cursor.start⟩ =
      .ok (⟨.rawString, Cursor.start, utf8 "r#\"a\"b\"#"⟩,
        ⟨utf8 " c", Cursor.start.advance (utf8 "r#\"a\"b\"#")⟩) := by rfl
  have hleft := next_terminated Byte.slash (utf8 "*/* a */ x") Cursor.start
  obtain ⟨tok, rest, hnext, hne, -, -, -, hkind⟩ :=
    (next_terminated 0x72 (utf8 "#a") Cursor.start).2.2.2.2 hopen
  exact ⟨((hleft.1 _).mp hcomment).2, (hleft.2.1 _ hcomment).2.1, hraw,
    ((next_terminated _ _ _).2.2.2.1 .rawString _ _ |>.mp hraw).1, tok, rest, hnext, hne, hkind⟩

end Lexer

end CallConv
