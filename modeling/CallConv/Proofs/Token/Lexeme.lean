import Mathlib
import CallConv.Proofs.Token.Longest
import CallConv.Token.Group

/-!
# Lexemes

A lexeme is a token without its position. `Lexed` says that the lexer cuts the text of some lexemes
into just these lexemes, and `tokenize_eq_ok_iff` that the tokens of a text are lexed lexemes which
make up the text, each placed where the ones before it end. A run of lexed lexemes is lexed on its
own, whatever stood around it, which is what lets a part of a source be cut out and read again.
-/

namespace CallConv

/-- A token without its position. -/
structure Lexeme where
  /-- What the token is. -/
  kind : TokenKind
  /-- Its text. -/
  content : Text
deriving DecidableEq, Repr

/-- A token without its position. -/
def Token.lexeme (t : Token) : Lexeme := ⟨t.kind, t.content⟩

namespace Lexeme

/-- The text of a sequence of lexemes. -/
def join (ls : List Lexeme) : Text := ls.flatMap content

@[simp]
theorem join_nil : join [] = [] := rfl

@[simp]
theorem join_cons (l : Lexeme) (ls : List Lexeme) : join (l :: ls) = l.content ++ join ls := rfl

@[simp]
theorem join_append (ls ls' : List Lexeme) : join (ls ++ ls') = join ls ++ join ls' :=
  List.flatMap_append

/-- Whether a lexeme is trivia. -/
def isTrivia (l : Lexeme) : Bool := l.kind.isTrivia

/-- The lexemes that carry meaning. -/
def significant (ls : List Lexeme) : List Lexeme := ls.filter fun l => !l.isTrivia

@[simp]
theorem significant_append (ls ls' : List Lexeme) :
    significant (ls ++ ls') = significant ls ++ significant ls' := List.filter_append ls ls'

/-- The position after some lexemes that begin at `c`. -/
def after (c : Cursor) (ls : List Lexeme) : Cursor := ls.foldl (fun c l => c.advance l.content) c

/-- The tokens of some lexemes that begin at `c`. -/
def place (c : Cursor) : List Lexeme → List Token
  | [] => []
  | l :: ls => ⟨l.kind, c, l.content⟩ :: place (c.advance l.content) ls

/-- Lexemes behind others are placed where those end. -/
theorem place_append (c : Cursor) (ls ls' : List Lexeme) :
    place c (ls ++ ls') = place c ls ++ place (after c ls) ls' := by
  induction ls generalizing c with
  | nil => rfl
  | cons l ls ih => simp only [List.cons_append, place, ih, after, List.foldl_cons]

/-- Placing lexemes changes nothing but their positions. -/
@[simp]
theorem map_lexeme_place (c : Cursor) (ls : List Lexeme) : (place c ls).map Token.lexeme = ls := by
  induction ls generalizing c with
  | nil => rfl
  | cons l ls ih => simp only [place, List.map_cons, ih, Token.lexeme]

/-- The offset after some lexemes is that before them and the length of their text. -/
theorem offset_after (c : Cursor) (ls : List Lexeme) :
    (after c ls).offset = c.offset + (join ls).length := by
  induction ls generalizing c with
  | nil => simp [after]
  | cons l ls ih =>
    have hstep : (c.advance l.content).offset = c.offset + l.content.length := by
      unfold Cursor.advance
      simp only
      split <;> rfl
    calc (after c (l :: ls)).offset = (after (c.advance l.content) ls).offset := rfl
      _ = c.offset + l.content.length + (join ls).length := by rw [ih, hstep]
      _ = c.offset + (join (l :: ls)).length := by
        rw [join_cons, List.length_append]
        push_cast
        omega

end Lexeme

namespace Token

@[simp]
theorem join_nil : join [] = [] := rfl

@[simp]
theorem join_cons (t : Token) (ts : List Token) : join (t :: ts) = t.content ++ join ts := rfl

@[simp]
theorem join_append (ts us : List Token) : join (ts ++ us) = join ts ++ join us :=
  List.flatMap_append

end Token

/-- The text of tokens is that of their lexemes. -/
theorem Token.join_eq (ts : List Token) : Token.join ts = Lexeme.join (ts.map Token.lexeme) := by
  rw [Token.join, Lexeme.join, List.flatMap_map]
  rfl

/-- The significant lexemes of tokens are the lexemes of the significant tokens. -/
theorem map_lexeme_significant (ts : List Token) :
    (significant ts).map Token.lexeme = Lexeme.significant (ts.map Token.lexeme) := by
  rw [significant, Lexeme.significant, List.filter_map]
  rfl

section Significant

variable {ts us : List Token} {t : Token}

/-- The significant tokens of two rows of tokens are those of the two together. -/
theorem significant_append (ts us : List Token) :
    significant (ts ++ us) = significant ts ++ significant us := List.filter_append ts us

/-- Trivia carries no meaning. -/
theorem significant_of_trivia (h : ∀ t ∈ ts, t.isTrivia = true) : significant ts = [] :=
  List.filter_eq_nil_iff.mpr fun t ht => by simp [h t ht]

/-- Trivia in front does not count among the tokens that carry meaning. -/
theorem significant_cons_of_isTrivia (h : t.isTrivia = true) :
    significant (t :: ts) = significant ts := by
  simp [significant, h]

/-- Any other token in front is the first one that carries meaning. -/
theorem significant_cons (h : t.isTrivia = false) :
    significant (t :: ts) = t :: significant ts := by
  simp [significant, h]

end Significant

/-- The lexer cuts the text of the lexemes into just these lexemes. -/
def Lexed : List Lexeme → Prop
  | [] => True
  | l :: ls => Begins l.kind l.content (Lexeme.join ls) ∧ Lexed ls

namespace Lexed

variable {ls ls' : List Lexeme}

/-- The last lexemes of a text are what the lexer cuts their own text into. -/
theorem right (h : Lexed (ls ++ ls')) : Lexed ls' := by
  induction ls with
  | nil => exact h
  | cons l ls ih => exact ih h.2

/-- The first lexemes of a text are what the lexer cuts their own text into. -/
theorem left (h : Lexed (ls ++ ls')) : Lexed ls := by
  induction ls with
  | nil => trivial
  | cons l ls ih =>
    obtain ⟨hbegins, htail⟩ : Begins l.kind l.content (Lexeme.join (ls ++ ls')) ∧
        Lexed (ls ++ ls') := h
    rw [Lexeme.join_append] at hbegins
    exact ⟨hbegins.of_append, ih htail⟩

/-- No lexeme is empty. -/
theorem content_ne_nil (h : Lexed ls) {l : Lexeme} (hl : l ∈ ls) : l.content ≠ [] := by
  obtain ⟨before, after, rfl⟩ := List.append_of_mem hl
  exact h.right.1.ne_nil

/-- A lexeme begins the text of those from it on. -/
theorem begins {l : Lexeme} (h : Lexed (ls ++ l :: ls')) :
    Begins l.kind l.content (Lexeme.join ls') := h.right.1

end Lexed

/-! ## The tokens of a text -/

/-- The token at the start of a text lies within it. -/
theorem scan_size_le {b : UInt8} {t : Text} {kind : TokenKind} {size : Nat}
    (h : scan b t = .ok (kind, size)) : size ≤ (b :: t).length := by
  unfold scan at h
  simp only at h
  split at h
  · simp at h
  · simp only [Except.ok.injEq, Prod.mk.injEq] at h
    obtain ⟨-, rfl⟩ := h
    split
    · have := (Rune.extra_read_le b t).1
      simp only [Rune.width, List.length_cons]
      omega
    · next hne =>
      rcases Rule.longest_cases (b :: t) with hnone | ⟨rule, hrule, -, hsize⟩
      · rw [hnone] at hne
        exact absurd rfl hne
      · exact (Rule.stable_of_mem_all hrule).le_length hsize

/-- A token at the start of a text is cut off it, and the lexer moves behind it. -/
theorem Begins.next {kind : TokenKind} {x r : Text} (h : Begins kind x r) (c : Cursor) :
    Lexer.next ⟨x ++ r, c⟩ = .ok (⟨kind, c, x⟩, ⟨r, c.advance x⟩) := by
  rcases x with _ | ⟨b, x⟩
  · exact absurd rfl h.ne_nil
  · have hscan : scan b (x ++ r) = .ok (kind, (b :: x).length) := h
    simp only [Lexer.next, List.cons_append, hscan, Lexer.skip]
    rw [← List.cons_append, List.take_left, List.drop_left]

/-- What the lexer cuts off a text that is not at its end is the token that the text begins with. -/
theorem begins_of_next {lx lx' : Lexer} {t : Token} (h : lx.next = .ok (t, lx'))
    (hkind : t.kind ≠ .eof) :
    lx.rest = t.content ++ lx'.rest ∧ Begins t.kind t.content lx'.rest := by
  unfold Lexer.next at h
  split at h
  · obtain ⟨rfl, -⟩ := Prod.mk.inj (Except.ok.inj h)
    exact absurd rfl hkind
  · next b rest hrest =>
    split at h
    · simp at h
    · next kind size hscan =>
      obtain ⟨rfl, rfl⟩ := Prod.mk.inj (Except.ok.inj h)
      obtain ⟨k, rfl⟩ := Nat.exists_eq_succ_of_ne_zero (scan_size_pos hscan).ne'
      have hle : k ≤ rest.length := Nat.le_of_succ_le_succ (scan_size_le hscan)
      simp only [Lexer.skip, hrest, List.take_append_drop, true_and]
      show scan b (rest.take k ++ rest.drop k) = .ok (kind, (rest.take k).length + 1)
      rw [List.take_append_drop, List.length_take_of_le hle]
      exact hscan

/-- The text without bytes has no tokens. -/
theorem lex_nil (c : Cursor) : lex [] c = ⟨[], none⟩ := by
  unfold lex
  rw [Lexer.run]
  rfl

/-- A text is cut into its first token and the tokens of what follows, unless it begins with a
failure. -/
theorem lex_cons (b : UInt8) (t : Text) (c : Cursor) :
    lex (b :: t) c =
      match scan b t with
      | .error cause => ⟨[], some ⟨c, cause⟩⟩
      | .ok (kind, size) =>
        (lex ((b :: t).drop size) (c.advance ((b :: t).take size))).cons
          ⟨kind, c, (b :: t).take size⟩ := by
  unfold lex
  rw [Lexer.run, dif_neg (List.cons_ne_nil b t)]
  -- A step of the lexer is a scan, and moves the place behind the token.
  cases hscan : scan b t with
  | error cause =>
    have hnext : Lexer.next ⟨b :: t, c⟩ = .error ⟨c, cause⟩ := by
      simp only [Lexer.next, hscan]
    split
    · next e he =>
      rw [hnext] at he
      obtain rfl := Except.error.inj he
      rfl
    · next he =>
      rw [hnext] at he
      simp at he
  | ok found =>
    obtain ⟨kind, size⟩ := found
    have hnext : Lexer.next ⟨b :: t, c⟩ =
        .ok (⟨kind, c, (b :: t).take size⟩, Lexer.skip ⟨b :: t, c⟩ size) := by
      simp only [Lexer.next, hscan]
    split
    · next he =>
      rw [hnext] at he
      simp at he
    · next tok lx he =>
      rw [hnext] at he
      simp only [Except.ok.injEq, Prod.mk.injEq] at he
      obtain ⟨rfl, rfl⟩ := he
      rfl

/-- The text without bytes falls into no tokens. -/
theorem tokenize_nil (c : Cursor) : tokenize [] c = .ok [] := by
  rw [tokenize, lex_nil]
  rfl

/-- A text falls into its first token and the tokens of what follows. -/
theorem tokenize_cons (b : UInt8) (t : Text) (c : Cursor) :
    tokenize (b :: t) c =
      match scan b t with
      | .error cause => .error ⟨c, cause⟩
      | .ok (kind, size) =>
        (tokenize ((b :: t).drop size) (c.advance ((b :: t).take size))).map
          (⟨kind, c, (b :: t).take size⟩ :: ·) := by
  unfold tokenize
  rw [lex_cons]
  split
  · rfl
  · simp only [Lexing.cons, Lexing.toExcept]
    split <;> rfl

/-- What the lexer makes of a text: lexed lexemes from the start of it, each placed where the ones
before it end. What is left behind them is nothing, or begins with the failure. -/
structure Cuts (t : Text) (c : Cursor) (l : Lexing) (rest : Text) : Prop where
  /-- The tokens and what is left make up the text. -/
  join_eq : Lexeme.join (l.tokens.map Token.lexeme) ++ rest = t
  /-- The lexer cuts the text of the tokens into just these. -/
  lexed : Lexed (l.tokens.map Token.lexeme)
  /-- The tokens stand each where the ones before it end. -/
  place_eq : Lexeme.place c (l.tokens.map Token.lexeme) = l.tokens
  /-- Without a failure nothing is left. -/
  complete : l.error? = none → rest = []
  /-- A failure stands where the tokens end, and something is left there. -/
  stopped : ∀ e, l.error? = some e →
    rest ≠ [] ∧ e.location = Lexeme.after c (l.tokens.map Token.lexeme)

/-- The lexer cuts every text into tokens, up to its end or to a failure. -/
theorem exists_cuts (t : Text) (c : Cursor) : ∃ rest, Cuts t c (lex t c) rest := by
  -- Each token leaves a shorter text, whose tokens are the others.
  induction hlen : t.length using Nat.strong_induction_on generalizing t c with
  | _ n ih =>
    rcases t with _ | ⟨b, t⟩
    · rw [lex_nil]
      exact ⟨[], rfl, trivial, rfl, fun _ => rfl, by simp⟩
    rw [lex_cons]
    split
    · next cause hscan =>
      refine ⟨b :: t, rfl, trivial, rfl, by simp, ?_⟩
      rintro e he
      obtain rfl := Option.some.inj he
      exact ⟨List.cons_ne_nil b t, rfl⟩
    · next kind size hscan =>
      -- A token is not empty and lies in the text, so that the text can be cut behind it.
      obtain ⟨k, rfl⟩ := Nat.exists_eq_succ_of_ne_zero (scan_size_pos hscan).ne'
      have hle : k ≤ t.length := Nat.le_of_succ_le_succ (scan_size_le hscan)
      have hlt : ((b :: t).drop (k + 1)).length < n := by
        rw [← hlen, List.drop_succ_cons, List.length_drop, List.length_cons]
        omega
      obtain ⟨rest, hjoin, hlexed, hplace, hcomplete, hstopped⟩ :=
        ih _ hlt _ (c.advance ((b :: t).take (k + 1))) rfl
      have hbegins : Begins kind (b :: t.take k) ((b :: t).drop (k + 1)) := by
        show scan b (t.take k ++ t.drop k) = .ok (kind, (t.take k).length + 1)
        rw [List.take_append_drop, List.length_take_of_le hle]
        exact hscan
      rw [← hjoin] at hbegins
      refine ⟨rest, ?_, ⟨hbegins.of_append, hlexed⟩, congrArg _ hplace, hcomplete, hstopped⟩
      simp only [Lexing.cons, List.map_cons, Lexeme.join_cons, List.append_assoc, hjoin]
      exact List.take_append_drop (k + 1) (b :: t)

/-- The tokens of the text of lexed lexemes are these, each placed where the ones before it end. -/
theorem Lexed.tokenize_join {ls : List Lexeme} (h : Lexed ls) (c : Cursor) :
    tokenize (Lexeme.join ls) c = .ok (Lexeme.place c ls) := by
  induction ls generalizing c with
  | nil => exact tokenize_nil c
  | cons l ls ih =>
    obtain ⟨hbegins, htail⟩ := h
    obtain ⟨kind, _ | ⟨b, x⟩⟩ := l
    · exact absurd rfl hbegins.ne_nil
    · -- The first lexeme is what the scan finds, with the others as the text behind it.
      have hscan : scan b (x ++ Lexeme.join ls) = .ok (kind, (b :: x).length) := hbegins
      rw [Lexeme.join_cons, List.cons_append, tokenize_cons, hscan]
      simp only [← List.cons_append, List.take_left, List.drop_left, ih htail]
      rfl

/-- The lexemes of a text; a text that falls into no tokens has none. -/
def Text.lexemes (t : Text) : List Lexeme :=
  match tokenize t Cursor.start with
  | .ok ts => ts.map Token.lexeme
  | .error _ => []

/-- The lexemes of the text of lexed lexemes are these. -/
theorem Lexed.lexemes_join {ls : List Lexeme} (h : Lexed ls) :
    Text.lexemes (Lexeme.join ls) = ls := by
  rw [Text.lexemes, h.tokenize_join]
  exact Lexeme.map_lexeme_place _ _

/-- A text falls into tokens where no failure ends them. -/
theorem tokenize_eq_ok {t : Text} {c : Cursor} {ts : List Token} (h : tokenize t c = .ok ts) :
    lex t c = ⟨ts, none⟩ := by
  unfold tokenize Lexing.toExcept at h
  split at h
  · simp at h
  · next herror =>
    obtain rfl := Except.ok.inj h
    rw [← herror]

/-- The tokens of a text are lexed, make up the text, and stand each where the ones before it
end. -/
theorem tokenize_eq_ok_iff {t : Text} {c : Cursor} {ts : List Token} :
    tokenize t c = .ok ts ↔
      Lexed (ts.map Token.lexeme) ∧ Lexeme.join (ts.map Token.lexeme) = t ∧
        Lexeme.place c (ts.map Token.lexeme) = ts := by
  constructor
  · intro h
    obtain ⟨rest, hcuts⟩ := exists_cuts t c
    rw [tokenize_eq_ok h] at hcuts
    obtain rfl := hcuts.complete rfl
    have hjoin := hcuts.join_eq
    rw [List.append_nil] at hjoin
    exact ⟨hcuts.lexed, hjoin, hcuts.place_eq⟩
  · rintro ⟨hlexed, rfl, hplace⟩
    rw [hlexed.tokenize_join, hplace]

/-- The tokens of a text make up the text. -/
theorem join_of_tokenize {t : Text} {c : Cursor} {ts : List Token} (h : tokenize t c = .ok ts) :
    Token.join ts = t := by
  rw [Token.join_eq]
  exact (tokenize_eq_ok_iff.mp h).2.1

/-- Where tokens in a row are placed, the first of them are, and the others where those end. -/
theorem place_append_inj {c : Cursor} {before after : List Token}
    (h : Lexeme.place c ((before ++ after).map Token.lexeme) = before ++ after) :
    Lexeme.place c (before.map Token.lexeme) = before ∧
      Lexeme.place (Lexeme.after c (before.map Token.lexeme)) (after.map Token.lexeme) = after := by
  rw [List.map_append, Lexeme.place_append] at h
  have hlen : (Lexeme.place c (before.map Token.lexeme)).length = before.length := by
    rw [← List.length_map Token.lexeme, Lexeme.map_lexeme_place, List.length_map]
  exact List.append_inj h hlen

/-- The tokens behind some others of a text are placed where those end. -/
theorem place_of_tokenize {t : Text} {c : Cursor} {before after : List Token}
    (h : tokenize t c = .ok (before ++ after)) :
    Lexeme.place (Lexeme.after c (before.map Token.lexeme)) (after.map Token.lexeme) = after :=
  (place_append_inj (tokenize_eq_ok_iff.mp h).2.2).2

/-- The token behind some others of a text begins where those end. -/
theorem location_eq {t : Text} {c : Cursor} {before after : List Token} {tok : Token}
    (h : tokenize t c = .ok (before ++ tok :: after)) :
    tok.location = Lexeme.after c (before.map Token.lexeme) := by
  have hplace := place_of_tokenize h
  rw [List.map_cons, Lexeme.place] at hplace
  rw [← (List.cons.inj hplace).1]

/-- The token behind some others of a text begins at the offset after their text. -/
theorem location_offset_eq {t : Text} {c : Cursor} {before after : List Token} {tok : Token}
    (h : tokenize t c = .ok (before ++ tok :: after)) :
    tok.location.offset = c.offset + (Token.join before).length := by
  rw [location_eq h, Lexeme.offset_after, Token.join_eq]

/-- The text of tokens in a row is cut into just these tokens when it is read where the first of
them stands. -/
theorem tokenize_middle {t : Text} {c : Cursor} {before middle after : List Token} {tok : Token}
    (h : tokenize t c = .ok (before ++ (tok :: middle ++ after))) :
    tokenize (Token.join (tok :: middle)) tok.location = .ok (tok :: middle) := by
  have hlexed := (tokenize_eq_ok_iff.mp h).1
  rw [List.map_append, List.map_append] at hlexed
  have hplace := place_of_tokenize h
  refine tokenize_eq_ok_iff.mpr ⟨hlexed.right.left, (Token.join_eq _).symm, ?_⟩
  have hlocation : tok.location = Lexeme.after c (before.map Token.lexeme) := location_eq h
  rw [hlocation]
  exact (place_append_inj hplace).1

end CallConv
