import Mathlib
import CallConv.Proofs.Token.Position

/-!
# Texts at another place

A text is cut into the same tokens wherever it begins, and only their positions differ.
`Cursor.rebase` moves the positions: what stands at `o`, or on a line behind it, is sent to where it
stands when the text begins at `o'`. On the line of `o` the column moves along, on the lines behind
it the column is counted from the line break and stays.

The readers of groups look at the kinds and the contents of tokens only, so that each of them
commutes with every change of the positions.
-/

namespace CallConv

/-- A result with a failure and a value each changed in its own way. -/
def mapBoth {ε ε' α α' : Type} (g : ε → ε') (h : α → α') : Except ε α → Except ε' α'
  | .ok a => .ok (h a)
  | .error e => .error (g e)

namespace Cursor

/-- Where a position of a text stands when the text begins at `o'` instead of `o`. -/
def rebase (o o' c : Cursor) : Cursor where
  line := o'.line + (c.line - o.line)
  column := if c.line = o.line then o'.column + (c.column - o.column) else c.column
  offset := o'.offset + (c.offset - o.offset)

variable (o o' : Cursor)

/-- The beginning of the text is sent to its new beginning. -/
@[simp]
theorem rebase_self : rebase o o' o = o' := by
  simp [rebase]

/-- Offsets keep their differences. -/
theorem offset_rebase_sub (c d : Cursor) :
    (rebase o o' c).offset - (rebase o o' d).offset = c.offset - d.offset := by
  simp only [rebase]
  omega

/-- A text behind the beginning is passed over in the same way at both places. -/
theorem rebase_advance {c : Cursor} (h : o.line ≤ c.line) (t : Text) :
    rebase o o' (c.advance t) = (rebase o o' c).advance t := by
  by_cases ht : t.count Byte.newline = 0
  · simp only [advance, if_pos ht, rebase]
    split <;> simp <;> omega
  · -- Behind a line break the column counts from it at both places.
    have hline : ¬ c.line + (t.count Byte.newline : Int) = o.line := by omega
    simp only [advance, if_neg ht, rebase, if_neg hline, mk.injEq, true_and]
    omega

/-- Passing over nothing leads nowhere. -/
@[simp]
theorem advance_nil (c : Cursor) : c.advance [] = c := by
  simp [advance, Text.runeCount, Text.runes, Text.runesAfter]

/-- Passing over a text never leads to a line before. -/
theorem line_le_advance (c : Cursor) (t : Text) : c.line ≤ (c.advance t).line := by
  rw [line_advance]
  omega

end Cursor

namespace Token

variable (f : Cursor → Cursor)

/-- A token with its position changed. -/
def move (t : Token) : Token := { t with location := f t.location }

@[simp]
theorem kind_move (t : Token) : (t.move f).kind = t.kind := rfl

@[simp]
theorem content_move (t : Token) : (t.move f).content = t.content := rfl

@[simp]
theorem location_move (t : Token) : (t.move f).location = f t.location := rfl

@[simp]
theorem isWord_move (t : Token) (word : Text) : (t.move f).isWord word = t.isWord word := rfl

@[simp]
theorem join_map_move (ts : List Token) : join (ts.map (move f)) = join ts := by
  rw [join, List.flatMap_map]
  rfl

end Token

/-! ## The lexer -/

/-- A failure of the lexer with its position changed. -/
def LexError.move (f : Cursor → Cursor) (e : LexError) : LexError :=
  { e with location := f e.location }

/-- A text that begins elsewhere is cut into the same tokens, or fails in the same way, and all
positions move along. -/
theorem tokenize_rebase {o c : Cursor} (o' : Cursor) (h : o.line ≤ c.line) (t : Text) :
    tokenize t (o.rebase o' c) =
      mapBoth (LexError.move (o.rebase o')) (List.map (Token.move (o.rebase o')))
        (tokenize t c) := by
  -- Each token leaves a shorter text, which begins on no line before.
  induction hlen : t.length using Nat.strong_induction_on generalizing t c with
  | _ n ih =>
    rcases t with _ | ⟨b, t⟩
    · rw [tokenize_nil, tokenize_nil]
      rfl
    rw [tokenize_cons, tokenize_cons]
    cases hscan : scan b t with
    | error cause => rfl
    | ok found =>
      obtain ⟨kind, size⟩ := found
      have hpos := scan_size_pos hscan
      have hlt : ((b :: t).drop size).length < n := by
        rw [← hlen, List.length_drop, List.length_cons]
        omega
      have hline := h.trans (c.line_le_advance ((b :: t).take size))
      simp only [← Cursor.rebase_advance o o' h, ih _ hlt hline _ rfl]
      cases tokenize ((b :: t).drop size) (c.advance ((b :: t).take size)) <;> rfl

/-- The tokens of a text stand on no line before its beginning. -/
theorem line_le_of_tokenize {t : Text} {c : Cursor} {ts : List Token}
    (h : tokenize t c = .ok ts) : ∀ tok ∈ ts, c.line ≤ tok.location.line := by
  intro tok hmem
  obtain ⟨before, after, rfl⟩ := List.append_of_mem hmem
  have hlexed := (tokenize_eq_ok_iff.mp h).1
  rw [List.map_append] at hlexed
  rw [location_eq h, hlexed.left.after_eq]
  exact c.line_le_advance _

/-- A token of a text stands behind a part of the text. -/
theorem exists_prefix_of_mem {t : Text} {c : Cursor} {ts : List Token} {tok : Token}
    (h : tokenize t c = .ok ts) (hmem : tok ∈ ts) :
    ∃ p, p <+: t ∧ tok.location = c.advance p := by
  obtain ⟨before, after, rfl⟩ := List.append_of_mem hmem
  obtain ⟨hlexed, hjoin, -⟩ := tokenize_eq_ok_iff.mp h
  rw [List.map_append] at hlexed hjoin
  refine ⟨Lexeme.join (before.map Token.lexeme), ⟨_, by rw [← hjoin, Lexeme.join_append]⟩, ?_⟩
  rw [location_eq h, hlexed.left.after_eq]

/-- A text falls into no tokens behind a part of it. -/
theorem exists_prefix_of_tokenize {t : Text} {c : Cursor} {e : LexError}
    (h : tokenize t c = .error e) : ∃ p, p <+: t ∧ e.location = c.advance p := by
  obtain ⟨rest, hcuts⟩ := exists_cuts t c
  have herror : (lex t c).error? = some e := by
    unfold tokenize Lexing.toExcept at h
    split at h
    · next e' herror =>
      rw [herror, Except.error.inj h]
    · simp at h
  refine ⟨_, ⟨rest, hcuts.join_eq⟩, ?_⟩
  rw [(hcuts.stopped e herror).2, hcuts.lexed.after_eq]

/-! ## The readers of groups -/

section Groups

variable (f : Cursor → Cursor)

/-- One step of a reader after another commutes with a change if each of them does. -/
theorem bind_natural {α α' β β' : Type} {x : Option α} {x' : Option α'} {g : α → α'} {h : β → β'}
    {k : α → Option β} {k' : α' → Option β'} (hx : x' = x.map g)
    (hk : ∀ a, k' (g a) = (k a).map h) : x'.bind k' = (x.bind k).map h := by
  subst hx
  cases x with
  | none => rfl
  | some a => exact hk a

@[simp]
theorem significant_map_move (ts : List Token) :
    significant (ts.map (Token.move f)) = (significant ts).map (Token.move f) := by
  rw [significant, significant, List.filter_map]
  rfl

namespace Group

@[simp]
theorem step_move (closer : TokenKind) (outer : List TokenKind) (t : Token) :
    step closer outer (t.move f) = step closer outer t := rfl

@[simp]
theorem enter_move (angles : Bool) (t : Token) : enter angles (t.move f) = enter angles t := rfl

@[simp]
theorem close_map_move (owed : List TokenKind) (ts : List Token) :
    close owed (ts.map (Token.move f)) = (close owed ts).map (List.map (Token.move f)) := by
  induction ts generalizing owed with
  | nil => cases owed <;> rfl
  | cons t ts ih =>
    cases owed with
    | nil => rfl
    | cons closer outer =>
      simp only [List.map_cons, close, step_move, Option.map_bind]
      exact congrArg _ (funext fun owed => ih owed)

theorem splitUntil_map_move {stop : Token → Bool} (hstop : ∀ t : Token, stop (t.move f) = stop t)
    (angles : Bool) (owed : List TokenKind) (ts : List Token) :
    splitUntil stop angles owed (ts.map (Token.move f)) =
      (splitUntil stop angles owed ts).map
        (Prod.map (List.map (Token.move f)) (List.map (Token.move f))) := by
  induction ts generalizing owed with
  | nil => cases owed <;> rfl
  | cons t ts ih =>
    cases owed with
    | nil =>
      simp only [List.map_cons, splitUntil, hstop, enter_move, Option.bind_eq_bind]
      split
      · rfl
      · cases enter angles t with
        | none => rfl
        | some owed =>
          simp only [Option.bind_some, ih]
          cases splitUntil stop angles owed ts <;> rfl
    | cons closer outer =>
      simp only [List.map_cons, splitUntil, step_move, Option.bind_eq_bind]
      cases step closer outer t with
      | none => rfl
      | some owed =>
        simp only [Option.bind_some, ih]
        cases splitUntil stop angles owed ts <;> rfl

end Group

@[simp]
theorem skipGroup?_map_move (ts : List Token) :
    skipGroup? (ts.map (Token.move f)) = (skipGroup? ts).map (List.map (Token.move f)) := by
  cases ts with
  | nil => rfl
  | cons t ts =>
    simp only [List.map_cons, skipGroup?, Token.kind_move]
    cases t.kind.closing? with
    | none => rfl
    | some closer => exact Group.close_map_move f [closer] ts

@[simp]
theorem skipAngles?_map_move (ts : List Token) :
    skipAngles? (ts.map (Token.move f)) = (skipAngles? ts).map (List.map (Token.move f)) := by
  cases ts with
  | nil => rfl
  | cons t ts => by_cases ht : t.kind = .less <;> simp [skipAngles?, ht]

theorem head?_kind_map_move (ts : List Token) :
    (ts.map (Token.move f)).head?.map Token.kind = ts.head?.map Token.kind := by
  cases ts <;> rfl

@[simp]
theorem skipOptionalAngles?_map_move (ts : List Token) :
    skipOptionalAngles? (ts.map (Token.move f)) =
      (skipOptionalAngles? ts).map (List.map (Token.move f)) := by
  unfold skipOptionalAngles?
  rw [head?_kind_map_move]
  split <;> simp

@[simp]
theorem startsWithKind_map_move (kind : TokenKind) (ts : List Token) :
    startsWithKind kind (ts.map (Token.move f)) = startsWithKind kind ts := by
  rw [startsWithKind, head?_kind_map_move, startsWithKind]

theorem splitUntil?_map_move {stop : Token → Bool} (hstop : ∀ t : Token, stop (t.move f) = stop t)
    (angles : Bool) (ts : List Token) :
    splitUntil? stop angles (ts.map (Token.move f)) =
      (splitUntil? stop angles ts).map
        (Prod.map (List.map (Token.move f)) (List.map (Token.move f))) :=
  Group.splitUntil_map_move f hstop angles [] ts

@[simp]
theorem accept?_map_move (kind : TokenKind) (ts : List Token) :
    accept? kind (ts.map (Token.move f)) =
      (accept? kind ts).map (Prod.map (Token.move f) (List.map (Token.move f))) := by
  cases ts with
  | nil => rfl
  | cons t ts => by_cases ht : t.kind = kind <;> simp [accept?, ht]

@[simp]
theorem acceptWord?_map_move (word : Text) (ts : List Token) :
    acceptWord? word (ts.map (Token.move f)) =
      (acceptWord? word ts).map (Prod.map (Token.move f) (List.map (Token.move f))) := by
  cases ts with
  | nil => rfl
  | cons t ts => by_cases ht : t.isWord word = true <;> simp [acceptWord?, ht]

@[simp]
theorem skipWord_map_move (word : Text) (ts : List Token) :
    skipWord word (ts.map (Token.move f)) = (skipWord word ts).map (Token.move f) := by
  unfold skipWord
  rw [acceptWord?_map_move]
  cases acceptWord? word ts <;> rfl

@[simp]
theorem skipVisibility?_map_move (ts : List Token) :
    skipVisibility? (ts.map (Token.move f)) =
      (skipVisibility? ts).map (List.map (Token.move f)) := by
  unfold skipVisibility?
  rw [acceptWord?_map_move]
  cases acceptWord? (utf8 "pub") ts with
  | none => rfl
  | some found =>
    simp only [Option.map_some, Prod.map, startsWithKind_map_move]
    split <;> simp

theorem startsAttribute_map_move {ts : List Token} :
    StartsAttribute (ts.map (Token.move f)) ↔ StartsAttribute ts := by
  constructor
  · rintro ⟨hash, bracket, body, heq, hhash, hbracket⟩
    rcases ts with _ | ⟨t, _ | ⟨t', ts⟩⟩
    · simp at heq
    · simp at heq
    · obtain ⟨rfl, rfl, rfl⟩ : t.move f = hash ∧ t'.move f = bracket ∧
          ts.map (Token.move f) = body := by simpa using heq
      exact ⟨t, t', ts, rfl, hhash, hbracket⟩
  · rintro ⟨hash, bracket, body, rfl, hhash, hbracket⟩
    exact ⟨hash.move f, bracket.move f, body.map (Token.move f), rfl, hhash, hbracket⟩

@[simp]
theorem skipAttributes?_map_move (ts : List Token) :
    skipAttributes? (ts.map (Token.move f)) =
      (skipAttributes? ts).map (List.map (Token.move f)) := by
  induction hlen : ts.length using Nat.strong_induction_on generalizing ts with
  | _ n ih =>
    by_cases hstarts : StartsAttribute ts
    · obtain ⟨hash, bracket, body, rfl, hhash, hbracket⟩ := hstarts
      rw [List.map_cons, List.map_cons, skipAttributes?_attribute _ hhash hbracket,
        skipAttributes?_attribute _ (by exact hhash) (by exact hbracket), Group.close_map_move]
      cases hclose : Group.close [.bracketRight] body with
      | none => rfl
      | some rest =>
        have hle := Group.length_le_of_close hclose
        exact ih rest.length (by rw [← hlen]; simp only [List.length_cons]; omega) rest rfl
    · rw [skipAttributes?_of_not hstarts,
        skipAttributes?_of_not (mt (startsAttribute_map_move f).mp hstarts)]
      rfl

end Groups

end CallConv
