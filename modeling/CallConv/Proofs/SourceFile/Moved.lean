import Mathlib
import CallConv.Proofs.Declaration.Moved
import CallConv.Proofs.SourceFile.Search
import CallConv.SourceFile.Expand

/-!
# Files at another place

The search for attributes looks at the kinds and contents of tokens only, and an item is read as a
text of its own where it stands. So the tokens of a text that begins elsewhere are expanded in the
same way, to the same output, and all positions in the items and in the failures move along
(`expandTokens_rebase`).
-/

namespace CallConv

variable (f : Cursor → Cursor)

@[simp]
theorem dropTrivia_map_move (ts : List Token) :
    dropTrivia (ts.map (Token.move f)) = (dropTrivia ts).map (Token.move f) := by
  rw [dropTrivia, List.dropWhile_map]
  rfl

@[simp]
theorem before_map_move (ts rest : List Token) :
    before (ts.map (Token.move f)) (rest.map (Token.move f)) =
      (before ts rest).map (Token.move f) := by
  simp [before]

@[simp]
theorem skipDepth?_map_move (depth : Nat) (ts : List Token) :
    skipDepth? depth (ts.map (Token.move f)) =
      (skipDepth? depth ts).map (List.map (Token.move f)) := by
  induction ts generalizing depth with
  | nil => cases depth <;> rfl
  | cons t ts ih =>
    cases depth with
    | zero => rfl
    | succ depth =>
      have hopening : (t.move f).isOpening = t.isOpening := rfl
      simp only [List.map_cons, skipDepth?, hopening, Token.kind_move, ih]
      split
      · rfl
      · split <;> rfl

namespace Attribute

/-- Reading a path, one segment at a time. -/
theorem readPath_eq (ts : List Token) :
    readPath ts =
      match dropTrivia ts with
      | [] => ([], [])
      | t :: rest =>
        if t.kind = .identifier then
          match dropTrivia rest with
          | [] => ([t.content], rest)
          | separator :: rest' =>
            if separator.kind = .pathSeparator then
              (t.content :: (readPath rest').1, (readPath rest').2)
            else ([t.content], rest)
        else ([], t :: rest) := by
  rw [readPath]
  split
  · next h => rw [h]
  · next t rest h =>
    rw [h]
    split
    · next hkind =>
      simp only [if_pos hkind]
      split
      · next h' => rw [h']
      · next separator rest' h' => rw [h']
    · next hkind => simp only [if_neg hkind]

@[simp]
theorem readPath_map_move (ts : List Token) :
    readPath (ts.map (Token.move f)) =
      Prod.map id (List.map (Token.move f)) (readPath ts) := by
  induction hlen : ts.length using Nat.strong_induction_on generalizing ts with
  | _ n ih =>
    rw [readPath_eq, readPath_eq, dropTrivia_map_move]
    match h : dropTrivia ts with
    | [] => rfl
    | t :: rest =>
      simp only [List.map_cons, Token.kind_move, Token.content_move, dropTrivia_map_move]
      split
      · match h' : dropTrivia rest with
        | [] => rfl
        | separator :: rest' =>
          -- The path goes on with fewer tokens.
          have h₁ := length_dropTrivia_le ts
          have h₂ := length_dropTrivia_le rest
          rw [h, List.length_cons] at h₁
          rw [h', List.length_cons] at h₂
          simp only [List.map_cons, Token.kind_move, ih rest'.length (by omega) rest' rfl]
          split <;> rfl
      · rfl

/-- Passing over the attributes of an item, one attribute at a time. -/
theorem skipItemAttributes?_eq (ts : List Token) :
    skipItemAttributes? ts =
      match dropTrivia ts with
      | [] => some []
      | hash :: rest =>
        if hash.kind = .hash then
          match dropTrivia rest with
          | [] => none
          | bracket :: rest' =>
            if bracket.kind = .bracketLeft then (skipDepth? 1 rest').bind skipItemAttributes?
            else none
        else some (hash :: rest) := by
  rw [skipItemAttributes?]
  split
  · next h => rw [h]
  · next hash rest h =>
    rw [h]
    split
    · next hkind =>
      simp only [if_pos hkind]
      split
      · next h' => rw [h']
      · next bracket rest' h' =>
        rw [h']
        split
        · next hbracket =>
          simp only [if_pos hbracket]
          split
          · next after hafter => rw [hafter]; rfl
          · next hafter => rw [hafter]; rfl
        · next hbracket => simp only [if_neg hbracket]
    · next hkind => simp only [if_neg hkind]

@[simp]
theorem skipItemAttributes?_map_move (ts : List Token) :
    skipItemAttributes? (ts.map (Token.move f)) =
      (skipItemAttributes? ts).map (List.map (Token.move f)) := by
  induction hlen : ts.length using Nat.strong_induction_on generalizing ts with
  | _ n ih =>
    rw [skipItemAttributes?_eq, skipItemAttributes?_eq, dropTrivia_map_move]
    match h : dropTrivia ts with
    | [] => rfl
    | hash :: rest =>
      simp only [List.map_cons, Token.kind_move, dropTrivia_map_move]
      split
      · match h' : dropTrivia rest with
        | [] => rfl
        | bracket :: rest' =>
          simp only [List.map_cons, Token.kind_move, skipDepth?_map_move]
          split
          · cases hskip : skipDepth? 1 rest' with
            | none => rfl
            | some after =>
              -- The next attribute stands among fewer tokens.
              have h₁ := length_dropTrivia_le ts
              have h₂ := length_dropTrivia_le rest
              have h₃ := length_le_of_skipDepth? hskip
              rw [h, List.length_cons] at h₁
              rw [h', List.length_cons] at h₂
              exact ih after.length (by omega) after rfl
          · rfl
      · rfl

@[simp]
theorem startsWithWord_map_move (words : List Text) (ts : List Token) :
    startsWithWord words (ts.map (Token.move f)) = startsWithWord words ts := by
  cases ts <;> rfl

@[simp]
theorem skipItemVisibility?_map_move (ts : List Token) :
    skipItemVisibility? (ts.map (Token.move f)) =
      (skipItemVisibility? ts).map (List.map (Token.move f)) := by
  unfold skipItemVisibility?
  simp only [startsWithWord_map_move, ← List.map_drop, dropTrivia_map_move]
  split
  · match dropTrivia (ts.drop 1) with
    | [] => rfl
    | t :: rest =>
      simp only [List.map_cons, Token.kind_move, skipDepth?_map_move]
      split
      · cases skipDepth? 1 rest with
        | none => rfl
        | some after => exact congrArg some (dropTrivia_map_move f after)
      · rfl
  · rfl

@[simp]
theorem endsAtSemicolon_map_move (ts : List Token) :
    endsAtSemicolon (ts.map (Token.move f)) = endsAtSemicolon ts := by
  unfold endsAtSemicolon
  rw [skipItemVisibility?_map_move]
  cases skipItemVisibility? ts with
  | none => rfl
  | some ts => simp only [Option.map_some, startsWithWord_map_move, ← List.map_drop,
      dropTrivia_map_move]

@[simp]
theorem skipItemBody?_map_move (needed : Bool) (depth : Nat) (ts : List Token) :
    skipItemBody? needed depth (ts.map (Token.move f)) =
      (skipItemBody? needed depth ts).map (List.map (Token.move f)) := by
  induction ts generalizing depth with
  | nil => cases depth <;> rfl
  | cons t ts ih =>
    have hopening : (t.move f).isOpening = t.isOpening := rfl
    cases depth with
    | zero =>
      simp only [List.map_cons, skipItemBody?, hopening, Token.kind_move, ih, skipDepth?_map_move]
      split_ifs <;> rfl
    | succ depth =>
      simp only [List.map_cons, skipItemBody?, hopening, Token.kind_move, ih]
      split_ifs <;> rfl

@[simp]
theorem skipItem?_map_move (ts : List Token) :
    skipItem? (ts.map (Token.move f)) = (skipItem? ts).map (List.map (Token.move f)) :=
  bind_natural (skipItemAttributes?_map_move f ts) fun body => by
    rw [endsAtSemicolon_map_move, skipItemBody?_map_move]

end Attribute

/-! ## Findings -/

/-- A failure of an attribute with its position changed. -/
def AttributeError.move : AttributeError → AttributeError
  | malformed location => malformed (f location)
  | missingItem location => missingItem (f location)

/-- An attribute and its item with their positions changed. -/
def AnnotatedItem.move (a : AnnotatedItem) : AnnotatedItem :=
  ⟨f a.location, a.arguments.map (Token.move f), f a.finish, a.item.map (Token.move f)⟩

/-- A finding of the search with its positions changed. -/
def Finding.move : Finding → Finding
  | finished => finished
  | passed e? rest => passed (e?.map (AttributeError.move f)) (rest.map (Token.move f))
  | found a rest => found (a.move f) (rest.map (Token.move f))

namespace Attribute

theorem finish_map_move (location : Cursor) (ts : List Token) :
    finish (f location) (ts.map (Token.move f)) = (finish location ts).move f := by
  have hblank (ts : List Token) : (ts.map (Token.move f)).dropWhile Token.isBlank =
      (ts.dropWhile Token.isBlank).map (Token.move f) := by
    rw [List.dropWhile_map]
    rfl
  unfold finish
  rw [dropTrivia_map_move]
  match dropTrivia ts with
  | [] => rfl
  | paren :: arguments =>
    simp only [List.map_cons, Token.kind_move, skipDepth?_map_move]
    split
    · cases skipDepth? 1 arguments with
      | none => rfl
      | some afterArguments =>
        simp only [Option.map_some, dropTrivia_map_move]
        match dropTrivia afterArguments with
        | [] => rfl
        | bracket :: afterAttribute =>
          simp only [List.map_cons, Token.kind_move, hblank, skipItem?_map_move]
          split
          · cases skipItem? (afterAttribute.dropWhile Token.isBlank) with
            | none => rfl
            | some rest =>
              have hlast (us : List Token) :
                  ((us.map (Token.move f)).getLast?.map Token.location).getD (f location) =
                    f ((us.getLast?.map Token.location).getD location) := by
                rw [List.getLast?_map]
                cases us.getLast? <;> rfl
              simp only [Option.map_some, before_map_move, ← List.map_dropLast, hlast]
              rfl
          · rfl
    · rfl

/-- The search finds the same among moved tokens. -/
theorem search_map_move (ts : List Token) :
    search (ts.map (Token.move f)) = (search ts).move f := by
  unfold search
  rw [dropTrivia_map_move]
  match dropTrivia ts with
  | [] => rfl
  | hash :: rest =>
    simp only [List.map_cons, Token.kind_move, dropTrivia_map_move]
    split
    · match dropTrivia rest with
      | [] => rfl
      | bracket :: inner =>
        simp only [List.map_cons, Token.kind_move, readPath_map_move, Prod.map, id_eq]
        split
        · split
          · exact finish_map_move f hash.location (readPath inner).2
          · rfl
        · rfl
    · rfl

end Attribute

/-! ## Directives -/

/-- A failure to read a directive with its position changed. -/
def DirectiveError.move : DirectiveError → DirectiveError
  | lex e => lex (e.move f)
  | empty location => empty (f location)
  | invalid location => invalid (f location)
  | argument expected found => argument expected (found.move f)

namespace Directive

theorem readShortcut_move (t : Token) :
    readShortcut (t.move f) = mapBoth (DirectiveError.move f) id (readShortcut t) := by
  have hkind : isShortcutToken (t.move f) = isShortcutToken t := rfl
  unfold readShortcut
  rw [hkind, Token.content_move]
  split_ifs <;> rfl

theorem readEqual_move (t : Token) :
    readEqual (t.move f) = mapBoth (DirectiveError.move f) id (readEqual t) := by
  unfold readEqual
  rw [Token.kind_move]
  split_ifs <;> rfl

theorem readAbi_move (t : Token) :
    readAbi (t.move f) = mapBoth (DirectiveError.move f) id (readAbi t) := by
  have hliteral : Abi.isLiteral (t.move f) = Abi.isLiteral t := rfl
  have hname : Abi.ofLiteral (t.move f) = Abi.ofLiteral t := rfl
  unfold readAbi
  rw [hliteral, hname]
  split_ifs <;> rfl

theorem readEntries_map_move (finish : Cursor) (ts : List Token) :
    readEntries (f finish) (ts.map (Token.move f)) =
      mapBoth (DirectiveError.move f) (List.map (TableEntry.move f)) (readEntries finish ts) := by
  fun_induction readEntries finish ts with
  | case1 shortcut sign literal rest ih =>
    simp only [List.map_cons, readEntries, readShortcut_move, readEqual_move, readAbi_move]
    cases readShortcut shortcut with
    | error e => rfl
    | ok name =>
    cases readEqual sign with
    | error e => rfl
    | ok _ =>
    cases readAbi literal with
    | error e => rfl
    | ok abi =>
    cases rest with
    | nil => rfl
    | cons separator rest =>
      have hrest : readEntries (f finish) (rest.map (Token.move f)) =
          mapBoth (DirectiveError.move f) (List.map (TableEntry.move f))
            (readEntries finish rest) := ih
      simp only [mapBoth, id_eq, List.map_cons, bind, Except.bind, Token.kind_move, hrest]
      split
      · cases readEntries finish rest <;> rfl
      · rfl
  | case2 shortcut sign =>
    simp only [List.map_cons, List.map_nil, readEntries, readShortcut_move, readEqual_move]
    cases readShortcut shortcut with
    | error e => rfl
    | ok name => cases readEqual sign <;> rfl
  | case3 shortcut =>
    simp only [List.map_cons, List.map_nil, readEntries, readShortcut_move]
    cases readShortcut shortcut <;> rfl
  | case4 => rfl

/-- A directive is read in the same way wherever it is written. -/
theorem ofTokens_map_move (finish : Cursor) (ts : List Token) :
    ofTokens (f finish) (ts.map (Token.move f)) =
      mapBoth (DirectiveError.move f) (move f) (ofTokens finish ts) := by
  unfold ofTokens
  rw [significant_map_move]
  match significant ts with
  | [] => rfl
  | first :: rest =>
    have hshortcut : isShortcutToken (first.move f) = isShortcutToken first := rfl
    simp only [List.map_cons, ofSignificant, Token.kind_move, hshortcut, readAbi_move]
    split
    · cases readAbi first with
      | error e => rfl
      | ok abi => cases rest <;> rfl
    · split
      · rw [← List.map_cons, readEntries_map_move]
        cases readEntries finish (first :: rest) <;> rfl
      · rfl

end Directive

/-! ## Expansions -/

/-- An expanded item with its position changed. -/
def ExpandedItem.move (i : ExpandedItem) : ExpandedItem := { i with location := f i.location }

/-- A failure to expand an attribute with its position changed. -/
def ExpandError.move : ExpandError → ExpandError
  | lex e => lex (e.move f)
  | attr e => attr (e.move f)
  | directive e => directive (e.move f)
  | classify e => classify (e.move f)
  | apply e => apply (e.move f f)

/-- An expansion with its positions changed. -/
def Expansion.move (x : Expansion) : Expansion :=
  ⟨x.items.map (ExpandedItem.move f), x.errors.map (ExpandError.move f), x.output⟩

variable {o : Cursor} (o' : Cursor) (target : Target)

/-- An attribute is expanded in the same way wherever it stands with its item. -/
theorem AnnotatedItem.expand_rebase {a : AnnotatedItem} (hlocation : o.line ≤ a.location.line)
    (hitem : ∀ t ∈ a.item, o.line ≤ t.location.line) :
    (a.move (o.rebase o')).expand target =
      mapBoth (ExpandError.move (o.rebase o')) (Prod.map (ExpandedItem.move (o.rebase o')) id)
        (a.expand target) := by
  -- The item begins behind `o`.
  have horigin : o.line ≤ a.origin.line := by
    rw [AnnotatedItem.origin]
    cases hhead : a.item.head? with
    | none => exact hlocation
    | some t => exact hitem t (List.mem_of_head? hhead)
  have hmoved : (a.move (o.rebase o')).origin = o.rebase o' a.origin := by
    simp only [origin, move, List.head?_map]
    cases a.item.head? <;> rfl
  have hargs := Directive.ofTokens_map_move (o.rebase o') a.finish a.arguments
  unfold expand expandText
  rw [hmoved]
  simp only [move, Token.join_map_move, hargs, Declaration.classify_rebase o' horigin]
  cases Directive.ofTokens a.finish a.arguments with
  | error e => rfl
  | ok directive =>
  cases hd : Declaration.classify (Token.join a.item) a.origin with
  | error e => rfl
  | ok d =>
    have hbehind := Declaration.behind_of_classify horigin hd
    simp only [mapBoth, Declaration.apply_rebase o' hbehind]
    cases d.apply directive target with
    | error e => rfl
    | ok result => simp [ExpandedItem.move]

/-- Expanding tokens, one finding at a time. -/
theorem expandTokens_eq (ts : List Token) :
    expandTokens target ts =
      match Attribute.search ts with
      | .finished => ⟨[], [], Token.join ts⟩
      | .passed none rest => (expandTokens target rest).prepend (Token.join (before ts rest))
      | .passed (some e) rest => (expandTokens target rest).fail (.attr e)
      | .found annotated rest =>
        match annotated.expand target with
        | .error e => (expandTokens target rest).fail e
        | .ok (i, text) =>
          ((expandTokens target rest).prepend
            (Token.join (ts.takeWhile Token.isTrivia) ++ text)).add i := by
  rw [expandTokens]
  split
  · next h => rw [h]
  · next rest h => rw [h]
  · next e rest h => rw [h]
  · next a rest h =>
    cases hexpand : a.expand target with
    | error e => simp only [h, hexpand]
    | ok result => simp only [h, hexpand]

/-- No tokens are expanded to nothing. -/
theorem expandTokens_nil (target : Target) : expandTokens target [] = ⟨[], [], []⟩ := by
  rw [expandTokens_eq]
  rfl

/-- A found attribute begins at one of the tokens that were searched, and its item is a row of
them. -/
theorem Attribute.mem_of_search {ts rest : List Token} {a : AnnotatedItem}
    (h : search ts = .found a rest) :
    (∃ t ∈ ts, t.location = a.location) ∧ a.item <:+: ts := by
  obtain ⟨attr, blanks, heq, hwritten, -⟩ := search_found h
  obtain ⟨hash, bracket, paren, closing, trivia, path, enclosed, trivia', segments, rfl, -,
    hlocation, -⟩ := hwritten
  refine ⟨⟨hash, ?_, hlocation⟩, _, rest, heq.symm⟩
  rw [heq]
  simp

/-- A found attribute is expanded in the same way among moved tokens. -/
theorem Attribute.expand_of_search {ts rest : List Token} {a : AnnotatedItem}
    (h : search ts = .found a rest) (hlines : ∀ t ∈ ts, o.line ≤ t.location.line) :
    (a.move (o.rebase o')).expand target =
      mapBoth (ExpandError.move (o.rebase o')) (Prod.map (ExpandedItem.move (o.rebase o')) id)
        (a.expand target) := by
  obtain ⟨⟨hash, hhash, hlocation⟩, hitem⟩ := mem_of_search h
  exact AnnotatedItem.expand_rebase o' target (hlocation ▸ hlines hash hhash)
    fun t ht => hlines t (hitem.subset ht)

open Attribute in
/-- Moved tokens are expanded to the same text, with the same items and failures at their new
positions. -/
theorem expandTokens_rebase {ts : List Token} (hlines : ∀ t ∈ ts, o.line ≤ t.location.line) :
    expandTokens target (ts.map (Token.move (o.rebase o'))) =
      (expandTokens target ts).move (o.rebase o') := by
  fun_induction expandTokens target ts with
  | case1 ts h =>
    rw [expandTokens_eq, search_map_move, h]
    simp [Finding.move, Expansion.move]
  | case2 ts rest h ih =>
    have hrest := ih fun t ht => hlines t ((suffix_of_search (by rw [h]; rfl)).subset ht)
    rw [expandTokens_eq, search_map_move, h]
    simp only [Finding.move, Option.map_none, before_map_move, Token.join_map_move, hrest]
    rfl
  | case3 ts e rest h ih =>
    have hrest := ih fun t ht => hlines t ((suffix_of_search (by rw [h]; rfl)).subset ht)
    rw [expandTokens_eq, search_map_move, h]
    simp only [Finding.move, Option.map_some, hrest]
    rfl
  | case4 ts a rest h e he ih =>
    have hrest := ih fun t ht => hlines t ((suffix_of_search (by rw [h]; rfl)).subset ht)
    have hexpand := expand_of_search o' target h hlines
    rw [expandTokens_eq, search_map_move, h]
    simp only [Finding.move, hexpand, he, mapBoth, hrest]
    rfl
  | case5 ts a rest h i text hi ih =>
    have hrest := ih fun t ht => hlines t ((suffix_of_search (by rw [h]; rfl)).subset ht)
    have hexpand := expand_of_search o' target h hlines
    have htrivia : (ts.map (Token.move (o.rebase o'))).takeWhile Token.isTrivia =
        (ts.takeWhile Token.isTrivia).map (Token.move (o.rebase o')) := by
      rw [List.takeWhile_map]
      rfl
    rw [expandTokens_eq, search_map_move, h]
    simp only [Finding.move, hexpand, hi, mapBoth, hrest, htrivia, Token.join_map_move]
    rfl

end CallConv
