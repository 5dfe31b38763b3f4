import Mathlib
import CallConv.Proofs.SourceFile.Append

/-!
# Parts of a file

Two texts with a line break between them are a file whose expansion is the expansion of the first
text followed by the one of the second, provided that the groups of the first are closed in it, that
it does not end in a hash, and that each of its attributes has an item (`expandSource_append`).

The last condition cannot be left out, and not even a wall between the texts replaces it: an
attribute without an item ends the search, so that the failures behind it are not reported
(`errors_expandSource_module`).
-/

namespace CallConv

open scoped Computability
open Grammar

variable {a b : Text} {ts us : List Token} (target : Target)

/-- Where a position of a file stands when the file begins on the line below a text. -/
def Cursor.below (a : Text) : Cursor → Cursor :=
  Cursor.start.rebase (Cursor.start.advance (a ++ [Byte.newline]))

/-- Below a text the tokens of another one are the same at other places. -/
theorem tokenize_below (ha : tokenize a Cursor.start = .ok ts)
    (hb : tokenize b Cursor.start = .ok us) :
    tokenize (a ++ Byte.newline :: b) Cursor.start = .ok
      (ts ++ ⟨.newline, Cursor.start.advance a, [Byte.newline]⟩ ::
        us.map (Token.move (Cursor.below a))) := by
  have hmoved := tokenize_rebase (Cursor.start.advance (a ++ [Byte.newline]))
    (le_refl Cursor.start.line) b
  rw [Cursor.rebase_self, hb] at hmoved
  rw [tokenize_append_newline ha, hmoved]
  rfl

/-- Below a text the tokens of another one are expanded alike. -/
theorem expandTokens_below (a : Text) (hb : tokenize b Cursor.start = .ok us) :
    expandTokens target (us.map (Token.move (Cursor.below a))) =
      (expandSource b target).move (Cursor.below a) := by
  rw [expandSource, hb]
  exact expandTokens_rebase _ target (line_le_of_tokenize hb)

/-- A text that is expanded without a failure falls into tokens. -/
theorem exists_tokens_of_errors (h : (expandSource b target).errors = []) :
    ∃ us, tokenize b Cursor.start = .ok us := by
  cases htokens : tokenize b Cursor.start with
  | error e => simp [expandSource, htokens] at h
  | ok us => exact ⟨us, rfl⟩

/-- Parts of a file are expanded on their own. If two texts are expanded without a failure, where
the groups of the first one are nested and closed and its last significant token is no hash, so are
the two with a line break between them: the outputs stand one below the other, and the items of the
second text follow those of the first, each at its place below it. -/
theorem expandSource_append (a b : Text) (target : Target) (ts : List Token)
    (htokens : tokenize a Cursor.start = .ok ts) (hnested : ts ∈ (element .value)∗)
    (hhash : ∀ t ∈ (significant ts).getLast?, t.kind ≠ .hash)
    (ha : (expandSource a target).errors = []) (hb : (expandSource b target).errors = []) :
    expandSource (a ++ Byte.newline :: b) target =
      ⟨(expandSource a target).items ++
          (expandSource b target).items.map (ExpandedItem.move (Cursor.below a)), [],
        (expandSource a target).output ++ Byte.newline :: (expandSource b target).output⟩ := by
  obtain ⟨us, htokens'⟩ := exists_tokens_of_errors target hb
  let seam : Token := ⟨.newline, Cursor.start.advance a, [Byte.newline]⟩
  let rest := us.map (Token.move (Cursor.below a))
  have hfirst : expandTokens target ts = expandSource a target := by rw [expandSource, htokens]
  have hrest : expandTokens target rest = (expandSource b target).move (Cursor.below a) :=
    expandTokens_below target a htokens'
  have hwhole : expandSource (a ++ Byte.newline :: b) target =
      expandTokens target (ts ++ seam :: rest) := by
    rw [expandSource, tokenize_below htokens htokens']
  -- The line break belongs to neither text and stays where it is.
  have htrivia : dropTrivia [seam] = [] := rfl
  have hseam := (expandTokens_trivia_append rest target htrivia).eq_mk rfl <| by
    rw [hrest, Expansion.move, hb, List.map_nil]
  have hjoins := (expandTokens_append (seam :: rest) target (complete_of_nested hnested hhash)
    fun location => by simp [hfirst, ha]).eq_mk (by rw [hfirst, ha])
      (congrArg Expansion.errors hseam)
  rw [List.singleton_append, hrest] at hseam
  rw [hwhole, hjoins, hfirst, hseam]
  rfl

/-- Two items, the first with a comment behind it that only the line break ends. -/
theorem expandSource_append_two :
    expandSource (utf8 "#[abi(\"C\")]\nfn f(); // one" ++
        Byte.newline :: utf8 "#[abi(64 = \"system\")] type G = fn();") Target.linux64 =
      ⟨[⟨⟨1, 1, 0⟩, .function, utf8 "f", utf8 "C", true⟩,
          ⟨⟨3, 1, 27⟩, .typeAlias, utf8 "G", utf8 "system", true⟩], [],
        utf8 "extern \"C\" fn f(); // one\ntype G = extern \"system\" fn();"⟩ := by
  let ts : List Token := Lexeme.place Cursor.start
    [⟨.hash, utf8 "#"⟩, ⟨.bracketLeft, utf8 "["⟩, ⟨.identifier, utf8 "abi"⟩, ⟨.parenLeft, utf8 "("⟩,
      ⟨.string, utf8 "\"C\""⟩, ⟨.parenRight, utf8 ")"⟩, ⟨.bracketRight, utf8 "]"⟩,
      ⟨.newline, [Byte.newline]⟩, ⟨.identifier, utf8 "fn"⟩, ⟨.whitespace, utf8 " "⟩,
      ⟨.identifier, utf8 "f"⟩, ⟨.parenLeft, utf8 "("⟩, ⟨.parenRight, utf8 ")"⟩,
      ⟨.semicolon, utf8 ";"⟩, ⟨.whitespace, utf8 " "⟩, ⟨.lineComment, utf8 "// one"⟩]
  have htokens : tokenize (utf8 "#[abi(\"C\")]\nfn f(); // one") Cursor.start = .ok ts := by
    decide +kernel
  have hnested : ts ∈ (element .value)∗ := mem_nested_iff.mpr (by decide)
  have hitem : expandSource (utf8 "#[abi(\"C\")]\nfn f(); // one") Target.linux64 =
      ⟨[⟨⟨1, 1, 0⟩, .function, utf8 "f", utf8 "C", true⟩], [],
        utf8 "extern \"C\" fn f(); // one"⟩ := by
    decide +kernel
  have hitem' : expandSource (utf8 "#[abi(64 = \"system\")] type G = fn();") Target.linux64 =
      ⟨[⟨⟨1, 1, 0⟩, .typeAlias, utf8 "G", utf8 "system", true⟩], [],
        utf8 "type G = extern \"system\" fn();"⟩ := by
    decide +kernel
  rw [expandSource_append _ _ Target.linux64 ts htokens hnested (by decide) (by rw [hitem])
    (by rw [hitem']), hitem, hitem']
  decide

/-! ## A module above another text -/

/-- A module with some lines between its braces. -/
def inModule (a : Text) : Text :=
  utf8 "mod m \x7b" ++ Byte.newline :: (a ++ Byte.newline :: utf8 "\x7d")

/-- A failure is an attribute without an item. -/
def ExpandError.isMissingItem : ExpandError → Bool
  | attr (.missingItem _) => true
  | _ => false

theorem any_isMissingItem_iff {es : List ExpandError} : es.any ExpandError.isMissingItem = true ↔
    ∃ location, .attr (.missingItem location) ∈ es := by
  rw [List.any_eq_true]
  constructor
  · rintro ⟨e, he, hkind⟩
    rcases e with _ | (_ | location) | _ | _ | _
    case attr.missingItem => exact ⟨location, he⟩
    all_goals simp [ExpandError.isMissingItem] at hkind
  · rintro ⟨location, he⟩
    exact ⟨_, he, rfl⟩

/-- Nested tokens are nested at every other place. -/
theorem map_move_mem_nested (f : Cursor → Cursor) (h : ts ∈ (element .value)∗) :
    ts.map (Token.move f) ∈ (element .value)∗ := by
  rw [mem_nested_iff] at h ⊢
  rw [Group.splitUntil_map_move f fun _ => rfl, h]
  rfl

/-- The tokens of a module: some without a hash in front, then those that its closing brace
walls. -/
theorem exists_tokens_inModule (ha : tokenize a Cursor.start = .ok ts)
    (hnested : ts ∈ (element .value)∗) :
    ∃ lead inner, tokenize (inModule a) Cursor.start = .ok (lead ++ inner) ∧
      (∀ t ∈ lead, t.kind ≠ .hash) ∧ Walled inner := by
  let close : Token := ⟨.braceRight, Cursor.start, utf8 "\x7d"⟩
  let opening : List Token := Lexeme.place Cursor.start
    [⟨.identifier, utf8 "mod"⟩, ⟨.whitespace, utf8 " "⟩, ⟨.identifier, utf8 "m"⟩,
      ⟨.whitespace, utf8 " "⟩, ⟨.braceLeft, utf8 "\x7b"⟩]
  have hopening : tokenize (utf8 "mod m \x7b") Cursor.start = .ok opening := by decide +kernel
  have hclose : tokenize (utf8 "\x7d") Cursor.start = .ok [close] := by decide +kernel
  have hall := tokenize_below hopening (tokenize_below ha hclose)
  refine ⟨_, _, hall.trans (congrArg Except.ok (List.append_cons opening _ _)), ?_, ?_⟩
  · have hplain : ∀ t ∈ opening, t.kind ≠ .hash := by decide
    intro t ht
    rcases List.mem_append.mp ht with ht | ht
    · exact hplain t ht
    · rw [List.mem_singleton.mp ht]
      decide
  · -- The closing brace comes behind nested tokens.
    rw [List.map_append, List.map_cons, List.map_singleton, List.map_singleton, List.append_cons]
    refine walled_concat (append_mem_kstar (map_move_mem_nested _ hnested) ?_) rfl
    rw [mem_nested_iff]
    rfl

/-- The failures in a file with a module above another text: those of the module, followed by those
of the text at their places, unless an attribute in the module has no item. Such an attribute ends
the search, although the module is closed behind it, and all failures of the text are lost. -/
theorem errors_expandSource_module (a b : Text) (target : Target) (ts us : List Token)
    (ha : tokenize a Cursor.start = .ok ts) (hnested : ts ∈ (element .value)∗)
    (hb : tokenize b Cursor.start = .ok us) :
    let first := (expandSource (inModule a) target).errors
    let second := (expandSource b target).errors.map
      (ExpandError.move (Cursor.below (inModule a)))
    let whole := (expandSource (inModule a ++ Byte.newline :: b) target).errors
    whole = (if first.any ExpandError.isMissingItem then first else first ++ second) ∧
      (whole = first ++ second ↔ first.any ExpandError.isMissingItem = false ∨ second = []) := by
  intro first second whole
  obtain ⟨lead, inner, htokens, hlead, hwalled⟩ := exists_tokens_inModule ha hnested
  let seam : Token := ⟨.newline, Cursor.start.advance (inModule a), [Byte.newline]⟩
  let rest := us.map (Token.move (Cursor.below (inModule a)))
  have hfirst : first = (expandTokens target inner).errors := by
    rw [← errors_expandTokens_of_no_hash inner target hlead]
    simp only [first, expandSource, htokens]
  have hsecond : second = (expandTokens target (seam :: rest)).errors := by
    rw [← List.singleton_append, errors_expandTokens_of_no_hash rest target (by simp [seam]),
      expandTokens_below target _ hb]
    rfl
  have hwhole : whole = (expandTokens target (inner ++ seam :: rest)).errors := by
    rw [← errors_expandTokens_of_no_hash _ target hlead, ← List.append_assoc]
    simp only [whole, expandSource, tokenize_below htokens hb]
    rfl
  have hcases : whole = if first.any ExpandError.isMissingItem then first else first ++ second := by
    split
    · next hmissing =>
      obtain ⟨location, he⟩ := any_isMissingItem_iff.mp hmissing
      rw [hfirst] at he ⊢
      rw [hwhole, errors_expandTokens_append _ target hwalled he]
    · next hnone =>
      have hmissing (location : Cursor) :
          .attr (.missingItem location) ∉ (expandTokens target inner).errors := fun he =>
        hnone (any_isMissingItem_iff.mpr ⟨location, hfirst ▸ he⟩)
      rw [hwhole, hfirst, hsecond]
      exact (expandTokens_append _ target hwalled.complete hmissing).errors
  refine ⟨hcases, ?_⟩
  rw [hcases]
  split
  · next hmissing => simp [hmissing]
  · next hnone => simp [hnone]

/-- A directive that says nothing is reported, and so is the broken attribute below the module. -/
theorem errors_expandSource_module_both :
    (expandSource (inModule (utf8 "#[abi()] fn f();") ++ Byte.newline :: utf8 "#[abi]")
        Target.linux64).errors =
      [.directive (.empty ⟨2, 7, 14⟩), .attr (.malformed ⟨4, 1, 27⟩)] := by
  let ts : List Token := Lexeme.place Cursor.start
    [⟨.hash, utf8 "#"⟩, ⟨.bracketLeft, utf8 "["⟩, ⟨.identifier, utf8 "abi"⟩, ⟨.parenLeft, utf8 "("⟩,
      ⟨.parenRight, utf8 ")"⟩, ⟨.bracketRight, utf8 "]"⟩, ⟨.whitespace, utf8 " "⟩,
      ⟨.identifier, utf8 "fn"⟩, ⟨.whitespace, utf8 " "⟩, ⟨.identifier, utf8 "f"⟩,
      ⟨.parenLeft, utf8 "("⟩, ⟨.parenRight, utf8 ")"⟩, ⟨.semicolon, utf8 ";"⟩]
  let us : List Token := Lexeme.place Cursor.start
    [⟨.hash, utf8 "#"⟩, ⟨.bracketLeft, utf8 "["⟩, ⟨.identifier, utf8 "abi"⟩,
      ⟨.bracketRight, utf8 "]"⟩]
  have ha : tokenize (utf8 "#[abi()] fn f();") Cursor.start = .ok ts := by decide +kernel
  have hb : tokenize (utf8 "#[abi]") Cursor.start = .ok us := by decide +kernel
  have hnested : ts ∈ (element .value)∗ := mem_nested_iff.mpr (by decide)
  have hfirst : (expandSource (inModule (utf8 "#[abi()] fn f();")) Target.linux64).errors =
      [.directive (.empty ⟨2, 7, 14⟩)] := by
    decide +kernel
  have hsecond : (expandSource (utf8 "#[abi]") Target.linux64).errors =
      [.attr (.malformed ⟨1, 1, 0⟩)] := by
    decide +kernel
  rw [(errors_expandSource_module _ _ Target.linux64 ts us ha hnested hb).1, hfirst, hsecond]
  decide

/-- An attribute without an item in a module hides a broken attribute below the module. -/
theorem errors_expandSource_hidden :
    ∃ ts us, tokenize (utf8 "#[abi(\"C\")]") Cursor.start = .ok ts ∧ ts ∈ (element .value)∗ ∧
      tokenize (utf8 "#[abi]") Cursor.start = .ok us ∧
      (expandSource (inModule (utf8 "#[abi(\"C\")]")) Target.linux64).errors =
        [.attr (.missingItem ⟨2, 1, 8⟩)] ∧
      (expandSource (utf8 "#[abi]") Target.linux64).errors.map
        (ExpandError.move (Cursor.below (inModule (utf8 "#[abi(\"C\")]")))) =
          [.attr (.malformed ⟨4, 1, 22⟩)] ∧
      (expandSource (inModule (utf8 "#[abi(\"C\")]") ++ Byte.newline :: utf8 "#[abi]")
        Target.linux64).errors ≠
          [.attr (.missingItem ⟨2, 1, 8⟩), .attr (.malformed ⟨4, 1, 22⟩)] := by
  let ts : List Token := Lexeme.place Cursor.start
    [⟨.hash, utf8 "#"⟩, ⟨.bracketLeft, utf8 "["⟩, ⟨.identifier, utf8 "abi"⟩, ⟨.parenLeft, utf8 "("⟩,
      ⟨.string, utf8 "\"C\""⟩, ⟨.parenRight, utf8 ")"⟩, ⟨.bracketRight, utf8 "]"⟩]
  let us : List Token := Lexeme.place Cursor.start
    [⟨.hash, utf8 "#"⟩, ⟨.bracketLeft, utf8 "["⟩, ⟨.identifier, utf8 "abi"⟩,
      ⟨.bracketRight, utf8 "]"⟩]
  exact ⟨ts, us, by decide +kernel, mem_nested_iff.mpr (by decide), by decide +kernel,
    by decide +kernel, by decide +kernel, by decide +kernel⟩

end CallConv
