import Mathlib
import CallConv.Proofs.Declaration.Moved
import CallConv.Proofs.Directive.Grammar
import CallConv.Proofs.Text.Quoting

/-!
# Directives that are written and read again

A directive is written as the literal of its convention, or as entries with a comma and a space
between them. The lexer cuts that text into the lexemes it was put together from: a shortcut ends
before a space, and a literal closes itself. The significant ones make the directive by its grammar,
and each literal gives its name back, so that reading gives the directive with other positions.
-/

namespace CallConv

/-- A token that ends with a visible ASCII character makes a seam with a space, unless it is a line
comment, a stray apostrophe or part of a raw literal. -/
theorem Seam.of_space {y : Text} {a : UInt8} (hends : [a] <:+ y) (hascii : a < 0x80)
    (hblank : Rule.isBlank a = false) (hhash : a ≠ Byte.hash) (hcomment : ¬ utf8 "//" <+: y)
    (hstray : y ≠ [Byte.apostrophe]) : Seam y a Byte.space where
  ends := hends
  ascii := hascii
  blank h := by simp [hblank] at h
  number _ := by decide +kernel
  apostrophe _ := by decide
  mark _ := by decide
  hash h := absurd h hhash
  word word hword hpart := by
    have hspace : ∀ word ∈ Rule.joints, Byte.space ∉ word := by decide
    exact hspace word hword (hpart.subset (List.mem_append_right y List.mem_cons_self))
  comment := hcomment
  stray := hstray

namespace Lexeme

/-- The lexeme of a shortcut; one that begins with a digit is a number. -/
def shortcut (name : Text) : Lexeme :=
  ⟨if name.head?.any Byte.isDigit then .number else .identifier, name⟩

/-- The sign between a shortcut and its convention. -/
def equalSign : Lexeme := ⟨.equal, utf8 "="⟩

/-- The comma between two entries. -/
def comma : Lexeme := ⟨.comma, utf8 ","⟩

end Lexeme

/-- An entry without its position. -/
def TableEntry.unplaced (e : TableEntry) : TableEntry := e.move fun _ => Cursor.start

/-- A failure to choose a convention, without the position in it. -/
def ResolveError.unplaced (e : ResolveError) : ResolveError := e.move fun _ => Cursor.start

/-- The lexemes of an entry. -/
def TableEntry.lexemes (e : TableEntry) : List Lexeme :=
  [Lexeme.shortcut e.shortcut, Lexeme.space, Lexeme.equalSign, Lexeme.space, Lexeme.literal e.abi]

namespace Directive

/-- The lexemes of the entries of a table. -/
def entriesLexemes : List TableEntry → List Lexeme
  | [] => []
  | [e] => e.lexemes
  | e :: e' :: es => e.lexemes ++ Lexeme.comma :: Lexeme.space :: entriesLexemes (e' :: es)

/-- The lexemes that a directive is written with. -/
def lexemes : Directive → List Lexeme
  | direct abi _ => [Lexeme.literal abi]
  | table entries => entriesLexemes entries

/-- The conventions that a directive names. -/
def abis : Directive → List Text
  | direct abi _ => [abi]
  | table entries => entries.map TableEntry.abi

/-- A directive without its positions. -/
def unplaced (d : Directive) : Directive := d.move fun _ => Cursor.start

/-! ## The text of a directive -/

/-- An entry is written with its lexemes. -/
theorem join_lexemes (e : TableEntry) : Lexeme.join e.lexemes = e.text := by
  have hsign : utf8 " = " = utf8 " " ++ (utf8 "=" ++ utf8 " ") := by decide
  simp only [TableEntry.lexemes, TableEntry.text, hsign, Lexeme.join_cons, Lexeme.join_nil,
    Lexeme.shortcut, Lexeme.space, Lexeme.equalSign, Lexeme.literal, List.append_assoc,
    List.append_nil]

/-- A table is written with its lexemes. -/
theorem join_entriesLexemes (es : List TableEntry) :
    Lexeme.join (entriesLexemes es) = Text.join (utf8 ", ") (es.map TableEntry.text) := by
  have hcomma : utf8 ", " = utf8 "," ++ utf8 " " := by decide
  fun_induction entriesLexemes es with
  | case1 => rfl
  | case2 e => exact join_lexemes e
  | case3 e e' es ih =>
    rw [Lexeme.join_append, join_lexemes, Lexeme.join_cons, Lexeme.join_cons, ih]
    simp only [List.map_cons, Text.join, hcomma, Lexeme.comma, Lexeme.space, List.append_assoc]

/-- A directive is written with its lexemes. -/
theorem text_eq (d : Directive) : d.text = Lexeme.join d.lexemes := by
  cases d with
  | direct abi location => simp [text, lexemes, Lexeme.literal]
  | table entries => exact (join_entriesLexemes entries).symm

/-! ## The text is lexed -/

/-- A known shortcut is one lexeme, of a kind that shortcuts have. -/
theorem begins_shortcut {name : Text} (h : name ∈ Shortcut.names) :
    Begins (Lexeme.shortcut name).kind name [] := by
  have hnext : ∀ name ∈ Shortcut.names, Lexer.next ⟨name, Cursor.start⟩ =
      .ok (⟨(Lexeme.shortcut name).kind, Cursor.start, name⟩, ⟨[], Cursor.start.advance name⟩) := by
    decide +kernel
  have hkind : ∀ name ∈ Shortcut.names, (Lexeme.shortcut name).kind ≠ .eof := by decide +kernel
  exact (begins_of_next (hnext name h) (hkind name h)).2

/-- A known shortcut and a sign are sealed before a space. -/
theorem sealed_before_space {word : Text} (h : word ∈ utf8 "=" :: Shortcut.names) (t : Text) :
    Sealed False word (Byte.space :: t) := by
  have hfacts : ∀ word ∈ utf8 "=" :: Shortcut.names, ∃ a ∈ word, [a] <:+ word ∧ a < 0x80 ∧
      Rule.isBlank a = false ∧ a ≠ Byte.hash ∧ ¬ utf8 "//" <+: word ∧ word ≠ [Byte.apostrophe] := by
    decide +kernel
  obtain ⟨a, -, hends, hascii, hblank, hhash, hcomment, hstray⟩ := hfacts word h
  exact Sealed.of_seam (Seam.of_space hends hascii hblank hhash hcomment hstray) (by decide)

/-- The lexemes of an entry are put in front of others, since its literal closes itself. -/
theorem lexed_entry {e : TableEntry} {ls : List Lexeme} (h : e.shortcut ∈ Shortcut.names)
    (hls : Lexed ls) : Lexed (e.lexemes ++ ls) := by
  have hsign : Lexed (Lexeme.equalSign :: Lexeme.space :: Lexeme.literal e.abi :: ls) :=
    Lexed.cons rfl (by decide) (sealed_before_space List.mem_cons_self _)
      (hls.cons_space_literal e.abi)
  refine Lexed.cons (begins_shortcut h) ?_ (sealed_before_space (List.mem_cons_of_mem _ h) _)
    (hsign.cons_space rfl (by decide) (by decide))
  have hassigned : ∀ name ∈ Shortcut.names, (Lexeme.shortcut name).kind ≠ .unassigned := by
    decide +kernel
  exact hassigned _ h

/-- The lexemes of entries begin with the first shortcut. -/
theorem exists_entriesLexemes_cons (e : TableEntry) (es : List TableEntry) :
    ∃ rest, entriesLexemes (e :: es) = Lexeme.shortcut e.shortcut :: rest := by
  cases es with
  | nil => exact ⟨_, rfl⟩
  | cons e' es => exact ⟨_, rfl⟩

/-- The text of a table is cut into its lexemes. -/
theorem lexed_entriesLexemes {es : List TableEntry}
    (h : ∀ e ∈ es, e.shortcut ∈ Shortcut.names) : Lexed (entriesLexemes es) := by
  fun_induction entriesLexemes es with
  | case1 => trivial
  | case2 e =>
    have hentry : Lexed (e.lexemes ++ []) := lexed_entry (h e List.mem_cons_self) trivial
    rwa [List.append_nil] at hentry
  | case3 e e' es ih =>
    have htail : Lexed (entriesLexemes (e' :: es)) := ih fun e he => h e (List.mem_cons_of_mem _ he)
    have hcomma : Begins .comma (utf8 ",") [] := rfl
    -- Behind the space stands a shortcut, which begins with no blank.
    have hfirst : ∀ name ∈ Shortcut.names, ∃ c ∈ name, name = c :: name.tail ∧
        Rule.isBlank c = false ∧ c ≠ Byte.apostrophe := by decide +kernel
    obtain ⟨c, -, hcons, hblank, hc⟩ := hfirst e'.shortcut (h e' (by simp))
    obtain ⟨rest, hrest⟩ := exists_entriesLexemes_cons e' es
    have hjoin : Lexeme.join (entriesLexemes (e' :: es)) =
        c :: (e'.shortcut.tail ++ Lexeme.join rest) := by
      rw [hrest, Lexeme.join_cons, ← List.cons_append, ← hcons]
      rfl
    refine lexed_entry (h e List.mem_cons_self) (Lexed.cons hcomma (by decide) ?_ ?_)
    · exact Sealed.of_closed hcomma rfl False.elim
    · exact htail.cons_space hjoin hblank hc

/-! ## The significant lexemes make the directive -/

section Significant

variable {t shortcut sign name : Token} {ts : List Token} {abi word : Text} {e : TableEntry}

/-- A token with the lexeme of a known shortcut is that shortcut. -/
theorem isShortcut_of_lexeme (h : t.lexeme = Lexeme.shortcut word) (hword : word ∈ Shortcut.names) :
    IsShortcut t ∧ t.content = word := by
  have hcontent : t.content = word := congrArg Lexeme.content h
  have hkind : t.kind = if word.head?.any Byte.isDigit then .number else .identifier :=
    congrArg Lexeme.kind h
  refine ⟨⟨?_, by rwa [hcontent]⟩, hcontent⟩
  rw [hkind]
  split
  · exact .inr rfl
  · exact .inl rfl

/-- A token with the literal of a convention that reading gives back names that convention. -/
theorem isName_of_lexeme (h : t.lexeme = Lexeme.literal abi) (hne : abi ≠ [])
    (hutf8 : abi.isUtf8 = true) (hnewline : Byte.newline ∉ abi) :
    IsName t ∧ Abi.ofLiteral t = abi := by
  have hkind : t.kind = .string := congrArg Lexeme.kind h
  have hcontent : t.content = Abi.quoted abi := congrArg Lexeme.content h
  have hvalue : Abi.ofLiteral t = abi := by
    have ht : t = ⟨.string, t.location, Abi.quoted abi⟩ := by rw [← hkind, ← hcontent]
    rw [ht]
    exact Abi.ofLiteral_quoted hutf8 hnewline t.location
  refine ⟨⟨.inl hkind, ?_, hvalue ▸ hne⟩, hvalue⟩
  obtain ⟨quoted, hquoted, -⟩ := Abi.quoted_eq_cons abi
  rw [hcontent, hquoted]
  exact fun h => absurd (Option.some.inj h) (by decide)

/-- An entry that reading gives back once it is written. -/
structure Readable (e : TableEntry) : Prop where
  /-- Its shortcut is known. -/
  shortcut : e.shortcut ∈ Shortcut.names
  /-- Its convention has a name. -/
  nonempty : e.abi ≠ []
  /-- The name is valid UTF-8. -/
  utf8 : e.abi.isUtf8 = true
  /-- The name is written on one line. -/
  newline : Byte.newline ∉ e.abi

/-- The tokens of an entry make that entry, with another position. -/
theorem Readable.of_lexemes (h : Readable e)
    (hshortcut : shortcut.lexeme = Lexeme.shortcut e.shortcut)
    (hsign : sign.lexeme = Lexeme.equalSign) (hname : name.lexeme = Lexeme.literal e.abi) :
    IsShortcut shortcut ∧ sign.kind = .equal ∧ IsName name ∧
      (entryOf shortcut name).unplaced = e.unplaced := by
  obtain ⟨hisShortcut, hcontent⟩ := isShortcut_of_lexeme hshortcut h.shortcut
  obtain ⟨hisName, hvalue⟩ := isName_of_lexeme hname h.nonempty h.utf8 h.newline
  refine ⟨hisShortcut, congrArg Lexeme.kind hsign, hisName, ?_⟩
  simp only [entryOf, TableEntry.unplaced, TableEntry.move, hcontent, hvalue]

/-- The spaces of an entry do not count. -/
theorem significant_lexemes (e : TableEntry) :
    Lexeme.significant e.lexemes =
      [Lexeme.shortcut e.shortcut, Lexeme.equalSign, Lexeme.literal e.abi] := by
  have hshortcut : (Lexeme.shortcut e.shortcut).isTrivia = false := by
    unfold Lexeme.isTrivia Lexeme.shortcut
    simp only
    split <;> rfl
  have hliteral : (Lexeme.literal e.abi).isTrivia = false := rfl
  have hspace : Lexeme.space.isTrivia = true := rfl
  have hsign : Lexeme.equalSign.isTrivia = false := rfl
  simp [Lexeme.significant, TableEntry.lexemes, hshortcut, hliteral, hspace, hsign]

/-- The tokens of a table make its entries, with other positions. -/
theorem exists_entries {es : List TableEntry} (hne : es ≠ []) (h : ∀ e ∈ es, Readable e)
    (hts : ts.map Token.lexeme = Lexeme.significant (entriesLexemes es)) :
    ∃ es', Entries ts es' ∧ es'.map TableEntry.unplaced = es.map TableEntry.unplaced := by
  fun_induction entriesLexemes es generalizing ts with
  | case1 => exact absurd rfl hne
  | case2 e =>
    rw [significant_lexemes] at hts
    obtain ⟨shortcut, ts, rfl, hshortcut, hts⟩ := List.map_eq_cons_iff.mp hts
    obtain ⟨sign, ts, rfl, hsign, hts⟩ := List.map_eq_cons_iff.mp hts
    obtain ⟨name, rfl, hname⟩ := List.map_eq_singleton_iff.mp hts
    obtain ⟨hshortcut, hsign, hname, heq⟩ :=
      (h e List.mem_cons_self).of_lexemes hshortcut hsign hname
    exact ⟨_, .last hshortcut hsign hname, congrArg (fun e => [e]) heq⟩
  | case3 e e' es ih =>
    have hrest : Lexeme.significant (Lexeme.comma :: Lexeme.space :: entriesLexemes (e' :: es)) =
        Lexeme.comma :: Lexeme.significant (entriesLexemes (e' :: es)) := rfl
    rw [Lexeme.significant_append, significant_lexemes, hrest] at hts
    obtain ⟨shortcut, ts, rfl, hshortcut, hts⟩ := List.map_eq_cons_iff.mp hts
    obtain ⟨sign, ts, rfl, hsign, hts⟩ := List.map_eq_cons_iff.mp hts
    obtain ⟨name, ts, rfl, hname, hts⟩ := List.map_eq_cons_iff.mp hts
    obtain ⟨separator, ts, rfl, hseparator, hts⟩ := List.map_eq_cons_iff.mp hts
    obtain ⟨hshortcut, hsign, hname, heq⟩ :=
      (h e List.mem_cons_self).of_lexemes hshortcut hsign hname
    obtain ⟨es', hentries, hes'⟩ :=
      ih (List.cons_ne_nil _ _) (fun e he => h e (List.mem_cons_of_mem _ he)) hts
    refine ⟨_, .more hshortcut hsign hname (congrArg Lexeme.kind hseparator) hentries, ?_⟩
    rw [List.map_cons, List.map_cons, heq, hes']

end Significant

/-! ## Reading what was written -/

variable {d : Directive}

/-- The entries of a sound table with valid names on one line are readable. -/
theorem Sound.readable {entries : List TableEntry} (hsound : (table entries).Sound)
    (hnames : ∀ abi ∈ (table entries).abis, abi.isUtf8 = true ∧ Byte.newline ∉ abi) :
    ∀ e ∈ entries, Readable e := by
  intro e he
  obtain ⟨hknown, hne⟩ := hsound.2 e he
  obtain ⟨hutf8, hnewline⟩ := hnames e.abi (List.mem_map_of_mem he)
  exact ⟨Shortcut.isKnown_iff.mp hknown, hne, hutf8, hnewline⟩

/-- The text of a directive is cut into its lexemes. -/
theorem Sound.lexed (hsound : d.Sound) : Lexed d.lexemes := by
  cases d with
  | direct abi location => exact ⟨begins_quoted abi [], trivial⟩
  | table entries =>
    exact lexed_entriesLexemes fun e he => Shortcut.isKnown_iff.mp (hsound.2 e he).1

/-- The tokens of a directive make that directive, with other positions. -/
theorem Sound.exists_grammar (hsound : d.Sound)
    (hnames : ∀ abi ∈ d.abis, abi.isUtf8 = true ∧ Byte.newline ∉ abi) {ts : List Token}
    (hts : ts.map Token.lexeme = Lexeme.significant d.lexemes) :
    ∃ d', Grammar ts d' ∧ d'.unplaced = d.unplaced := by
  cases d with
  | direct abi location =>
    obtain ⟨hutf8, hnewline⟩ := hnames abi List.mem_cons_self
    obtain ⟨name, rfl, hname⟩ := List.map_eq_singleton_iff.mp hts
    obtain ⟨hisName, hvalue⟩ := isName_of_lexeme hname hsound hutf8 hnewline
    refine ⟨_, .direct hisName, ?_⟩
    rw [hvalue]
    rfl
  | table entries =>
    obtain ⟨entries', hentries, heq⟩ := exists_entries hsound.1 (hsound.readable hnames) hts
    exact ⟨_, .table hentries, congrArg table heq⟩

/-- Directives that differ in positions only choose the same convention everywhere, and fail in the
same way. -/
theorem resolve_eq_of_unplaced {d' : Directive} (h : d'.unplaced = d.unplaced) (target : Target)
    (existing : Marker) :
    mapBoth ResolveError.unplaced id (d'.resolve target existing) =
      mapBoth ResolveError.unplaced id (d.resolve target existing) :=
  calc mapBoth ResolveError.unplaced id (d'.resolve target existing)
      = d'.unplaced.resolve target existing := (resolve_move _ d' target existing).symm
    _ = d.unplaced.resolve target existing := by rw [h]
    _ = mapBoth ResolveError.unplaced id (d.resolve target existing) :=
        resolve_move _ d target existing

/-- A directive whose names are valid UTF-8 on one line is written and read again as itself, apart
from its positions, and so chooses what it chose for every target and every marker. -/
theorem parse_text (hsound : d.Sound)
    (hnames : ∀ abi ∈ d.abis, abi.isUtf8 = true ∧ Byte.newline ∉ abi) :
    ∃ d', parse d.text = .ok d' ∧ d'.unplaced = d.unplaced ∧
      ∀ target existing,
        mapBoth ResolveError.unplaced id (d'.resolve target existing) =
          mapBoth ResolveError.unplaced id (d.resolve target existing) := by
  have htokens := hsound.lexed.tokenize_join Cursor.start
  have hlexemes : (significant (Lexeme.place Cursor.start d.lexemes)).map Token.lexeme =
      Lexeme.significant d.lexemes := by
    rw [map_lexeme_significant, Lexeme.map_lexeme_place]
  obtain ⟨d', hgrammar, hunplaced⟩ := hsound.exists_grammar hnames hlexemes
  refine ⟨d', ?_, hunplaced, resolve_eq_of_unplaced hunplaced⟩
  rw [parse, text_eq, htokens]
  exact hgrammar.read

/-- A table with an identifier, a number and a name of quotes and backslashes comes back. -/
theorem parse_text_table :
    let entries : List TableEntry := [⟨utf8 "win64", utf8 "win64", Cursor.eof⟩,
      ⟨utf8 "32", utf8 "a\"b\\", Cursor.eof⟩]
    ∃ d', parse (utf8 "win64 = \"win64\", 32 = \"a\\\"b\\\\\"") = .ok d' ∧
      d'.unplaced = (table entries).unplaced := by
  intro entries
  obtain ⟨d', hparse, hunplaced, -⟩ :=
    parse_text (d := table entries) (by unfold Sound; decide +kernel) (by decide +kernel)
  exact ⟨d', hparse, hunplaced⟩

end Directive

end CallConv
