import Mathlib
import CallConv.Proofs.Declaration.Insert
import CallConv.Proofs.Directive.Sound

/-!
# The grammar of directives

The arguments of an `abi` attribute are one name, or entries with commas between them. Reading
accepts the arguments of that grammar and no others, and what it reports otherwise is where the
grammar is left: at the first token that no accepted arguments have after the tokens before it, and
at the end of the arguments if more tokens could still complete them.
-/

namespace CallConv

/-- Where a failure to read a directive is reported. -/
def DirectiveError.location : DirectiveError → Cursor
  | lex e => e.location
  | empty location => location
  | invalid location => location
  | argument _ found => found.location

/-- The message of a failure begins with where it is. -/
theorem DirectiveError.message_eq (e : DirectiveError) :
    ∃ reason, e.message = e.location.text ++ utf8 ": " ++ reason := by
  cases e with
  | lex e => exact ⟨e.cause.text, rfl⟩
  | empty place =>
    obtain ⟨reason, hreason⟩ : utf8 ": " <+:
        utf8 ": expected an ABI or target shortcut table (no ABI or target table found)" := by
      decide +kernel
    exact ⟨reason, by rw [message, ← hreason, ← List.append_assoc]; rfl⟩
  | invalid place =>
    obtain ⟨reason, hreason⟩ : utf8 ": " <+:
        utf8 ": expected an ABI or target shortcut table (invalid argument found)" := by
      decide +kernel
    exact ⟨reason, by rw [message, ← hreason, ← List.append_assoc]; rfl⟩
  | argument expected found =>
    obtain ⟨reason, hreason⟩ : utf8 ": " <+: utf8 ": expected " := by decide +kernel
    refine ⟨reason ++ expected.text ++ utf8 " but found " ++ found.describe, ?_⟩
    simp only [message, location, ← hreason, List.append_assoc]

/-- The known shortcuts are the names of the vocabulary. -/
theorem Shortcut.isKnown_iff {name : Text} : isKnown name = true ↔ name ∈ names := by
  unfold isKnown condition? names
  generalize table = entries
  induction entries with
  | nil => simp
  | cons entry entries ih =>
    obtain ⟨other, condition⟩ := entry
    by_cases hname : name = other
    · simp [List.lookup, hname]
    · have hbeq : (name == other) = false := by simp [hname]
      simp [List.lookup, hbeq, hname, ih]

namespace Directive

/-! ## The grammar -/

/-- A token that names a convention: a plain or raw string literal without the mark for bytes, whose
value is not empty. -/
def IsName (t : Token) : Prop :=
  (t.kind = .string ∨ t.kind = .rawString) ∧ t.content.head? ≠ some 0x62 ∧ Abi.ofLiteral t ≠ []

instance (t : Token) : Decidable (IsName t) :=
  inferInstanceAs (Decidable (_ ∧ _ ∧ _))

/-- A token that is a shortcut: an identifier or a number with a name of the vocabulary. -/
def IsShortcut (t : Token) : Prop :=
  (t.kind = .identifier ∨ t.kind = .number) ∧ t.content ∈ Shortcut.names

instance (t : Token) : Decidable (IsShortcut t) :=
  inferInstanceAs (Decidable (_ ∧ _))

/-- The entry that a shortcut and a name make. -/
def entryOf (shortcut name : Token) : TableEntry :=
  ⟨shortcut.content, Abi.ofLiteral name, shortcut.location⟩

/-- The entries that significant tokens make: at least one, with a comma between two of them. -/
inductive Entries : List Token → List TableEntry → Prop where
  /-- The last entry, which no comma follows. -/
  | last {shortcut sign name : Token} : IsShortcut shortcut → sign.kind = .equal → IsName name →
      Entries [shortcut, sign, name] [entryOf shortcut name]
  /-- An entry, a comma and more entries. -/
  | more {shortcut sign name separator : Token} {ts : List Token} {entries : List TableEntry} :
      IsShortcut shortcut → sign.kind = .equal → IsName name → separator.kind = .comma →
      Entries ts entries →
      Entries (shortcut :: sign :: name :: separator :: ts) (entryOf shortcut name :: entries)

/-- The directive that significant tokens make. -/
inductive Grammar : List Token → Directive → Prop where
  /-- One name, for every target. -/
  | direct {name : Token} : IsName name →
      Grammar [name] (.direct (Abi.ofLiteral name) name.location)
  /-- A table of entries. -/
  | table {ts : List Token} {entries : List TableEntry} : Entries ts entries →
      Grammar ts (.table entries)

/-- Tokens, trivia among them, whose significant ones make a directive. -/
def Accepted (ts : List Token) : Prop := ∃ d, Grammar (significant ts) d

/-- The tokens that accepted ones begin with. -/
def Start (ts : List Token) : Prop := ∃ accepted, Accepted accepted ∧ ts <+: accepted

/-- The tokens that accepted ones begin with and go on after. -/
def ProperStart (ts : List Token) : Prop :=
  ∃ accepted, Accepted accepted ∧ ts <+: accepted ∧ ts ≠ accepted

/-- A token offends after others if accepted tokens go on after those, but never with it. -/
structure Offends (before : List Token) (t : Token) : Prop where
  /-- It carries meaning. -/
  significant : t.isTrivia = false
  /-- Accepted tokens begin with those before it and go on. -/
  start : ProperStart before
  /-- No accepted tokens begin with those before it and the token. -/
  ends : ¬ Start (before ++ [t])

/-! ## One token -/

variable {t : Token} {finish : Cursor}

/-- A name can be read if it is the literal of a convention and not empty. -/
theorem isName_iff : IsName t ↔ Abi.isLiteral t = true ∧ Abi.ofLiteral t ≠ [] := by
  have hkind : t.kind.isStringLiteral = true ↔ t.kind = .string ∨ t.kind = .rawString := by
    cases t.kind <;> decide
  simp only [IsName, Abi.isLiteral, Bool.and_eq_true, hkind, bne_iff_ne, and_assoc]

/-- A name reads as its value, and anything else is what is reported. -/
theorem readAbi_cases (t : Token) :
    IsName t ∧ readAbi t = .ok (Abi.ofLiteral t) ∨
      ¬ IsName t ∧ ∃ expected, readAbi t = .error (.argument expected t) := by
  unfold readAbi
  rw [isName_iff]
  split
  · next h => exact .inr ⟨fun hname => by simp [hname.1] at h, _, rfl⟩
  · next h =>
    split
    · next hempty => exact .inr ⟨fun hname => hname.2 hempty, _, rfl⟩
    · next hne => exact .inl ⟨⟨by simpa using h, hne⟩, rfl⟩

/-- A name is read as its value. -/
theorem IsName.read (h : IsName t) : readAbi t = .ok (Abi.ofLiteral t) :=
  ((readAbi_cases t).resolve_right fun hcase => hcase.1 h).2

/-- A token can be a shortcut by its kind if it is an identifier or a number. -/
theorem isShortcutToken_iff :
    isShortcutToken t = true ↔ t.kind = .identifier ∨ t.kind = .number := by
  simp [isShortcutToken]

/-- A shortcut reads as its text, and anything else is what is reported. -/
theorem readShortcut_cases (t : Token) :
    IsShortcut t ∧ readShortcut t = .ok t.content ∨
      ¬ IsShortcut t ∧ ∃ expected, readShortcut t = .error (.argument expected t) := by
  unfold readShortcut IsShortcut
  rw [← isShortcutToken_iff, ← Shortcut.isKnown_iff]
  split
  · next h => exact .inr ⟨fun hshortcut => by simp [hshortcut.1] at h, _, rfl⟩
  · next h =>
    split
    · next hunknown => exact .inr ⟨fun hshortcut => by simp [hshortcut.2] at hunknown, _, rfl⟩
    · next hknown => exact .inl ⟨⟨by simpa using h, by simpa using hknown⟩, rfl⟩

/-- A shortcut is read as its text. -/
theorem IsShortcut.read (h : IsShortcut t) : readShortcut t = .ok t.content :=
  ((readShortcut_cases t).resolve_right fun hcase => hcase.1 h).2

/-- A sign reads as one, and anything else is what is reported. -/
theorem readEqual_cases (t : Token) :
    t.kind = .equal ∧ readEqual t = .ok () ∨
      t.kind ≠ .equal ∧ readEqual t = .error (.argument .equalSign t) := by
  unfold readEqual
  split
  · next h => exact .inl ⟨h, rfl⟩
  · next h => exact .inr ⟨h, rfl⟩

/-- A name is a string literal. -/
theorem IsName.isStringLiteral (h : IsName t) : t.kind.isStringLiteral = true :=
  (Bool.and_eq_true _ _ ▸ (isName_iff.mp h).1).1

/-- A shortcut is no string literal. -/
theorem IsShortcut.isStringLiteral (h : IsShortcut t) : t.kind.isStringLiteral = false := by
  rcases h.1 with hkind | hkind <;> rw [hkind] <;> rfl

/-- A name carries meaning. -/
theorem IsName.isTrivia (h : IsName t) : t.isTrivia = false := by
  rcases h.1 with hkind | hkind <;> rw [Token.isTrivia, hkind] <;> rfl

/-- A shortcut carries meaning. -/
theorem IsShortcut.isTrivia (h : IsShortcut t) : t.isTrivia = false := by
  rcases h.1 with hkind | hkind <;> rw [Token.isTrivia, hkind] <;> rfl

/-- The marks between shortcuts and names carry meaning. -/
theorem isTrivia_of_mark (h : t.kind = .equal ∨ t.kind = .comma) : t.isTrivia = false := by
  rcases h with hkind | hkind <;> rw [Token.isTrivia, hkind] <;> rfl

/-! ## The starts of entries -/

/-- The tokens that the tokens of entries begin with. -/
def EntriesStart (ts : List Token) : Prop := ∃ more entries, Entries (ts ++ more) entries

section Starts

variable {shortcut sign name separator : Token} {ts : List Token}

/-- Entries begin with a shortcut, and a sign and a name complete the entry of any shortcut. -/
theorem entriesStart_shortcut_iff : EntriesStart [shortcut] ↔ IsShortcut shortcut := by
  constructor
  · rintro ⟨more, entries, h⟩
    cases h with
    | last hshortcut => exact hshortcut
    | more hshortcut => exact hshortcut
  · intro hshortcut
    exact ⟨[⟨.equal, Cursor.start, utf8 "="⟩, ⟨.string, Cursor.start, utf8 "\"C\""⟩], _,
      .last hshortcut rfl (by decide +kernel)⟩

/-- The entries of no tokens are still to come. -/
theorem entriesStart_nil : EntriesStart [] := by
  let shortcut : Token := ⟨.identifier, Cursor.start, utf8 "win"⟩
  have hshortcut : EntriesStart [shortcut] := entriesStart_shortcut_iff.mpr (by decide +kernel)
  obtain ⟨more, entries, h⟩ := hshortcut
  exact ⟨_, entries, h⟩

/-- After a shortcut stands a sign. -/
theorem entriesStart_sign_iff :
    EntriesStart [shortcut, sign] ↔ IsShortcut shortcut ∧ sign.kind = .equal := by
  constructor
  · rintro ⟨more, entries, h⟩
    cases h with
    | last hshortcut hsign => exact ⟨hshortcut, hsign⟩
    | more hshortcut hsign => exact ⟨hshortcut, hsign⟩
  · rintro ⟨hshortcut, hsign⟩
    exact ⟨[⟨.string, Cursor.start, utf8 "\"C\""⟩], _, .last hshortcut hsign (by decide +kernel)⟩

/-- After a sign stands a name. -/
theorem entriesStart_name_iff :
    EntriesStart [shortcut, sign, name] ↔
      IsShortcut shortcut ∧ sign.kind = .equal ∧ IsName name := by
  constructor
  · rintro ⟨more, entries, h⟩
    cases h with
    | last hshortcut hsign hname => exact ⟨hshortcut, hsign, hname⟩
    | more hshortcut hsign hname => exact ⟨hshortcut, hsign, hname⟩
  · rintro ⟨hshortcut, hsign, hname⟩
    exact ⟨[], _, .last hshortcut hsign hname⟩

/-- After a name stands a comma, and then more entries. -/
theorem entriesStart_separator_iff :
    EntriesStart (shortcut :: sign :: name :: separator :: ts) ↔
      IsShortcut shortcut ∧ sign.kind = .equal ∧ IsName name ∧ separator.kind = .comma ∧
        EntriesStart ts := by
  constructor
  · rintro ⟨more, entries, h⟩
    cases h with
    | more hshortcut hsign hname hseparator h =>
      exact ⟨hshortcut, hsign, hname, hseparator, more, _, h⟩
  · rintro ⟨hshortcut, hsign, hname, hseparator, more, entries, h⟩
    exact ⟨more, _, .more hshortcut hsign hname hseparator h⟩

end Starts

/-- Where tokens stop that have such starts, if they are read up to `finish`: at the first token
that ends a start, or at the end. -/
def Stops (starts : List Token → Prop) (finish : Cursor) (ts : List Token) (location : Cursor) :
    Prop :=
  (∃ before t after, ts = before ++ t :: after ∧ starts before ∧ ¬ starts (before ++ [t]) ∧
    location = t.location) ∨
  starts ts ∧ location = finish

section Stops

variable {shortcut sign name separator : Token} {ts : List Token} {location : Cursor}

/-- Entries stop at a token that should be a shortcut. -/
theorem stops_shortcut (hshortcut : ¬ IsShortcut shortcut) :
    Stops EntriesStart finish (shortcut :: ts) shortcut.location :=
  .inl ⟨[], shortcut, ts, rfl, entriesStart_nil,
    fun h => hshortcut (entriesStart_shortcut_iff.mp h), rfl⟩

/-- Entries stop at a token that should be a sign. -/
theorem stops_sign (hshortcut : IsShortcut shortcut) (hsign : sign.kind ≠ .equal) :
    Stops EntriesStart finish (shortcut :: sign :: ts) sign.location :=
  .inl ⟨[shortcut], sign, ts, rfl, entriesStart_shortcut_iff.mpr hshortcut,
    fun h => hsign (entriesStart_sign_iff.mp h).2, rfl⟩

/-- Entries stop at a token that should be a name. -/
theorem stops_name (hshortcut : IsShortcut shortcut) (hsign : sign.kind = .equal)
    (hname : ¬ IsName name) :
    Stops EntriesStart finish (shortcut :: sign :: name :: ts) name.location :=
  .inl ⟨[shortcut, sign], name, ts, rfl, entriesStart_sign_iff.mpr ⟨hshortcut, hsign⟩,
    fun h => hname (entriesStart_name_iff.mp h).2.2, rfl⟩

/-- Entries stop at a token that should be a comma. -/
theorem stops_separator (hshortcut : IsShortcut shortcut) (hsign : sign.kind = .equal)
    (hname : IsName name) (hseparator : separator.kind ≠ .comma) :
    Stops EntriesStart finish (shortcut :: sign :: name :: separator :: ts) separator.location :=
  .inl ⟨[shortcut, sign, name], separator, ts, rfl,
    entriesStart_name_iff.mpr ⟨hshortcut, hsign, hname⟩,
    fun h => hseparator (entriesStart_separator_iff.mp h).2.2.2.1, rfl⟩

/-- Where the entries after a comma stop, the ones with an entry more in front stop. -/
theorem Stops.more (hshortcut : IsShortcut shortcut) (hsign : sign.kind = .equal)
    (hname : IsName name) (hseparator : separator.kind = .comma)
    (h : Stops EntriesStart finish ts location) :
    Stops EntriesStart finish (shortcut :: sign :: name :: separator :: ts) location := by
  rcases h with ⟨before, t, after, rfl, hstart, hends, hlocation⟩ | ⟨hstart, hlocation⟩
  · refine .inl ⟨shortcut :: sign :: name :: separator :: before, t, after, rfl, ?_, ?_, hlocation⟩
    · exact entriesStart_separator_iff.mpr ⟨hshortcut, hsign, hname, hseparator, hstart⟩
    · intro h
      exact hends (entriesStart_separator_iff.mp h).2.2.2.2
  · refine .inr ⟨?_, hlocation⟩
    exact entriesStart_separator_iff.mpr ⟨hshortcut, hsign, hname, hseparator, hstart⟩

end Stops

/-! ## Reading entries -/

/-- Entries are read off the tokens that make them. -/
theorem Entries.read {ts : List Token} {entries : List TableEntry} (h : Entries ts entries) :
    readEntries finish ts = .ok entries := by
  induction h with
  | last hshortcut hsign hname =>
    rw [readEntries, hshortcut.read, readEqual, if_pos hsign, hname.read]
    rfl
  | more hshortcut hsign hname hseparator _ ih =>
    rw [readEntries, hshortcut.read, readEqual, if_pos hsign, hname.read]
    simp only [bind, Except.bind, if_pos hseparator, ih]
    rfl

/-- Reading entries gives the ones that the tokens make, or stops where they stop being entries. -/
theorem readEntries_cases (finish : Cursor) (ts : List Token) :
    (∃ entries, readEntries finish ts = .ok entries ∧ Entries ts entries) ∨
      ∃ e, readEntries finish ts = .error e ∧ Stops EntriesStart finish ts e.location := by
  fun_induction readEntries finish ts with
  | case1 shortcut sign name rest ih =>
    obtain ⟨hshortcut, hread⟩ | ⟨hshortcut, expected, hread⟩ := readShortcut_cases shortcut
    case inr => exact .inr ⟨_, by rw [hread]; rfl, stops_shortcut hshortcut⟩
    obtain ⟨hsign, hread'⟩ | ⟨hsign, hread'⟩ := readEqual_cases sign
    case inr => exact .inr ⟨_, by rw [hread, hread']; rfl, stops_sign hshortcut hsign⟩
    obtain ⟨hname, hread''⟩ | ⟨hname, expected, hread''⟩ := readAbi_cases name
    case inr =>
      exact .inr ⟨_, by rw [hread, hread', hread'']; rfl, stops_name hshortcut hsign hname⟩
    rw [hread, hread', hread'']
    rcases rest with _ | ⟨separator, rest⟩
    · exact .inl ⟨_, rfl, .last hshortcut hsign hname⟩
    by_cases hseparator : separator.kind = .comma
    · simp only [bind, Except.bind, if_pos hseparator] at ih ⊢
      obtain ⟨entries, hentries, h⟩ | ⟨e, he, h⟩ := ih
      · rw [hentries]
        exact .inl ⟨_, rfl, .more hshortcut hsign hname hseparator h⟩
      · rw [he]
        exact .inr ⟨e, rfl, h.more hshortcut hsign hname hseparator⟩
    · simp only [bind, Except.bind, if_neg hseparator]
      exact .inr ⟨_, rfl, stops_separator hshortcut hsign hname hseparator⟩
  | case2 shortcut sign =>
    obtain ⟨hshortcut, hread⟩ | ⟨hshortcut, expected, hread⟩ := readShortcut_cases shortcut
    case inr => exact .inr ⟨_, by rw [hread]; rfl, stops_shortcut hshortcut⟩
    obtain ⟨hsign, hread'⟩ | ⟨hsign, hread'⟩ := readEqual_cases sign
    case inr => exact .inr ⟨_, by rw [hread, hread']; rfl, stops_sign hshortcut hsign⟩
    have hstart : EntriesStart [shortcut, sign] := entriesStart_sign_iff.mpr ⟨hshortcut, hsign⟩
    exact .inr ⟨_, by rw [hread, hread']; rfl, .inr ⟨hstart, rfl⟩⟩
  | case3 shortcut =>
    obtain ⟨hshortcut, hread⟩ | ⟨hshortcut, expected, hread⟩ := readShortcut_cases shortcut
    case inr => exact .inr ⟨_, by rw [hread]; rfl, stops_shortcut hshortcut⟩
    have hstart : EntriesStart [shortcut] := entriesStart_shortcut_iff.mpr hshortcut
    exact .inr ⟨_, by rw [hread]; rfl, .inr ⟨hstart, rfl⟩⟩
  | case4 => exact .inr ⟨_, rfl, .inr ⟨entriesStart_nil, rfl⟩⟩

/-! ## Reading a directive -/

/-- The significant tokens that those of a directive begin with. -/
def GrammarStart (ts : List Token) : Prop := ∃ more d, Grammar (ts ++ more) d

section Grammar

variable {first : Token} {ts rest more : List Token} {d : Directive}

/-- Entries begin with a shortcut. -/
theorem Entries.head {entries : List TableEntry} (h : Entries (first :: rest) entries) :
    IsShortcut first := by
  cases h with
  | last hshortcut => exact hshortcut
  | more hshortcut => exact hshortcut

/-- A directive begins with a name or a shortcut. -/
theorem Grammar.head (h : Grammar (first :: rest) d) : IsName first ∨ IsShortcut first := by
  cases h with
  | direct hname => exact .inl hname
  | table h => exact .inr h.head

/-- The tokens of an entry carry meaning. -/
theorem Entries.isTrivia {entries : List TableEntry} (h : Entries ts entries) :
    ∀ t ∈ ts, t.isTrivia = false := by
  induction h with
  | last hshortcut hsign hname =>
    simp [hshortcut.isTrivia, isTrivia_of_mark (.inl hsign), hname.isTrivia]
  | more hshortcut hsign hname hseparator _ ih =>
    simpa [hshortcut.isTrivia, isTrivia_of_mark (.inl hsign), hname.isTrivia,
      isTrivia_of_mark (.inr hseparator)] using ih

/-- The tokens of a directive carry meaning. -/
theorem Grammar.isTrivia (h : Grammar ts d) : ∀ t ∈ ts, t.isTrivia = false := by
  cases h with
  | direct hname => simp [hname.isTrivia]
  | table h => exact h.isTrivia

/-- Without a name in front, a directive can only be a table. -/
theorem grammarStart_iff (h : ∀ t ∈ ts.head?, ¬ IsName t) : GrammarStart ts ↔ EntriesStart ts := by
  constructor
  · rintro ⟨more, d, hgrammar⟩
    cases ts with
    | nil => exact entriesStart_nil
    | cons first rest =>
      generalize hwhole : first :: rest ++ more = whole at hgrammar
      cases hgrammar with
      | direct hname =>
        obtain ⟨rfl, -⟩ := List.cons.inj hwhole
        exact absurd hname (h _ rfl)
      | table hentries => exact ⟨more, _, hwhole ▸ hentries⟩
  · rintro ⟨more, entries, hentries⟩
    exact ⟨more, _, .table hentries⟩

/-- Arguments with a shortcut in front stop where their entries do. -/
theorem Stops.grammar {location : Cursor} (hfirst : ¬ IsName first)
    (h : Stops EntriesStart finish (first :: rest) location) :
    Stops GrammarStart finish (first :: rest) location := by
  have hstart {us : List Token} (hus : us <+: first :: rest) :
      GrammarStart us ↔ EntriesStart us := by
    refine grammarStart_iff fun t ht => ?_
    obtain ⟨rest', rfl⟩ := List.head?_eq_some_iff.mp ht
    obtain ⟨rfl, -⟩ := List.cons_prefix_cons.mp hus
    exact hfirst
  rcases h with ⟨before, t, after, hts, hbefore, hends, hlocation⟩ | ⟨h, hlocation⟩
  · refine .inl ⟨before, t, after, hts, (hstart ⟨_, hts.symm⟩).mpr hbefore, ?_, hlocation⟩
    rw [hstart ⟨after, by rw [hts, List.append_assoc, List.singleton_append]⟩]
    exact hends
  · exact .inr ⟨(hstart List.prefix_rfl).mpr h, hlocation⟩

/-- A directive is read off the tokens that make it. -/
theorem Grammar.read (h : Grammar ts d) : ofSignificant finish ts = .ok d := by
  cases h with
  | @direct name hname =>
    rw [ofSignificant, if_pos hname.isStringLiteral, hname.read]
    rfl
  | @table ts entries hentries =>
    obtain ⟨first, rest, rfl⟩ : ∃ first rest, ts = first :: rest := by
      cases hentries <;> exact ⟨_, _, rfl⟩
    have hshortcut := hentries.head
    have hkind : isShortcutToken first = true := isShortcutToken_iff.mpr hshortcut.1
    rw [ofSignificant, if_neg (Bool.eq_false_iff.mp hshortcut.isStringLiteral), if_pos hkind,
      hentries.read]
    rfl

/-- Reading gives the directive that the tokens make, or stops where they stop being one. -/
theorem ofSignificant_cases (finish : Cursor) (ts : List Token) :
    (∃ d, ofSignificant finish ts = .ok d ∧ Grammar ts d) ∨
      ∃ e, ofSignificant finish ts = .error e ∧ Stops GrammarStart finish ts e.location := by
  have hnil : GrammarStart [] := (grammarStart_iff (by simp)).mpr entriesStart_nil
  have hhead {first : Token} {rest : List Token} (hname : ¬ IsName first)
      (hshortcut : ¬ IsShortcut first) :
      Stops GrammarStart finish (first :: rest) first.location := by
    refine .inl ⟨[], first, rest, rfl, hnil, ?_, rfl⟩
    rintro ⟨more, d, h⟩
    exact h.head.elim hname hshortcut
  cases ts with
  | nil => exact .inr ⟨_, rfl, .inr ⟨hnil, rfl⟩⟩
  | cons first rest =>
    rw [ofSignificant]
    by_cases hkind : first.kind.isStringLiteral = true
    · have hshortcut : ¬ IsShortcut first := fun h => by simp [h.isStringLiteral] at hkind
      rw [if_pos hkind]
      obtain ⟨hname, hread⟩ | ⟨hname, expected, hread⟩ := readAbi_cases first
      case inr => exact .inr ⟨_, by rw [hread]; rfl, hhead hname hshortcut⟩
      rw [hread]
      cases rest with
      | nil => exact .inl ⟨_, rfl, .direct hname⟩
      | cons extra rest =>
        refine .inr ⟨_, rfl, .inl ⟨[first], extra, rest, rfl, ⟨[], _, .direct hname⟩, ?_, rfl⟩⟩
        rintro ⟨more, d, h⟩
        cases h with
        | table h => exact hshortcut h.head
    · have hname : ¬ IsName first := fun h => hkind h.isStringLiteral
      rw [if_neg hkind]
      split
      · obtain ⟨entries, hread, h⟩ | ⟨e, hread, h⟩ := readEntries_cases finish (first :: rest)
        · exact .inl ⟨_, by rw [hread]; rfl, .table h⟩
        · exact .inr ⟨e, by rw [hread]; rfl, h.grammar hname⟩
      · next hshortcut =>
        refine .inr ⟨_, rfl, hhead hname fun h => hshortcut ?_⟩
        exact isShortcutToken_iff.mpr h.1

/-- The significant tokens of arguments read as a directive if and only if they make it. -/
theorem ofSignificant_eq_ok_iff : ofSignificant finish ts = .ok d ↔ Grammar ts d := by
  refine ⟨fun h => ?_, Grammar.read⟩
  obtain ⟨d', hread, hgrammar⟩ | ⟨e, hread, -⟩ := ofSignificant_cases finish ts
  · obtain rfl : d' = d := by simpa [hread] using h
    exact hgrammar
  · simp [hread] at h

end Grammar

/-! ## Trivia between the tokens -/

section Trivia

variable {ts before after before' after' : List Token} {t' : Token}

/-- What begins something that others begin with begins them, too. -/
theorem Start.mono (h : Start ts) (hbefore : before <+: ts) : Start before := by
  obtain ⟨accepted, haccepted, hts⟩ := h
  exact ⟨accepted, haccepted, hbefore.trans hts⟩

/-- Trivia can always follow, so every start is a proper one. -/
theorem properStart_iff : ProperStart ts ↔ Start ts := by
  constructor
  · rintro ⟨accepted, haccepted, hts, -⟩
    exact ⟨accepted, haccepted, hts⟩
  · rintro ⟨accepted, ⟨d, hd⟩, more, rfl⟩
    have hnewline : significant [⟨.newline, Cursor.start, [Byte.newline]⟩] = [] := rfl
    refine ⟨ts ++ more ++ [⟨.newline, Cursor.start, [Byte.newline]⟩], ⟨d, ?_⟩, ?_, ?_⟩
    · rw [significant_append, hnewline, List.append_nil]
      exact hd
    · rw [List.append_assoc]
      exact List.prefix_append _ _
    · intro h
      have hlength := congrArg List.length h
      simp at hlength

/-- Arguments begin a directive if their significant tokens do. -/
theorem start_iff : Start ts ↔ GrammarStart (significant ts) := by
  constructor
  · rintro ⟨accepted, ⟨d, hd⟩, more, rfl⟩
    rw [significant_append] at hd
    exact ⟨significant more, d, hd⟩
  · rintro ⟨more, d, hd⟩
    refine ⟨ts ++ more, ⟨d, ?_⟩, List.prefix_append _ _⟩
    have hmore : significant more = more := by
      refine List.filter_eq_self.mpr fun t ht => ?_
      rw [hd.isTrivia t (List.mem_append_right _ ht)]
      rfl
    rw [significant_append, hmore]
    exact hd

/-- No directive begins with tokens up to and including one that offends. -/
theorem Offends.not_start (h : Offends before t) (more : List Token) :
    ¬ Start (before ++ t :: more) := by
  intro hstart
  refine h.ends (hstart.mono ⟨more, ?_⟩)
  rw [List.append_assoc, List.singleton_append]

/-- Among the same tokens at most one offends. -/
theorem Offends.unique (h : Offends before t) (h' : Offends before' t')
    (heq : before ++ t :: after = before' ++ t' :: after') : t = t' := by
  obtain ⟨mid, rfl, hmid⟩ | ⟨mid, rfl, hmid⟩ := List.append_eq_append_iff.mp heq
  · cases mid with
    | nil => exact (List.cons.inj hmid).1
    | cons u mid =>
      obtain ⟨rfl, -⟩ := List.cons.inj hmid
      exact absurd (properStart_iff.mp h'.start) (h.not_start mid)
  · cases mid with
    | nil => exact (List.cons.inj hmid).1.symm
    | cons u mid =>
      obtain ⟨rfl, -⟩ := List.cons.inj hmid
      exact absurd (properStart_iff.mp h.start) (h'.not_start mid)

/-- Arguments stop at a token that offends or at their end if their significant tokens do. -/
theorem Stops.offends {location : Cursor}
    (h : Stops GrammarStart finish (significant ts) location) :
    (∃ before t after, ts = before ++ t :: after ∧ Offends before t ∧ location = t.location) ∨
      ProperStart ts ∧ location = finish := by
  rcases h with ⟨before, t, after, hts, hstart, hends, hlocation⟩ | ⟨hstart, hlocation⟩
  · obtain ⟨us, vs, rfl, rfl, hvs⟩ := List.filter_eq_append_iff.mp hts
    obtain ⟨trivia, after, rfl, htrivia, ht, -⟩ := exists_of_significant_cons hvs
    have hbefore : significant (us ++ trivia) = significant us := by
      rw [significant_append, significant_of_trivia htrivia, List.append_nil]
    refine .inl ⟨us ++ trivia, t, after, by rw [List.append_assoc], ⟨?_, ?_, ?_⟩, hlocation⟩
    · simpa [significant] using ht
    · rw [properStart_iff, start_iff, hbefore]
      exact hstart
    · rw [start_iff, significant_append, hbefore, ht]
      exact hends
  · exact .inr ⟨properStart_iff.mpr (start_iff.mpr hstart), hlocation⟩

end Trivia

/-- Arguments are read if and only if their significant tokens make a directive, and that directive
is what reading gives. Anything else is reported at the one token that offends, or at the end of the
arguments if no token does and accepted ones go on after them, and the message begins with that
position. The tokens may be any; what the names of a directive are is meant for literals as the
lexer cuts them, which begin and end with their quotes. -/
theorem ofTokens_grammar (finish : Cursor) (ts : List Token) :
    (∀ d, ofTokens finish ts = .ok d ↔ Grammar (significant ts) d) ∧
      ∀ e, ofTokens finish ts = .error e →
        (∀ before t after, ts = before ++ t :: after → Offends before t →
          e.location = t.location) ∧
        (ProperStart ts → e.location = finish) ∧
        ((∃ before t after, ts = before ++ t :: after ∧ Offends before t) ∨ ProperStart ts) ∧
        ∃ reason, e.message = e.location.text ++ utf8 ": " ++ reason := by
  refine ⟨fun d => ofSignificant_eq_ok_iff, fun e he => ?_⟩
  have hstops : Stops GrammarStart finish (significant ts) e.location := by
    obtain ⟨d, hread, -⟩ | ⟨e', hread, hstops⟩ := ofSignificant_cases finish (significant ts)
    · simp [ofTokens, hread] at he
    · obtain rfl : e' = e := by simpa [ofTokens, hread] using he
      exact hstops
  have hmessage := e.message_eq
  obtain ⟨before, t, after, rfl, hoffends, hlocation⟩ | ⟨hstart, hlocation⟩ := hstops.offends
  · refine ⟨fun before' t' after' hts hoffends' => ?_, fun hstart => ?_,
      .inl ⟨before, t, after, rfl, hoffends⟩, hmessage⟩
    · rw [hlocation, hoffends.unique hoffends' hts]
    · exact absurd (properStart_iff.mp hstart) (hoffends.not_start after)
  · refine ⟨fun before' t' after' hts hoffends' => ?_, fun _ => hlocation, .inr hstart, hmessage⟩
    rw [hts] at hstart
    exact absurd (properStart_iff.mp hstart) (hoffends'.not_start after')

/-- `win = "C"` is a table, in `win = "C" 64` the number offends, and `win =` ends too early. -/
theorem ofTokens_grammar_entry :
    let win : Token := ⟨.identifier, ⟨1, 1, 0⟩, utf8 "win"⟩
    let sign : Token := ⟨.equal, ⟨1, 5, 4⟩, utf8 "="⟩
    let name : Token := ⟨.string, ⟨1, 7, 6⟩, utf8 "\"C\""⟩
    let blank : Token := ⟨.whitespace, ⟨1, 10, 9⟩, utf8 " "⟩
    let number : Token := ⟨.number, ⟨1, 11, 10⟩, utf8 "64"⟩
    Grammar [win, sign, name] (.table [⟨utf8 "win", utf8 "C", ⟨1, 1, 0⟩⟩]) ∧
      (∃ before t after, [win, sign, name, blank, number] = before ++ t :: after ∧
        Offends before t ∧ t.location = number.location) ∧
      ProperStart [win, sign] := by
  intro win sign name blank number
  refine ⟨?_, ?_, ?_⟩
  · obtain ⟨hread, -⟩ := ofTokens_grammar ⟨1, 10, 9⟩ [win, sign, name]
    exact (hread _).mp (by decide +kernel)
  · obtain ⟨-, herror⟩ := ofTokens_grammar ⟨1, 13, 12⟩ [win, sign, name, blank, number]
    obtain ⟨hlocation, hend, hcases, -⟩ := herror (.argument .comma number) (by decide +kernel)
    have hfinish : ¬ ProperStart [win, sign, name, blank, number] := fun h =>
      absurd (hend h) (by decide)
    obtain ⟨before, t, after, hts, hoffends⟩ := hcases.resolve_right hfinish
    exact ⟨before, t, after, hts, hoffends, (hlocation before t after hts hoffends).symm⟩
  · obtain ⟨-, herror⟩ := ofTokens_grammar ⟨1, 6, 5⟩ [win, sign]
    obtain ⟨hlocation, -, hcases, -⟩ :=
      herror (.argument .literal (endToken ⟨1, 6, 5⟩)) (by decide +kernel)
    refine hcases.resolve_left ?_
    rintro ⟨before, t, after, hts, hoffends⟩
    have hfinish : ∀ u ∈ [win, sign], u.location ≠ ⟨1, 6, 5⟩ := by decide
    exact hfinish t (by simp [hts]) (hlocation before t after hts hoffends).symm

end Directive

end CallConv
