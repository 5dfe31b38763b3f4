import Mathlib
import CallConv.Proofs.Declaration.Flatten
import CallConv.Proofs.SourceFile.Relex
import CallConv.Proofs.Token.Newline

/-!
# Where an item ends

The search for the end of an item counts brackets of all kinds and knows nothing of angles, while
the reader of declarations follows angles wherever it expects a type. This module compares the two:
on a text that is a declaration the search always succeeds, never leaves the text, and ends with it
unless a semicolon or braces stand outside of all brackets before the end. These can stand between
angles, and in a constant whose name is a keyword that makes the search take it for a function.
-/

namespace CallConv

open scoped Computability
open Grammar

namespace Attribute

variable {needed : Bool} {ts rest head : List Token} {t : Token} {text : Text} {kind : Kind}

/-! ## Items as elements -/

/-- A token that stands on its own neither opens nor closes a group. -/
theorem isOpening_of_isPlain {scope : Scope} (h : scope.isPlain t.kind = true) :
    t.isOpening = false ∧ t.kind.isClosing = false := by
  simp only [Scope.isPlain, Bool.and_eq_true, Option.isNone_iff_eq_none, Bool.not_eq_true'] at h
  exact ⟨by simp [Token.isOpening, h.1.1], h.1.2⟩

/-- A token that closes a group opens none. -/
theorem isOpening_of_isClosing (h : t.kind.isClosing = true) : t.isOpening = false := by
  revert h
  simp only [Token.isOpening]
  cases t.kind <;> decide

/-- What is passed over piece by piece inside of a group is passed over. -/
theorem skipDepth?_flatten {depth : Nat} {es : List (List Token)}
    (hes : ∀ e ∈ es, ∀ ts, skipDepth? (depth + 1) (e ++ ts) = skipDepth? (depth + 1) ts)
    (ts : List Token) :
    skipDepth? (depth + 1) (es.flatten ++ ts) = skipDepth? (depth + 1) ts := by
  induction es with
  | nil => rfl
  | cons e es ih =>
    rw [List.flatten_cons, List.append_assoc, hes e List.mem_cons_self]
    exact ih fun e he => hes e (List.mem_cons_of_mem _ he)

/-- Inside of a group every element is passed over as a whole, angles among them as tokens. -/
theorem skipDepth?_element {scope : Scope} {e : List Token} (h : Element scope e) (depth : Nat)
    (ts : List Token) : skipDepth? (depth + 1) (e ++ ts) = skipDepth? (depth + 1) ts := by
  induction h generalizing depth ts with
  | token hplain =>
    obtain ⟨hopening, hclosing⟩ := isOpening_of_isPlain hplain
    simp [skipDepth?, hopening, hclosing]
  | @group scope first last es hlast hes ih =>
    have hopening : first.isOpening = true := by simp [Token.isOpening, hlast]
    have hclosing := Group.isClosing_of_closing? hlast
    rw [List.cons_append, skipDepth?, if_pos hopening, List.append_assoc,
      skipDepth?_flatten fun e he ts => ih e he (depth + 1) ts]
    simp [skipDepth?, isOpening_of_isClosing hclosing, hclosing]
  | @angles scope first last es hscope hfirst hlast hes ih =>
    have hless : first.isOpening = false ∧ first.kind.isClosing = false := by
      rw [Token.isOpening, hfirst]
      decide
    have hgreater : last.isOpening = false ∧ last.kind.isClosing = false := by
      rw [Token.isOpening, hlast]
      decide
    rw [List.cons_append, skipDepth?, if_neg (by simp [hless.1]), if_neg (by simp [hless.2]),
      List.append_assoc, skipDepth?_flatten fun e he ts => ih e he depth ts]
    simp [skipDepth?, hgreater]

/-- The rest of a bracketed group is passed over up to the depth outside of it. -/
theorem skipDepth?_inside {closer : TokenKind} {body : List Token} (h : body ∈ inside closer)
    (hcloser : closer.isClosing = true) (depth : Nat) (ts : List Token) :
    skipDepth? (depth + 1) (body ++ ts) = skipDepth? depth ts := by
  obtain ⟨es, last, rfl, rfl, hes⟩ := mem_inside_iff.mp h
  rw [List.append_assoc, skipDepth?_flatten fun e he ts => skipDepth?_element (hes e he) depth ts]
  simp [skipDepth?, isOpening_of_isClosing hcloser, hcloser]

/-- Inside of groups the search goes on where they are closed. -/
theorem skipItemBody?_eq_bind (needed : Bool) (depth : Nat) (ts : List Token) :
    skipItemBody? needed depth ts = (skipDepth? depth ts).bind (skipItemBody? needed 0) := by
  induction ts generalizing depth with
  | nil => cases depth <;> rfl
  | cons t ts ih =>
    cases depth with
    | zero => rfl
    | succ depth =>
      simp only [skipItemBody?, skipDepth?]
      split
      · exact ih _
      · split
        · exact ih _
        · exact ih _

/-- An element at which the item does not end is passed over. -/
theorem skipItemBody?_proper {e : List Token} (h : e ∈ proper (isEnding needed) .value)
    (rest : List Token) : skipItemBody? needed 0 (e ++ rest) = skipItemBody? needed 0 rest := by
  obtain ⟨he, hproper⟩ := h
  have hgoes : ∀ t ∈ e.head?, t.kind ≠ .semicolon ∧ ¬ (t.kind = .braceLeft ∧ needed = false) := by
    intro t ht
    have hending := hproper t ht
    rw [Bool.eq_false_iff, Ne, isEnding_iff, not_or] at hending
    exact hending
  cases he with
  | @token _ t hplain =>
    obtain ⟨hsemicolon, hbrace⟩ := hgoes t rfl
    obtain ⟨hopening, hclosing⟩ := isOpening_of_isPlain hplain
    rw [List.singleton_append, skipItemBody?, if_neg hsemicolon, if_neg (by simpa using hbrace),
      if_neg (by simp [hopening]), if_neg (by simp [hclosing])]
  | @group _ first last es hlast hes =>
    obtain ⟨hsemicolon, hbrace⟩ := hgoes first rfl
    have hopening : first.isOpening = true := by simp [Token.isOpening, hlast]
    have hinside : es.flatten ++ [last] ∈ inside last.kind :=
      mem_inside_iff.mpr ⟨es, last, rfl, rfl, by rwa [Group.upTo_of_closing? hlast]⟩
    rw [List.cons_append, skipItemBody?, if_neg hsemicolon, if_neg (by simpa using hbrace),
      if_pos hopening, skipItemBody?_eq_bind,
      skipDepth?_inside hinside (Group.isClosing_of_closing? hlast), skipDepth?_zero]
    rfl
  | angles hscope => exact absurd rfl hscope

/-- Elements at which the item does not end are passed over. -/
theorem skipItemBody?_passed (h : ts ∈ passed (isEnding needed)) (rest : List Token) :
    skipItemBody? needed 0 (ts ++ rest) = skipItemBody? needed 0 rest := by
  obtain ⟨es, rfl, hes⟩ := Language.mem_kstar.mp h
  clear h
  induction es with
  | nil => rfl
  | cons e es ih =>
    obtain ⟨he, hmore⟩ := List.forall_mem_cons.mp hes
    rw [List.flatten_cons, List.append_assoc, skipItemBody?_proper he]
    exact ih hmore

/-- The item ends behind what ends it. -/
theorem skipItemBody?_ending (h : ts ∈ ending needed) (rest : List Token) :
    skipItemBody? needed 0 (ts ++ rest) = some rest := by
  have hsemicolon : ts ∈ ofKind .semicolon → skipItemBody? needed 0 (ts ++ rest) = some rest := by
    intro hts
    obtain ⟨t, rfl, ht⟩ := mem_ofKind_iff.mp hts
    simp [skipItemBody?, ht]
  cases needed with
  | true => exact hsemicolon h
  | false =>
    rcases h with hts | hts
    · exact hsemicolon hts
    · obtain ⟨brace, body, rfl, hbrace, hbody⟩ := mem_ofKind_mul.mp hts
      rw [List.cons_append, skipItemBody?, if_neg (by simp [hbrace]), if_pos (by simp [hbrace]),
        skipDepth?_inside hbody rfl, skipDepth?_zero]

/-- An element at which the item ends is what ends it. -/
theorem mem_ending_of_element {e : List Token} (he : Element .value e) (ht : t ∈ e.head?)
    (hending : isEnding needed t = true) : e ∈ ending needed := by
  have hends := isEnding_iff.mp hending
  cases he with
  | @token _ first hplain =>
    obtain rfl : first = t := Option.some.inj ht
    have hsemicolon : first.kind = .semicolon := by
      refine hends.resolve_right fun ⟨hbrace, _⟩ => ?_
      simp [hbrace, Scope.isPlain, TokenKind.closing?] at hplain
    have hmem : [first] ∈ ofKind .semicolon := mem_ofKind_iff.mpr ⟨first, rfl, hsemicolon⟩
    cases needed with
    | true => exact hmem
    | false => exact .inl hmem
  | @group _ first last es hlast hes =>
    obtain rfl : first = t := Option.some.inj ht
    rcases hends with hsemicolon | ⟨hbrace, rfl⟩
    · simp [hsemicolon, TokenKind.closing?] at hlast
    · have hcloser : last.kind = .braceRight := by
        rw [hbrace] at hlast
        exact (Option.some.inj hlast).symm
      refine .inr (mem_ofKind_mul.mpr ⟨first, _, rfl, hbrace, ?_⟩)
      exact mem_inside_iff.mpr ⟨es, last, rfl, hcloser, hes⟩
  | angles hscope => exact absurd rfl hscope

/-- Elements of which the last ones end the item are passed over up to the first end among them. -/
theorem exists_skipItemBody? (h : ts ∈ (element .value)∗ * ending needed) :
    ∃ taken left, ts = taken ++ left ∧ taken ∈ flat needed ∧
      ∀ rest, skipItemBody? needed 0 (ts ++ rest) = some (left ++ rest) := by
  obtain ⟨a, ha, b, hb, rfl⟩ := Language.mem_mul.mp h
  obtain ⟨es, rfl, hes⟩ := Language.mem_kstar.mp ha
  clear h ha
  induction es with
  | nil =>
    refine ⟨b, [], by simp, ?_, fun rest => skipItemBody?_ending hb rest⟩
    exact Language.append_mem_mul (Language.nil_mem_kstar _) hb
  | cons e es ih =>
    obtain ⟨he, hmore⟩ := List.forall_mem_cons.mp hes
    rw [List.flatten_cons, List.append_assoc]
    by_cases hending : ∃ t ∈ e.head?, isEnding needed t = true
    · -- The item ends with this element, whatever follows.
      obtain ⟨t, ht, hending⟩ := hending
      have hmem := mem_ending_of_element he ht hending
      refine ⟨e, es.flatten ++ b, rfl, ?_, fun rest => ?_⟩
      · exact Language.append_mem_mul (Language.nil_mem_kstar _) hmem
      · rw [List.append_assoc, skipItemBody?_ending hmem]
    · have hgoes : ∀ t ∈ e.head?, isEnding needed t = false :=
        fun t ht => by simpa using fun h => hending ⟨t, ht, h⟩
      obtain ⟨taken, left, heq, htaken, hskip⟩ := ih hmore
      obtain ⟨a, ha, b', hb', rfl⟩ := Language.mem_mul.mp htaken
      refine ⟨e ++ a ++ b', left, by simp [heq], ?_, fun rest => ?_⟩
      · exact Language.append_mem_mul (append_mem_kstar (mem_passed_of_element he hgoes) ha) hb'
      · rw [List.append_assoc, skipItemBody?_proper ⟨he, hgoes⟩]
        exact hskip rest

/-- An item that the search takes as a whole ends with a semicolon or with a closing bracket. -/
theorem exists_last_of_ending (h : ts ∈ (element .value)∗ * ending needed) :
    ∃ t, [t] <:+ ts ∧ t.kind.isFinal = true := by
  obtain ⟨a, -, b, hb, rfl⟩ := Language.mem_mul.mp h
  obtain ⟨taken, heq, t, ht, hfinal⟩ := skipItemBody?_spec (skipItemBody?_ending hb [])
  rw [List.append_nil, List.append_nil] at heq
  exact ⟨t, (heq ▸ ht).trans (List.suffix_append a b), hfinal⟩

/-! ## Trivia -/

/-- Trivia neither opens nor closes a group, and ends nothing. -/
theorem isOpening_of_isTrivia (h : t.isTrivia = true) :
    t.isOpening = false ∧ t.kind.isClosing = false ∧ t.kind ≠ .semicolon ∧ t.kind ≠ .braceLeft := by
  revert h
  simp only [Token.isTrivia, Token.isOpening]
  cases t.kind <;> decide

/-- Groups are closed by the tokens that carry meaning. -/
theorem skipDepth?_significant (depth : Nat) (ts : List Token) :
    skipDepth? depth (significant ts) = (skipDepth? depth ts).map significant := by
  induction ts generalizing depth with
  | nil => cases depth <;> rfl
  | cons t ts ih =>
    cases depth with
    | zero => rw [skipDepth?_zero, skipDepth?_zero, Option.map_some]
    | succ depth =>
      cases ht : t.isTrivia with
      | true =>
        obtain ⟨hopening, hclosing, -⟩ := isOpening_of_isTrivia ht
        rw [significant_cons_of_isTrivia ht, ih, skipDepth?, if_neg (by simp [hopening]),
          if_neg (by simp [hclosing])]
      | false =>
        rw [significant_cons ht]
        simp only [skipDepth?]
        split
        · exact ih _
        · split
          · exact ih _
          · exact ih _

/-- The item ends where the tokens that carry meaning say. -/
theorem skipItemBody?_significant (needed : Bool) (depth : Nat) (ts : List Token) :
    skipItemBody? needed depth (significant ts) =
      (skipItemBody? needed depth ts).map significant := by
  induction ts generalizing depth with
  | nil => cases depth <;> rfl
  | cons t ts ih =>
    cases ht : t.isTrivia with
    | true =>
      obtain ⟨hopening, hclosing, hsemicolon, hbrace⟩ := isOpening_of_isTrivia ht
      rw [significant_cons_of_isTrivia ht, ih]
      cases depth <;> simp [skipItemBody?, hopening, hclosing, hsemicolon, hbrace]
    | false =>
      rw [significant_cons ht]
      cases depth with
      | zero =>
        simp only [skipItemBody?]
        split
        · rfl
        · split
          · exact skipDepth?_significant 1 ts
          · split
            · exact ih _
            · split
              · rfl
              · exact ih _
      | succ depth =>
        simp only [skipItemBody?]
        split
        · exact ih _
        · split
          · exact ih _
          · exact ih _

/-- The first token that carries meaning stands behind trivia. -/
theorem exists_dropTrivia (h : significant ts = t :: rest) :
    ∃ after, dropTrivia ts = t :: after ∧ significant after = rest := by
  obtain ⟨trivia, after, rfl, htrivia, ht, hafter⟩ := exists_of_significant_cons h
  have ht' : t.isTrivia = false := by simpa [significant] using ht
  refine ⟨after, ?_, hafter⟩
  rw [dropTrivia, List.dropWhile_append_of_pos htrivia, List.dropWhile_cons_of_neg (by simp [ht'])]

/-- The first token behind trivia is the first one that carries meaning. -/
theorem head?_dropTrivia (ts : List Token) : (dropTrivia ts).head? = (significant ts).head? := by
  cases h : significant ts with
  | nil =>
    have htrivia : dropTrivia ts = [] :=
      List.dropWhile_eq_nil_iff.mpr fun t ht => by simpa using List.filter_eq_nil_iff.mp h t ht
    rw [htrivia]
  | cons t rest =>
    obtain ⟨after, hdrop, -⟩ := exists_dropTrivia h
    rw [hdrop, List.head?_cons, List.head?_cons]

/-! ## The head of an item -/

/-- The keywords that can follow `const` in a function. -/
def functionWords : List Text := [utf8 "fn", utf8 "unsafe", utf8 "async", utf8 "extern"]

/-- Where no attribute stands, the item begins. -/
theorem skipItemAttributes?_item (h : dropTrivia ts = t :: rest) (ht : t.kind ≠ .hash) :
    skipItemAttributes? ts = some (t :: rest) := by
  fun_cases skipItemAttributes? ts <;> simp_all

/-- An attribute is passed over before those behind it. -/
theorem skipItemAttributes?_attribute {hash bracket : Token} {inner body : List Token}
    (h : dropTrivia ts = hash :: inner) (hhash : hash.kind = .hash)
    (hinner : dropTrivia inner = bracket :: body) (hbracket : bracket.kind = .bracketLeft) :
    skipItemAttributes? ts = (skipDepth? 1 body).bind skipItemAttributes? := by
  fun_cases skipItemAttributes? ts <;> simp_all

/-- The rest of a bracketed group is passed over with the trivia in it. -/
theorem exists_skipDepth? {closer : TokenKind} {body : List Token} (hbody : body ∈ inside closer)
    (hcloser : closer.isClosing = true) (h : significant ts = body ++ rest) :
    ∃ after, skipDepth? 1 ts = some after ∧ significant after = rest := by
  have hskip := skipDepth?_significant 1 ts
  rw [h, skipDepth?_inside hbody hcloser, skipDepth?_zero, eq_comm] at hskip
  exact Option.map_eq_some_iff.mp hskip

/-- The attributes of an item are passed over. -/
theorem exists_skipItemAttributes? {attrs : List Token} (hattrs : attrs ∈ attr∗)
    (ht : t.kind ≠ .hash) (h : significant ts = attrs ++ t :: rest) :
    ∃ after, skipItemAttributes? ts = some (t :: after) ∧ significant after = rest := by
  obtain ⟨es, rfl, hes⟩ := Language.mem_kstar.mp hattrs
  clear hattrs
  induction es generalizing ts with
  | nil =>
    obtain ⟨after, hdrop, hafter⟩ := exists_dropTrivia h
    exact ⟨after, skipItemAttributes?_item hdrop ht, hafter⟩
  | cons e es ih =>
    obtain ⟨he, hmore⟩ := List.forall_mem_cons.mp hes
    obtain ⟨hash, bracket, body, rfl, hhash, hbracket, hbody⟩ := mem_attr_iff.mp he
    simp only [List.flatten_cons, List.cons_append, List.append_assoc] at h
    obtain ⟨inner, hhashes, hinner⟩ := exists_dropTrivia h
    obtain ⟨enclosed, hbrackets, henclosed⟩ := exists_dropTrivia hinner
    obtain ⟨after, hskip, hafter⟩ := exists_skipDepth? hbody rfl henclosed
    rw [skipItemAttributes?_attribute hhashes hhash hbrackets hbracket, hskip]
    exact ih hmore hafter

/-- The visibility of an item is passed over up to its keyword. -/
theorem exists_skipItemVisibility? {vis : List Token} (hvis : vis ∈ 1 + visibility)
    (hword : t.isWord text = true) (htext : text ≠ utf8 "pub")
    (h : significant ts = vis ++ t :: rest) (hts : dropTrivia ts = ts) :
    ∃ after, skipItemVisibility? ts = some (t :: after) ∧ significant after = rest := by
  have hkind := kind_of_isWord hword
  rcases hvis with rfl | hvis
  · obtain ⟨after, hdrop, hafter⟩ := exists_dropTrivia h
    obtain rfl := hts.symm.trans hdrop
    have hpub : startsWithWord [utf8 "pub"] (t :: after) = false := by
      simp [startsWithWord, content_of_isWord hword, htext]
    exact ⟨after, by rw [skipItemVisibility?, hpub, if_neg (by decide)], hafter⟩
  · obtain ⟨keyword, scope, rfl, hkeyword, hscope⟩ := mem_one_mul.mp hvis
    obtain ⟨inner, hdrop, hinner⟩ := exists_dropTrivia h
    obtain rfl := hts.symm.trans hdrop
    have hpub : startsWithWord [utf8 "pub"] (keyword :: inner) = true := by
      simp [startsWithWord, kind_of_isWord hkeyword, content_of_isWord hkeyword]
    rw [skipItemVisibility?, if_pos hpub, List.drop_one, List.tail_cons]
    rcases hscope with rfl | hparens
    · obtain ⟨after, hafter, hmeaning⟩ := exists_dropTrivia hinner
      exact ⟨after, by simp [hafter, hkind], hmeaning⟩
    · obtain ⟨paren, body, rfl, hparen, hbody⟩ := mem_ofKind_mul.mp hparens
      obtain ⟨enclosed, hopens, henclosed⟩ := exists_dropTrivia hinner
      obtain ⟨outside, hskip, houtside⟩ := exists_skipDepth? hbody rfl henclosed
      obtain ⟨after, hafter, hmeaning⟩ := exists_dropTrivia houtside
      exact ⟨after, by simp [hopens, hparen, hskip, hafter], hmeaning⟩

/-- Whether only a semicolon ends an item, by its keyword and the tokens behind it. -/
def keywordNeeds (text : Text) (rest : List Token) : Bool :=
  [utf8 "type", utf8 "static"].contains text ||
    ([utf8 "const"].contains text && !startsWithWord functionWords rest)

/-- Whether an item needs a semicolon is seen from its keyword and the token behind that. -/
theorem endsAtSemicolon_of_skipItemVisibility? (hword : t.isWord text = true)
    (h : skipItemVisibility? ts = some (t :: rest)) :
    endsAtSemicolon ts = keywordNeeds text (significant rest) := by
  have hstarts : ∀ words, startsWithWord words (t :: rest) = words.contains text := by
    intro words
    simp [startsWithWord, kind_of_isWord hword, content_of_isWord hword]
  have hbehind : ∀ words, startsWithWord words (dropTrivia rest) =
      startsWithWord words (significant rest) := by
    intro words
    rw [startsWithWord, head?_dropTrivia, startsWithWord]
  simp only [endsAtSemicolon, h, hstarts, List.drop_one, List.tail_cons, hbehind, keywordNeeds,
    functionWords]

/-- The search for the end of an item looks at its keyword, and then at all of its significant
tokens. -/
theorem map_significant_skipItem? (hhead : head ∈ itemHead) (hword : t.isWord text = true)
    (htext : text ≠ utf8 "pub") (h : significant ts = head ++ t :: rest) :
    (skipItem? ts).map significant =
      skipItemBody? (keywordNeeds text rest) 0 (head ++ t :: rest) := by
  obtain ⟨attrs, hattrs, vis, hvis, rfl⟩ := Language.mem_mul.mp hhead
  -- Behind the attributes stands `pub` or the keyword.
  obtain ⟨u, more, hmore, hu⟩ : ∃ u more, vis ++ t :: rest = u :: more ∧ u.kind = .identifier := by
    rcases hvis with rfl | hvis
    · exact ⟨t, rest, rfl, kind_of_isWord hword⟩
    · obtain ⟨keyword, scope, rfl, hkeyword, -⟩ := mem_one_mul.mp hvis
      exact ⟨keyword, scope ++ t :: rest, rfl, kind_of_isWord hkeyword⟩
  have htrivia : u.isTrivia = false := by rw [Token.isTrivia, hu]; rfl
  rw [List.append_assoc, hmore] at h
  obtain ⟨after, hskip, hafter⟩ := exists_skipItemAttributes? hattrs (by simp [hu]) h
  have hbody : significant (u :: after) = vis ++ t :: rest := by
    rw [significant_cons htrivia, hafter, hmore]
  have hdrop : dropTrivia (u :: after) = u :: after := by simp [dropTrivia, htrivia]
  obtain ⟨behind, hvisibility, hbehind⟩ :=
    exists_skipItemVisibility? hvis hword htext hbody hdrop
  have hpassed : attrs ∈ passed (isEnding (keywordNeeds text rest)) := by
    have hflattens : Flattens (isEnding (keywordNeeds text rest)) 0 attr∗ :=
      (pervasive_flattens fun t ht => isBodyStart_of_isEnding ht).attr.star
    exact hflattens attrs hattrs fun e he => absurd he (Language.notMem_zero e)
  rw [skipItem?, hskip, Option.bind_some, endsAtSemicolon_of_skipItemVisibility? hword hvisibility,
    hbehind, ← skipItemBody?_significant, hbody, List.append_assoc, skipItemBody?_passed hpassed]

/-! ## Declarations -/

/-- What begins like a constant function, which a constant does whose name is one of the keywords
that can follow `const` there. -/
def constFunction : Language Token :=
  itemHead * (word (utf8 "const") * (one (fun t => startsWithWord functionWords [t]) * ⊤))

/-- An item begins like a constant function if its keyword and the token behind that do, since its
head can be cut off in one way only. -/
theorem mem_constFunction_iff (hhead : head ∈ itemHead) (hword : t.isWord text = true)
    (htext : text ≠ utf8 "pub") :
    head ++ t :: rest ∈ constFunction ↔
      text = utf8 "const" ∧ startsWithWord functionWords rest = true := by
  have hread : Shape.skipItemHead? (head ++ t :: rest) = some (t :: rest) := by
    refine (reads_skipItemHead? (opensWith_word_mul text ⊤) (by simpa using htext.symm)).complete
      head hhead _ (mem_one_mul.mpr ⟨t, rest, rfl, hword, trivial⟩)
  rw [constFunction, (reads_skipItemHead? (opensWith_word_mul _ _) (by decide)).mem_mul_iff]
  constructor
  · rintro ⟨more, hmore, hskip⟩
    obtain rfl := Option.some.inj (hskip.symm.trans hread)
    obtain ⟨t', rest', heq, hconst, hrest⟩ := mem_one_mul.mp hmore
    obtain ⟨rfl, rfl⟩ := List.cons.inj heq
    obtain ⟨u, us, rfl, hu, -⟩ := mem_one_mul.mp hrest
    exact ⟨(content_of_isWord hword).symm.trans (content_of_isWord hconst), hu⟩
  · rintro ⟨rfl, hstarts⟩
    cases rest with
    | nil => simp [startsWithWord] at hstarts
    | cons u us =>
      exact ⟨_, mem_one_mul.mpr ⟨t, _, rfl, hword, mem_one_mul.mpr ⟨u, us, rfl, hstarts, trivial⟩⟩,
        hread⟩

/-- The keywords that declarations of a kind have behind their heads. -/
def itemKeywords : Kind → List Text
  | .function => [utf8 "const", utf8 "async", utf8 "unsafe", utf8 "extern", utf8 "fn"]
  | .typeAlias => [utf8 "type"]
  | .binding => [utf8 "const", utf8 "static"]
  | .foreignBlock => [utf8 "unsafe", utf8 "extern"]
  | .pointerType => []

/-- An item with its keyword: behind `const` a function goes on with a keyword. -/
structure IsItem (kind : Kind) (head : List Token) (t : Token) (text : Text) (rest : List Token) :
    Prop where
  /-- Attributes and visibility stand in front. -/
  head : head ∈ itemHead
  /-- The item begins with its keyword. -/
  word : t.isWord text = true
  /-- It is a keyword of its kind. -/
  mem : text ∈ itemKeywords kind
  /-- A constant function goes on with one of the keywords of functions. -/
  function : kind = .function → text = utf8 "const" → startsWithWord functionWords rest = true

/-- No item begins with `pub` behind its head. -/
theorem IsItem.ne_pub (h : IsItem kind head t text rest) : text ≠ utf8 "pub" := by
  rintro rfl
  exact absurd h.mem (by cases kind <;> decide)

/-- The keyword tells that an alias or a constant needs a semicolon, unless the constant begins like
a constant function. -/
theorem IsItem.keywordNeeds_iff (h : IsItem kind head t text rest) :
    keywordNeeds text rest = true ↔
      kind = .typeAlias ∨ kind = .binding ∧ head ++ t :: rest ∉ constFunction := by
  -- There are few keywords, and of what follows them only one fact counts.
  have hall : ∀ starts : Bool, ∀ text ∈ itemKeywords kind,
      (kind = .function → text = utf8 "const" → starts = true) →
        (([utf8 "type", utf8 "static"].contains text ||
          ([utf8 "const"].contains text && !starts)) = true ↔
            kind = .typeAlias ∨ kind = .binding ∧ ¬ (text = utf8 "const" ∧ starts = true)) := by
    cases kind <;> decide
  rw [mem_constFunction_iff h.head h.word h.ne_pub]
  exact hall _ text h.mem h.function

/-- Words that begin with keywords and are not empty begin with one of them. -/
theorem exists_cons_of_opensWith {words : List Text} {L : Language Token}
    (h : OpensWith words L) (hnil : [] ∉ L) (hts : ts ∈ L) :
    ∃ t rest, ts = t :: rest ∧ ∃ text ∈ words, t.isWord text = true := by
  cases ts with
  | nil => exact absurd hts hnil
  | cons t rest => exact ⟨t, rest, rfl, h _ hts t rfl⟩

/-- Words of which a part is not empty are not empty. -/
theorem nil_notMem_mul {A B : Language Token} (h : [] ∉ B) : [] ∉ A * B := by
  rintro ⟨a, -, b, hb, heq⟩
  obtain ⟨-, rfl⟩ := List.append_eq_nil_iff.mp heq
  exact h hb

/-- Words that begin with a token are not empty. -/
theorem nil_notMem_one_mul (p : Token → Bool) (L : Language Token) : [] ∉ one p * L := by
  intro h
  obtain ⟨t, rest, hnil, -⟩ := mem_one_mul.mp h
  simp at hnil

/-- A function without attributes, visibility and `const` begins with one of its keywords. -/
theorem exists_functionWord {L : Language Token}
    (h : ts ∈ (1 + word (utf8 "async")) * ((1 + word (utf8 "unsafe")) *
      ((1 + marker) * (word (utf8 "fn") * L)))) :
    ∃ t rest, ts = t :: rest ∧ ∃ text ∈ functionWords, t.isWord text = true := by
  obtain ⟨t, rest, rfl, text, htext, hword⟩ := exists_cons_of_opensWith
    (opensWith_word_mul (utf8 "fn") L).optional.optionalWord.optionalWord
    (nil_notMem_mul (nil_notMem_mul (nil_notMem_mul (nil_notMem_one_mul _ _)))) h
  have hwords : [utf8 "async", utf8 "unsafe", utf8 "extern", utf8 "fn"] ⊆ functionWords := by
    decide
  exact ⟨t, rest, rfl, text, hwords htext, hword⟩

/-- Every declaration but a pointer type is an item. -/
theorem exists_isItem (hkind : kind ≠ .pointerType) (h : ts ∈ declaration kind) :
    ∃ head t text rest, ts = head ++ t :: rest ∧ IsItem kind head t text rest := by
  cases kind with
  | pointerType => exact absurd rfl hkind
  | function =>
    simp only [declaration, function, mul_assoc] at h
    obtain ⟨head, hhead, more, hmore, rfl⟩ := Language.mem_mul.mp h
    rw [add_mul, one_mul] at hmore
    rcases hmore with hmore | hmore
    · obtain ⟨t, rest, rfl, text, htext, hword⟩ := exists_functionWord hmore
      have hwords : ∀ text ∈ functionWords,
          text ∈ itemKeywords .function ∧ text ≠ utf8 "const" := by decide
      exact ⟨head, t, text, rest, rfl, hhead, hword, (hwords text htext).1,
        fun _ hconst => absurd hconst (hwords text htext).2⟩
    · obtain ⟨t, more, rfl, hword, hmore⟩ := mem_one_mul.mp hmore
      obtain ⟨u, rest, rfl, text, htext, hu⟩ := exists_functionWord hmore
      refine ⟨head, t, _, u :: rest, rfl, hhead, hword, by decide, fun _ _ => ?_⟩
      simp [startsWithWord, kind_of_isWord hu, content_of_isWord hu, htext]
  | typeAlias =>
    simp only [declaration, typeAlias, mul_assoc] at h
    obtain ⟨head, hhead, more, hmore, rfl⟩ := Language.mem_mul.mp h
    obtain ⟨t, rest, rfl, hword, -⟩ := mem_one_mul.mp hmore
    exact ⟨head, t, _, rest, rfl, hhead, hword, by decide, by simp⟩
  | binding =>
    simp only [declaration, binding, mul_assoc] at h
    obtain ⟨head, hhead, more, hmore, rfl⟩ := Language.mem_mul.mp h
    obtain ⟨t, rest, rfl, text, htext, hword⟩ := exists_cons_of_opensWith
      (Shape.opensWith_bindingName_mul _) (nil_notMem_mul (nil_notMem_one_mul _ _)) hmore
    exact ⟨head, t, text, rest, rfl, hhead, hword, htext, by simp⟩
  | foreignBlock =>
    simp only [declaration, foreignBlock, marker, mul_assoc] at h
    obtain ⟨attrs, hattrs, more, hmore, rfl⟩ := Language.mem_mul.mp h
    obtain ⟨t, rest, rfl, text, htext, hword⟩ := exists_cons_of_opensWith
      (opensWith_word_mul (utf8 "extern") _).optionalWord
      (nil_notMem_mul (nil_notMem_one_mul _ _)) hmore
    refine ⟨attrs, t, text, rest, rfl, ?_, hword, htext, by simp⟩
    exact Language.mem_mul.mpr ⟨attrs, hattrs, [], .inl rfl, List.append_nil attrs⟩

/-- What ends an item that needs a semicolon ends other items too. -/
theorem ending_le {a b : Bool} (h : a = true → b = true) : ending b ≤ ending a := by
  cases a with
  | true => rw [h rfl]
  | false =>
    cases b with
    | true => exact le_self_add
    | false => exact le_rfl

/-- On the tokens of a declaration and any others behind them, the search finds the first end of an
item, which is one of the declaration. -/
theorem exists_skipItem? (hkind : kind ≠ .pointerType)
    (hmem : significant ts ∈ declaration kind) (more : List Token) :
    ∃ needed taken left,
      (needed = true ↔ kind = .typeAlias ∨ kind = .binding ∧ significant ts ∉ constFunction) ∧
        significant ts = taken ++ left ∧ taken ∈ flat needed ∧
        (∀ rest, skipItemBody? needed 0 (significant ts ++ rest) = some (left ++ rest)) ∧
        (skipItem? (ts ++ more)).map significant = some (left ++ significant more) := by
  obtain ⟨head, t, text, rest, heq, hitem⟩ := exists_isItem hkind hmem
  have hwhole := mem_elements_mul_ending hkind hmem
  have hneeded := hitem.keywordNeeds_iff
  rw [← heq] at hneeded
  -- The keyword is not the last token, so that the ones behind the declaration do not count.
  have hneeds : keywordNeeds text (rest ++ significant more) = keywordNeeds text rest := by
    cases rest with
    | cons u us => rfl
    | nil =>
      obtain ⟨u, hu, hfinal⟩ := exists_last_of_ending hwhole
      rw [heq] at hu
      obtain rfl : u = t := by simpa using hu
      rw [kind_of_isWord hitem.word] at hfinal
      exact absurd hfinal (by decide)
  have hsemicolon : keywordNeeds text rest = true → needsSemicolon kind = true := by
    intro h
    rcases hneeded.mp h with rfl | ⟨rfl, -⟩ <;> rfl
  have hending : (element .value)∗ * ending (needsSemicolon kind) ≤
      (element .value)∗ * ending (keywordNeeds text rest) :=
    mul_le_mul_right (ending_le hsemicolon) _
  obtain ⟨taken, left, hsplit, htaken, hskip⟩ := exists_skipItemBody? (hending hwhole)
  refine ⟨_, taken, left, hneeded, hsplit, htaken, hskip, ?_⟩
  have hall : significant (ts ++ more) = head ++ t :: (rest ++ significant more) := by
    rw [significant_append, heq, List.append_assoc, List.cons_append]
  rw [map_significant_skipItem? hitem.head hitem.word hitem.ne_pub hall, hneeds,
    ← List.cons_append, ← List.append_assoc, ← heq, hskip]

/-- An item is passed over as a whole if and only if the search takes it for one. -/
theorem eq_nil_iff_mem_flat {left : List Token}
    (h : ∀ rest, skipItemBody? needed 0 (ts ++ rest) = some (left ++ rest))
    {taken : List Token} (hsplit : ts = taken ++ left) (htaken : taken ∈ flat needed) :
    left = [] ↔ ts ∈ flat needed := by
  constructor
  · rintro rfl
    rwa [hsplit, List.append_nil]
  · intro hts
    obtain ⟨a, ha, b, hb, rfl⟩ := Language.mem_mul.mp hts
    have hskip := h []
    rw [List.append_nil, List.append_nil, skipItemBody?_passed ha, ← List.append_nil b,
      skipItemBody?_ending hb] at hskip
    exact (Option.some.inj hskip).symm

/-- Tokens without meaning are none where a token that carries meaning is the last one. -/
theorem eq_nil_of_significant {us : List Token} (h : significant us = [])
    (hlast : ∃ t, [t] <:+ ts ++ us ∧ t.isTrivia = false) : us = [] := by
  obtain ⟨t, ⟨init, hinit⟩, ht⟩ := hlast
  have htrivia : ∀ u ∈ us, u.isTrivia = true := fun u hu => by
    simpa using List.filter_eq_nil_iff.mp h u hu
  rcases last_cases htrivia hinit.symm with htrivia | heq
  · simp [ht] at htrivia
  · rwa [← heq, List.self_eq_append_right] at hinit

/-- Where the search ends on significant tokens tells where it ends on all, since it ends behind a
token that carries meaning. -/
theorem skipItem?_of_map_significant {more left : List Token}
    (hlast : ∃ t, [t] <:+ ts ∧ t.isTrivia = false)
    (h : (skipItem? (ts ++ more)).map significant = some (left ++ significant more)) :
    ∃ taken left', ts = taken ++ left' ∧ skipItem? (ts ++ more) = some (left' ++ more) ∧
      significant left' = left ∧ (left' = [] ↔ left = []) := by
  obtain ⟨rest, hskip, hrest⟩ := Option.map_eq_some_iff.mp h
  obtain ⟨item, heq, u, hu, hfinal⟩ := skipItem?_spec hskip
  rcases List.append_eq_append_iff.mp heq with ⟨x, rfl, rfl⟩ | ⟨left', rfl, rfl⟩
  · -- The search cannot have gone on over trivia.
    have hmeaning : u.isTrivia = false := by
      revert hfinal
      simp only [Token.isTrivia]
      cases u.kind <;> decide
    have hlength := congrArg List.length hrest
    simp only [significant_append, List.length_append] at hlength
    obtain rfl : left = [] := List.length_eq_zero_iff.mp (by omega)
    obtain rfl : x = [] :=
      eq_nil_of_significant (List.length_eq_zero_iff.mp (by omega)) ⟨u, hu, hmeaning⟩
    exact ⟨ts, [], by simp, hskip, rfl, Iff.rfl⟩
  · rw [significant_append, List.append_cancel_right_eq] at hrest
    refine ⟨item, left', rfl, hskip, hrest, ?_⟩
    constructor
    · rintro rfl
      exact hrest.symm
    · rintro rfl
      exact eq_nil_of_significant hrest hlast

/-- On the tokens of a text that is read as an item, before a line break and any other text, the
search for the end of the item succeeds and never leaves the text. It ends with the shortest part of
the text that is an item to a search that knows nothing of angles and takes a constant for a
function if its name is a keyword of functions. This is all of the text if no semicolon and no
braces that could end the item stand between angles, outside of all brackets. -/
theorem skipItem?_classified (source rest : Text) (origin : Cursor) (ts all : List Token)
    (d : Declaration) (htokens : tokenize source origin = .ok ts)
    (hd : Declaration.classify source origin = .ok d) (hkind : d.kind ≠ .pointerType)
    (hlast : ∃ t, [t] <:+ ts ∧ t.isTrivia = false)
    (hall : tokenize (source ++ Byte.newline :: rest) origin = .ok all) :
    ∃ after taken left needed, all = ts ++ after ∧ ts = taken ++ left ∧
      skipItem? all = some (left ++ after) ∧
      (needed = true ↔
        d.kind = .typeAlias ∨ d.kind = .binding ∧ significant ts ∉ constFunction) ∧
      significant taken ∈ flat needed ∧
      (left = [] ↔ significant ts ∈ flat needed) ∧
      ((d.kind = .binding → significant ts ∉ constFunction) →
        (d.kind ≠ .foreignBlock →
          ∀ e ∈ angles, e <:+: significant ts → e ∈ passed (isEnding needed)) → left = []) := by
  have hmem : significant ts ∈ declaration d.kind :=
    (Shape.exists_outline?_iff d.kind).mp ⟨_, (Declaration.outline?_of_classify htokens hd).1⟩
  obtain ⟨t, ht, hmeaning⟩ := hlast
  -- The text ends with a semicolon or a brace, behind which the line break changes nothing.
  have hclosed : t.kind.isClosed = true := by
    obtain ⟨u, hu, hfinal⟩ := exists_last_of_ending (mem_elements_mul_ending hkind hmem)
    obtain ⟨init, rfl⟩ := ht
    obtain rfl : u = t := by simpa [significant, hmeaning] using hu
    exact TokenKind.isClosed_of_isFinal hfinal
  obtain ⟨after, rfl⟩ := tokenize_before_newline htokens ht hclosed hall
  obtain ⟨needed, taken, left, hneeded, hsplit, htaken, hbody, hskip⟩ :=
    exists_skipItem? hkind hmem after
  obtain ⟨taken', left', rfl, hskip', rfl, hnil⟩ :=
    skipItem?_of_map_significant ⟨t, ht, hmeaning⟩ hskip
  have hflat := eq_nil_iff_mem_flat hbody hsplit htaken
  rw [significant_append, List.append_cancel_right_eq] at hsplit
  refine ⟨after, taken', left', needed, rfl, rfl, hskip', hneeded, hsplit ▸ htaken,
    hnil.trans hflat, fun hconst hangles => hnil.mpr (hflat.mpr ?_)⟩
  have hsemicolon : needed = needsSemicolon d.kind := by
    rw [Bool.eq_iff_iff, hneeded]
    cases hd : d.kind <;> simp_all [needsSemicolon]
  rw [hsemicolon] at hangles ⊢
  exact mem_passed_mul_ending hkind (fun t ht => ht) hmem hangles

/-- A static ends at the semicolon behind its braces, and not at the one inside of them. -/
theorem skipItem?_classified_static :
    ∃ ts after,
      tokenize (utf8 "static S: fn() = \x7bf;\x7d;" ++ Byte.newline :: utf8 "fn g();")
        Cursor.start = .ok (ts ++ after) ∧
      tokenize (utf8 "static S: fn() = \x7bf;\x7d;") Cursor.start = .ok ts ∧
      skipItem? (ts ++ after) = some after := by
  let ls : List Lexeme :=
    [⟨.identifier, utf8 "static"⟩, ⟨.whitespace, utf8 " "⟩, ⟨.identifier, utf8 "S"⟩,
      ⟨.colon, utf8 ":"⟩, ⟨.whitespace, utf8 " "⟩, ⟨.identifier, utf8 "fn"⟩,
      ⟨.parenLeft, utf8 "("⟩, ⟨.parenRight, utf8 ")"⟩, ⟨.whitespace, utf8 " "⟩,
      ⟨.equal, utf8 "="⟩, ⟨.whitespace, utf8 " "⟩, ⟨.braceLeft, utf8 "\x7b"⟩,
      ⟨.identifier, utf8 "f"⟩, ⟨.semicolon, utf8 ";"⟩, ⟨.braceRight, utf8 "\x7d"⟩,
      ⟨.semicolon, utf8 ";"⟩]
  let ts : List Token := Lexeme.place Cursor.start ls
  let all : List Token := Lexeme.place Cursor.start (ls ++
    [⟨.newline, [Byte.newline]⟩, ⟨.identifier, utf8 "fn"⟩, ⟨.whitespace, utf8 " "⟩,
      ⟨.identifier, utf8 "g"⟩, ⟨.parenLeft, utf8 "("⟩, ⟨.parenRight, utf8 ")"⟩,
      ⟨.semicolon, utf8 ";"⟩])
  let d : Declaration := ⟨utf8 "static S: fn() = \x7bf;\x7d;", Cursor.start,
    .binding (utf8 "S") (.absent ⟨.identifier, ⟨1, 11, 10⟩, utf8 "fn"⟩)⟩
  have htokens : tokenize (utf8 "static S: fn() = \x7bf;\x7d;") Cursor.start = .ok ts := by
    decide +kernel
  have hall : tokenize (utf8 "static S: fn() = \x7bf;\x7d;" ++ Byte.newline :: utf8 "fn g();")
      Cursor.start = .ok all := by
    decide +kernel
  have hd : Declaration.classify (utf8 "static S: fn() = \x7bf;\x7d;") Cursor.start = .ok d := by
    decide +kernel
  obtain ⟨after, taken, left, needed, hafter, -, hskip, -, -, -, hwhole⟩ :=
    skipItem?_classified _ (utf8 "fn g();") _ ts all d htokens hd (by decide)
      ⟨⟨.semicolon, ⟨1, 22, 21⟩, utf8 ";"⟩, by decide +kernel, by decide⟩ hall
  -- The static begins with its keyword, and there are no angles in it.
  have hstatic : significant ts ∉ constFunction := by
    let keyword : Token := ⟨.identifier, Cursor.start, utf8 "static"⟩
    have hword : keyword.isWord (utf8 "static") = true := by decide
    have hhead : ([] : List Token) ∈ itemHead :=
      Language.mem_mul.mpr ⟨[], Language.nil_mem_kstar _, [], .inl rfl, rfl⟩
    exact fun h => absurd ((mem_constFunction_iff hhead hword (by decide)).mp h).1 (by decide)
  have hless : ∀ t ∈ significant ts, t.kind ≠ .less := by decide +kernel
  obtain rfl : left = [] := by
    refine hwhole (fun _ => hstatic) fun _ e he hpart => ?_
    obtain ⟨first, more, rfl, hfirst, -⟩ := mem_ofKind_mul.mp he
    exact absurd hfirst (hless first (hpart.subset List.mem_cons_self))
  rw [hafter] at hall hskip
  exact ⟨ts, after, hall, htokens, hskip⟩

/-- The search stops at braces between angles, which belong to the return type of the function. -/
theorem skipItem?_cut_short :
    ∃ ts all d, tokenize (utf8 "fn f() -> Foo<\x7b 3 \x7d> \x7b \x7d") Cursor.start = .ok ts ∧
      Declaration.classify (utf8 "fn f() -> Foo<\x7b 3 \x7d> \x7b \x7d") Cursor.start = .ok d ∧
      d.kind = .function ∧ (∃ t, [t] <:+ ts ∧ t.isTrivia = false) ∧
      tokenize (utf8 "fn f() -> Foo<\x7b 3 \x7d> \x7b \x7d" ++ [Byte.newline]) Cursor.start =
        .ok all ∧
      ∃ left, skipItem? all = some left ∧ all.length - left.length < ts.length := by
  let ls : List Lexeme :=
    [⟨.identifier, utf8 "fn"⟩, ⟨.whitespace, utf8 " "⟩, ⟨.identifier, utf8 "f"⟩,
      ⟨.parenLeft, utf8 "("⟩, ⟨.parenRight, utf8 ")"⟩, ⟨.whitespace, utf8 " "⟩,
      ⟨.arrow, utf8 "->"⟩, ⟨.whitespace, utf8 " "⟩, ⟨.identifier, utf8 "Foo"⟩, ⟨.less, utf8 "<"⟩,
      ⟨.braceLeft, utf8 "\x7b"⟩, ⟨.whitespace, utf8 " "⟩, ⟨.number, utf8 "3"⟩,
      ⟨.whitespace, utf8 " "⟩, ⟨.braceRight, utf8 "\x7d"⟩, ⟨.greater, utf8 ">"⟩,
      ⟨.whitespace, utf8 " "⟩, ⟨.braceLeft, utf8 "\x7b"⟩, ⟨.whitespace, utf8 " "⟩,
      ⟨.braceRight, utf8 "\x7d"⟩]
  let all : List Token := Lexeme.place Cursor.start (ls ++ [⟨.newline, [Byte.newline]⟩])
  refine ⟨Lexeme.place Cursor.start ls, all, ⟨utf8 "fn f() -> Foo<\x7b 3 \x7d> \x7b \x7d",
    Cursor.start, .function (utf8 "f") (.absent ⟨.identifier, Cursor.start, utf8 "fn"⟩)⟩,
    by decide +kernel, by decide +kernel, rfl,
    ⟨⟨.braceRight, ⟨1, 24, 23⟩, utf8 "\x7d"⟩, by decide +kernel, by decide⟩, by decide +kernel,
    all.drop 15, by decide +kernel, by decide⟩

end Attribute

end CallConv
