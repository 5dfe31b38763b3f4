import Mathlib
import CallConv.Proofs.Declaration.Nesting
import CallConv.Proofs.Declaration.Outline

/-!
# The grammar of declarations

The five kinds of declarations as languages of significant tokens, put together from keywords,
groups and runs of elements by concatenation, choice and repetition. A text that falls into tokens
is classified as a kind if and only if its tokens are in the language of that kind; it is refused
for its type if and only if it is an alias, a constant or a static whose type is no function
pointer type, and it is no declaration in all other cases.
-/

namespace CallConv

open scoped Computability

namespace Grammar

/-- An attribute: a hash and a group in brackets. -/
def attr : Language Token := ofKind .hash * brackets

/-- A visibility: `pub`, with or without a group in parentheses. -/
def visibility : Language Token := word (utf8 "pub") * (1 + parens)

/-- The attributes and the visibility in front of an item. -/
def itemHead : Language Token := attr∗ * (1 + visibility)

/-- A marker: `extern`, with or without a literal that names a convention. -/
def marker : Language Token := word (utf8 "extern") * (1 + one Abi.isLiteral)

/-- A function with a body or a semicolon at its end, before which neither stands outside of all
groups. -/
def function : Language Token :=
  itemHead * (1 + word (utf8 "const")) * (1 + word (utf8 "async")) * (1 + word (utf8 "unsafe")) *
    (1 + marker) * word (utf8 "fn") * ofKind .identifier * (1 + angles) * parens *
    (proper Shape.isBodyStart .type)∗ * (ofKind .semicolon + braces)

/-- A function pointer type, whose return type may be absent but not empty. -/
def pointerType : Language Token :=
  (1 + word (utf8 "for") * angles) * (1 + word (utf8 "unsafe")) * (1 + marker) *
    word (utf8 "fn") * parens * (1 + ofKind .arrow * run (fun _ => false) .type)

/-- An alias of one of the given types. -/
def typeAlias (types : Language Token) : Language Token :=
  itemHead * word (utf8 "type") * ofKind .identifier * (1 + angles) * ofKind .equal *
    (run Shape.isSemicolon .type ⊓ types) * ofKind .semicolon

/-- The keyword and the name of a constant or static. Behind `static` the word `mut` is a keyword,
never a name. -/
def bindingName : Language Token :=
  word (utf8 "const") * ofKind .identifier +
    word (utf8 "static") * (word (utf8 "mut") * ofKind .identifier +
      (ofKind .identifier - word (utf8 "mut")))

/-- A constant or static of one of the given types, whose value may be absent but not empty. Angles
do not count in the value. -/
def binding (types : Language Token) : Language Token :=
  itemHead * bindingName * ofKind .colon * (run Shape.isTypeEnd .type ⊓ types) *
    (1 + ofKind .equal * run Shape.isSemicolon .value) * ofKind .semicolon

/-- A block of foreign items, which has a marker. -/
def foreignBlock : Language Token :=
  attr∗ * (1 + word (utf8 "unsafe")) * marker * braces

/-- The keywords that a declaration can begin with. -/
def keywords : List Text :=
  [utf8 "pub", utf8 "const", utf8 "static", utf8 "type", utf8 "async", utf8 "for", utf8 "unsafe",
    utf8 "extern", utf8 "fn"]

/-- The declarations of a kind. -/
def declaration : Kind → Language Token
  | .function => function
  | .pointerType => pointerType
  | .typeAlias => typeAlias pointerType
  | .binding => binding pointerType
  | .foreignBlock => foreignBlock

end Grammar

open Grammar

/-! ## What the languages begin with -/

section Opens

variable {A L : Language Token} {p : Token → Bool} {P Q : Token → Prop} {words : List Text}
  {text : Text}

/-- A weaker condition holds of the first tokens as well. -/
theorem Opens.mono (h : Opens P L) (hPQ : ∀ t, P t → Q t) : Opens Q L :=
  fun ts hts t ht => hPQ t (h ts hts t ht)

/-- The first token of words is the one they begin with. -/
theorem opens_one_mul (p : Token → Bool) (L : Language Token) :
    Opens (fun t => p t = true) (one p * L) := by
  intro ts hts t ht
  obtain ⟨t', rest, rfl, ht', -⟩ := mem_one_mul.mp hts
  obtain rfl := Option.some.inj ht
  exact ht'

/-- Words that begin with a token of a kind begin with it. -/
theorem opens_ofKind_mul (kind : TokenKind) (L : Language Token) :
    Opens (fun t => t.kind = kind) (ofKind kind * L) :=
  (opens_one_mul _ L).mono fun _ ht => by simpa using ht

/-- What may stand in front begins with its own first token. -/
theorem Opens.optional (h : Opens P L) (hp : ∀ t, p t = true → P t) :
    Opens P ((1 + one p * A) * L) := by
  intro ts hts t ht
  rw [add_mul, one_mul, mul_assoc] at hts
  rcases hts with hts | hts
  · exact h ts hts t ht
  · exact hp t (opens_one_mul p (A * L) ts hts t ht)

/-- The words of a language are empty or begin with one of some keywords. -/
def OpensWith (words : List Text) (L : Language Token) : Prop :=
  Opens (fun t => ∃ text ∈ words, t.isWord text = true) L

/-- Words that begin with a keyword begin with it. -/
theorem opensWith_word_mul (text : Text) (L : Language Token) : OpensWith [text] (word text * L) :=
  (opens_one_mul _ L).mono fun _ ht => ⟨text, List.mem_singleton_self text, ht⟩

/-- A keyword with what belongs to it may stand in front. -/
theorem OpensWith.optional (h : OpensWith words L) :
    OpensWith (text :: words) ((1 + word text * A) * L) :=
  Opens.optional (h.mono fun _ ⟨text', hmem, ht⟩ => ⟨text', List.mem_cons_of_mem text hmem, ht⟩)
    fun _ ht => ⟨text, List.mem_cons_self, ht⟩

/-- A keyword may stand in front. -/
theorem OpensWith.optionalWord (h : OpensWith words L) :
    OpensWith (text :: words) ((1 + word text) * L) := by
  have hoptional : OpensWith (text :: words) ((1 + word text * 1) * L) := h.optional
  rwa [mul_one] at hoptional

/-- Words do not begin with another keyword. -/
theorem OpensWith.isWord_eq_false (h : OpensWith words L) (htext : text ∉ words) :
    Opens (fun t => t.isWord text = false) L :=
  h.mono fun _ ht => Shape.isWord_eq_false_of_mem ht htext

/-- Words that begin with keywords begin with an identifier. -/
theorem OpensWith.kind (h : OpensWith words L) : Opens (fun t => t.kind = .identifier) L :=
  h.mono fun _ ⟨_, _, ht⟩ => kind_of_isWord ht

/-- The words of a language are empty or begin with a hash or with one of some keywords. -/
def Heads (words : List Text) (L : Language Token) : Prop :=
  Opens (fun t => t.kind = .hash ∨ ∃ text ∈ words, t.isWord text = true) L

/-- Words that begin with keywords begin with one of more keywords. -/
theorem OpensWith.heads {words' : List Text} (h : OpensWith words L) (hwords : words ⊆ words') :
    Heads words' L :=
  h.mono fun _ ⟨text, hmem, ht⟩ => .inr ⟨text, hwords hmem, ht⟩

/-- Attributes may stand in front. -/
theorem Heads.attrs (h : Heads words L) : Heads words (attr∗ * L) := by
  intro ts hts t ht
  rw [← Language.one_add_self_mul_kstar_eq_kstar, add_mul, one_mul, attr, mul_assoc, mul_assoc]
    at hts
  rcases hts with hts | hts
  · exact h ts hts t ht
  · exact .inl (opens_ofKind_mul .hash _ ts hts t ht)

end Opens

/-! ## What leads to the marker of a declaration -/

section Heads

variable {A L : Language Token} {words : List Text} {f : List Token → Option (List Token)}
  {text : Text} {kind closer : TokenKind}

/-- A keyword with what belongs to it is read, if nothing else begins with it. -/
theorem Reads.afterWord (h : Reads f A L) (hL : Opens (fun t => t.isWord text = false) L) :
    Reads (afterWord text f) (1 + word text * A) L := by
  have heq : CallConv.afterWord text f = CallConv.optionally (fun t => t.isWord text) f := by
    funext ts
    cases ts with
    | nil => rfl
    | cons t ts =>
      by_cases ht : t.isWord text = true <;>
        simp [CallConv.afterWord, acceptWord?, CallConv.optionally, ht]
  rw [heq]
  exact h.optionally hL

/-- A keyword that may stand in front is read, if nothing else begins with it. -/
theorem reads_word (hL : Opens (fun t => t.isWord text = false) L) :
    Reads (afterWord text some) (1 + word text) L := by
  have hword := (Reads.nothing L).afterWord hL
  rwa [mul_one] at hword

/-- A group that a token of a kind opens is read. -/
theorem reads_group (hcloser : closer.isClosing = true ∨ closer = .greater) (kind : TokenKind)
    (L : Language Token) :
    Reads (behind (fun t => t.kind == kind) (Group.close [closer]))
      (ofKind kind * inside closer) L :=
  (Group.reads_close hcloser L).behind

/-- Parentheses are read. -/
theorem reads_parens (L : Language Token) :
    Reads (behind (fun t => t.kind == .parenLeft) (Group.close [.parenRight])) parens L :=
  reads_group (.inl rfl) .parenLeft L

/-- A group that a token of a kind may open is read, if nothing else begins with such a token. -/
theorem reads_optional_group (hcloser : closer.isClosing = true ∨ closer = .greater)
    (hL : Opens (fun t => t.kind ≠ kind) L) :
    Reads (optionally (fun t => t.kind == kind) (Group.close [closer]))
      (1 + ofKind kind * inside closer) L :=
  (Group.reads_close hcloser L).optionally (hL.mono fun t ht => by simpa using ht)

/-- A group that has to begin with a token of a kind. -/
theorem guard_skipGroup? (kind : TokenKind) (hclosing : kind.closing? = some closer)
    (ts : List Token) :
    ((guard (startsWithKind kind ts) : Option Unit).bind fun _ => skipGroup? ts) =
      behind (fun t => t.kind == kind) (Group.close [closer]) ts := by
  cases ts with
  | nil => rfl
  | cons t ts =>
    by_cases ht : t.kind = kind
    · simp [startsWithKind, skipGroup?, behind, ht, hclosing]
    · simp [startsWithKind, behind, ht]

/-- Angles begin with a token that opens them. -/
theorem skipAngles?_eq :
    skipAngles? = behind (fun t => t.kind == .less) (Group.close [.greater]) := by
  funext ts
  cases ts with
  | nil => rfl
  | cons t ts => simp [skipAngles?, behind]

/-- Angles that may be absent are read, if nothing else begins with an angle. -/
theorem reads_skipOptionalAngles? (hL : Opens (fun t => t.kind ≠ .less) L) :
    Reads skipOptionalAngles? (1 + angles) L := by
  have heq : skipOptionalAngles? =
      optionally (fun t => t.kind == .less) (Group.close [.greater]) := by
    funext ts
    cases ts with
    | nil => rfl
    | cons t ts =>
      by_cases ht : t.kind = .less <;> simp [skipOptionalAngles?, skipAngles?, optionally, ht]
  rw [heq]
  exact reads_optional_group (.inr rfl) hL

/-- Parentheses that may be absent are read, if nothing else begins with a parenthesis. -/
theorem reads_skipOptionalParens? (hL : Opens (fun t => t.kind ≠ .parenLeft) L) :
    Reads skipOptionalParens? (1 + parens) L := by
  have heq : skipOptionalParens? =
      optionally (fun t => t.kind == .parenLeft) (Group.close [.parenRight]) := by
    funext ts
    cases ts with
    | nil => rfl
    | cons t ts =>
      by_cases ht : t.kind = .parenLeft <;>
        simp [skipOptionalParens?, startsWithKind, skipGroup?, TokenKind.closing?, optionally, ht]
  rw [heq]
  exact reads_optional_group (.inl rfl) hL

/-- An attribute begins with a hash and a bracket. -/
theorem mem_attr_iff {ts : List Token} : ts ∈ attr ↔ ∃ hash bracket body,
    ts = hash :: bracket :: body ∧ hash.kind = .hash ∧ bracket.kind = .bracketLeft ∧
      body ∈ inside .bracketRight := by
  simp only [attr, brackets, ofKind, mem_one_mul, beq_iff_eq]
  constructor
  · rintro ⟨hash, us, rfl, hhash, bracket, body, rfl, hbracket, hbody⟩
    exact ⟨hash, bracket, body, rfl, hhash, hbracket, hbody⟩
  · rintro ⟨hash, bracket, body, rfl, hhash, hbracket, hbody⟩
    exact ⟨hash, _, rfl, hhash, bracket, body, rfl, hbracket, hbody⟩

/-- Attributes are read, if nothing else begins with a hash. -/
theorem reads_skipAttributes? (hL : Opens (fun t => t.kind ≠ .hash) L) :
    Reads skipAttributes? attr∗ L where
  sound ts rest h := by
    induction hlen : ts.length using Nat.strong_induction_on generalizing ts with
    | _ n ih =>
      by_cases hattr : StartsAttribute ts
      · obtain ⟨hash, bracket, body, rfl, hhash, hbracket⟩ := hattr
        rw [skipAttributes?_attribute body hhash hbracket, Option.bind_eq_some_iff] at h
        obtain ⟨middle, hclose, hmiddle⟩ := h
        have hle := Group.length_le_of_close hclose
        obtain ⟨body, hbody, rfl⟩ := Group.inside_of_close hclose
        simp only [List.length_cons] at hlen
        obtain ⟨taken, htaken, rfl⟩ := ih middle.length (by omega) middle hmiddle rfl
        refine ⟨hash :: bracket :: body ++ taken, ?_, by simp⟩
        rw [← Language.one_add_self_mul_kstar_eq_kstar]
        exact .inr (Language.append_mem_mul (mem_attr_iff.mpr ⟨hash, bracket, body, rfl, hhash,
          hbracket, hbody⟩) htaken)
      · rw [skipAttributes?_of_not hattr] at h
        obtain rfl := Option.some.inj h
        exact ⟨[], Language.nil_mem_kstar _, rfl⟩
  complete taken htaken rest hrest := by
    obtain ⟨es, rfl, hes⟩ := Language.mem_kstar.mp htaken
    induction es with
    | nil =>
      refine skipAttributes?_of_not ?_
      rintro ⟨hash, bracket, body, rfl, hhash, -⟩
      exact hL _ hrest hash rfl hhash
    | cons e es ih =>
      obtain ⟨he, hmore⟩ := List.forall_mem_cons.mp hes
      obtain ⟨hash, bracket, body, rfl, hhash, hbracket, hbody⟩ := mem_attr_iff.mp he
      rw [List.flatten_cons, List.append_assoc, List.cons_append, List.cons_append,
        skipAttributes?_attribute _ hhash hbracket, Group.close_inside (.inl rfl) hbody]
      exact ih hmore (Language.join_mem_kstar hmore)

/-- The head of an item is read before keywords other than `pub`. -/
theorem reads_skipItemHead? (hL : OpensWith words L) (hpub : utf8 "pub" ∉ words) :
    Reads Shape.skipItemHead? itemHead L := by
  have hvisibility : Reads (afterWord (utf8 "pub") skipOptionalParens?) (1 + visibility) L :=
    (reads_skipOptionalParens? (hL.kind.mono fun t ht => by simp [ht])).afterWord
      (hL.isWord_eq_false hpub)
  have hhead : OpensWith (utf8 "pub" :: words) ((1 + visibility) * L) := hL.optional
  unfold Shape.skipItemHead?
  rw [skipVisibility?_eq]
  exact (reads_skipAttributes? (hhead.kind.mono fun t ht => by simp [ht])).mul hvisibility

/-- A marker that may be absent is read before keywords other than `extern`. -/
theorem reads_marker (hL : OpensWith words L) (hword : utf8 "extern" ∉ words) :
    Reads (fun ts => some (MarkerSite.read ts).2) (1 + marker) L := by
  have heq : (fun ts => some (MarkerSite.read ts).2) =
      optionally (fun t => t.isWord (utf8 "extern")) (optionally Abi.isLiteral some) := by
    funext ts
    rcases ts with _ | ⟨t, _ | ⟨literal, ts⟩⟩
    · rfl
    · by_cases ht : t.isWord (utf8 "extern") = true <;>
        simp [MarkerSite.read, acceptWord?, optionally, ht]
    · by_cases ht : t.isWord (utf8 "extern") = true
      · by_cases hliteral : Abi.isLiteral literal = true <;>
          simp [MarkerSite.read, acceptWord?, optionally, ht, hliteral]
      · simp [MarkerSite.read, acceptWord?, optionally, ht]
  -- Keywords are no literals.
  have hliteral : Opens (fun t => Abi.isLiteral t = false) L :=
    hL.kind.mono fun t ht => by simp [Abi.isLiteral, ht, TokenKind.isStringLiteral]
  have hname := (Reads.nothing L).optionally hliteral
  rw [mul_one] at hname
  rw [heq]
  exact hname.optionally (hL.isWord_eq_false hword)

end Heads

/-! ## Functions and function pointer types -/

namespace Shape

/-- A function ends with a semicolon or a body, which begin where the search for them stops. -/
theorem exists_of_mem_end {ts : List Token} (h : ts ∈ ofKind .semicolon + braces) :
    ∃ t us, ts = t :: us ∧ isBodyStart t = true := by
  rcases h with ⟨t, rfl, ht⟩ | hbraces
  · exact ⟨t, [], rfl, by simp_all [isBodyStart]⟩
  · obtain ⟨t, us, rfl, ht, -⟩ := mem_one_mul.mp hbraces
    exact ⟨t, us, rfl, by simp_all [isBodyStart]⟩

/-- The end of a function is passed over where the search for it stops. -/
theorem skipBody?_eq_some_iff {t : Token} {us rest : List Token} (h : isBodyStart t = true) :
    skipBody? (t :: us) = some rest ↔
      ∃ taken ∈ ofKind .semicolon + braces, taken ++ rest = t :: us := by
  simp only [isBodyStart, Bool.or_eq_true, beq_iff_eq] at h
  rcases h with hkind | hkind
  · have hbody : skipBody? (t :: us) = Group.close [.braceRight] us := by
      simp [skipBody?, accept?, skipGroup?, hkind, TokenKind.closing?]
    rw [hbody]
    constructor
    · intro hclose
      obtain ⟨body, hmem, rfl⟩ := Group.inside_of_close hclose
      exact ⟨t :: body, .inr (mem_one_mul.mpr ⟨t, body, rfl, by simpa using hkind, hmem⟩), rfl⟩
    · rintro ⟨taken, ⟨t', rfl, ht'⟩ | hbraces, heq⟩
      · obtain ⟨rfl, -⟩ := List.cons.inj heq
        simp [hkind] at ht'
      · obtain ⟨t', body, rfl, -, hmem⟩ := mem_one_mul.mp hbraces
        obtain ⟨-, rfl⟩ := List.cons.inj heq
        exact Group.close_inside (.inl rfl) hmem rest
  · have hbody : skipBody? (t :: us) = some us := by
      simp [skipBody?, accept?, hkind]
    rw [hbody, Option.some.injEq]
    constructor
    · rintro rfl
      exact ⟨[t], .inl ⟨t, rfl, by simpa using hkind⟩, rfl⟩
    · rintro ⟨taken, ⟨t', rfl, -⟩ | hbraces, heq⟩
      · exact (List.cons.inj heq).2.symm
      · obtain ⟨t', body, rfl, ht', -⟩ := mem_one_mul.mp hbraces
        obtain ⟨rfl, -⟩ := List.cons.inj heq
        simp [hkind] at ht'

/-- The end of a function is read behind its parameters: return type and where clause, and a
semicolon or a body. -/
theorem reads_skipEnd (L : Language Token) :
    Reads (fun ts => (splitUntil? isBodyStart true ts).bind fun found => skipBody? found.2)
      ((proper isBodyStart .type)∗ * (ofKind .semicolon + braces)) L where
  sound ts rest h := by
    simp only [Option.bind_eq_some_iff, Prod.exists] at h
    obtain ⟨before, after, hsplit, hbody⟩ := h
    obtain ⟨rfl, hbefore, hstops⟩ := Group.splitUntil_eq_some_iff.mp hsplit
    rcases hstops with rfl | ⟨t, us, rfl, ht⟩
    · simp [skipBody?, accept?, skipGroup?] at hbody
    · obtain ⟨last, hlast, heq⟩ := (skipBody?_eq_some_iff ht).mp hbody
      exact ⟨before ++ last, Language.append_mem_mul hbefore hlast, by rw [List.append_assoc, heq]⟩
  complete taken htaken rest _ := by
    obtain ⟨before, hbefore, last, hlast, rfl⟩ := Language.mem_mul.mp htaken
    obtain ⟨t, us, rfl, ht⟩ := exists_of_mem_end hlast
    have hsplit : splitUntil? isBodyStart true (before ++ t :: (us ++ rest)) =
        some (before, t :: (us ++ rest)) :=
      Group.splitUntil_eq_some_iff.mpr ⟨rfl, hbefore, .inr ⟨t, us ++ rest, rfl, ht⟩⟩
    rw [List.append_assoc, List.cons_append, hsplit]
    exact (skipBody?_eq_some_iff ht).mpr ⟨t :: us, hlast, rfl⟩

/-- What follows the name of a function is read. -/
theorem reads_skipSignature? (L : Language Token) :
    Reads skipSignature? ((1 + angles) * parens *
      ((proper isBodyStart .type)∗ * (ofKind .semicolon + braces))) L := by
  have heq : skipSignature? = fun ts => ((skipOptionalAngles? ts).bind
      (behind (fun t => t.kind == .parenLeft) (Group.close [.parenRight]))).bind
      fun ts => (splitUntil? isBodyStart true ts).bind fun found => skipBody? found.2 := by
    funext ts
    simp only [skipSignature?, Option.bind_eq_bind, Option.bind_assoc,
      ← guard_skipGroup? .parenLeft rfl]
  rw [heq]
  refine ((reads_skipOptionalAngles? ?_).mul (reads_parens _)).mul
    (reads_skipEnd L)
  rw [parens, mul_assoc]
  exact (opens_ofKind_mul .parenLeft _).mono fun t ht => by simp [ht]

/-- A declaration whose marker stands between a head and a tail is found if these are. -/
theorem exists_readMarked_iff {head : List Token → Option (List Token)}
    {tail : List Token → Option (Token × Text)} {A T : Language Token} {ts : List Token}
    (hhead : Reads head A ((1 + marker) * T))
    (htail : ∀ ts, ts ∈ T ↔ ∃ found, tail ts = some found) (hT : OpensWith [utf8 "fn"] T) :
    (∃ found, readMarked head tail ts = some found) ↔ ts ∈ A * (1 + marker) * T := by
  have hmarker := hhead.mul (reads_marker hT (by decide))
  rw [hmarker.mem_mul_iff]
  simp only [readMarked, Option.bind_eq_some_iff, Option.map_eq_some_iff, Option.some.injEq]
  constructor
  · rintro ⟨found, middle, hmiddle, found', htail', -⟩
    exact ⟨_, (htail _).mpr ⟨found', htail'⟩, middle, hmiddle, rfl⟩
  · rintro ⟨rest, hrest, middle, hmiddle, rfl⟩
    obtain ⟨found, hfound⟩ := (htail _).mp hrest
    exact ⟨_, middle, hmiddle, found, hfound, rfl⟩

/-- What leads to the marker of a function is read. -/
theorem reads_functionHead? {L : Language Token} (hL : OpensWith [utf8 "extern", utf8 "fn"] L) :
    Reads functionHead? (itemHead * (1 + word (utf8 "const")) * (1 + word (utf8 "async")) *
      (1 + word (utf8 "unsafe"))) L := by
  have hunsafeWord : OpensWith _ ((1 + word (utf8 "unsafe")) * L) := hL.optionalWord
  have hasync : OpensWith _ ((1 + word (utf8 "async")) * ((1 + word (utf8 "unsafe")) * L)) :=
    hunsafeWord.optionalWord
  have hconst : OpensWith _ ((1 + word (utf8 "const")) *
      ((1 + word (utf8 "async")) * ((1 + word (utf8 "unsafe")) * L))) := hasync.optionalWord
  exact (((reads_skipItemHead? hconst (by decide)).mul
    (reads_word (hasync.isWord_eq_false (by decide)))).mul
    (reads_word (hunsafeWord.isWord_eq_false (by decide)))).mul
    (reads_word (hL.isWord_eq_false (by decide)))

/-- What follows the marker of a function is found if it is in its language. -/
theorem exists_functionTail?_iff {ts : List Token} :
    ts ∈ word (utf8 "fn") * (ofKind .identifier * ((1 + angles) * parens *
        ((proper isBodyStart .type)∗ * (ofKind .semicolon + braces)))) ↔
      ∃ found, functionTail? ts = some found := by
  simp only [word, ofKind, mem_one_mul, beq_iff_eq]
  constructor
  · rintro ⟨fn, us, rfl, hfn, name, us, rfl, hname, hsignature⟩
    have hskip := (reads_skipSignature? 1).mem_iff.mp hsignature
    exact ⟨(fn, name.content), by simp [functionTail?, acceptWord?, hfn, accept?, hname, hskip]⟩
  · rintro ⟨found, h⟩
    simp only [functionTail?, Option.bind_eq_bind, Option.bind_eq_some_iff, Prod.exists] at h
    obtain ⟨fn, us₁, hfn, name, us₂, hname, rest, hskip, ⟨⟩, hempty, -⟩ := h
    obtain ⟨rfl, hword⟩ := acceptWord?_eq_some_iff.mp hfn
    obtain ⟨rfl, hkind⟩ := accept?_eq_some_iff.mp hname
    obtain rfl : rest = [] := by simpa using hempty
    exact ⟨fn, _, rfl, hword, name, us₂, rfl, hkind, (reads_skipSignature? 1).mem_iff.mpr hskip⟩

/-- The reader of functions finds the functions. -/
theorem exists_function_iff {ts : List Token} :
    (∃ found, outline? .function ts = some found) ↔ ts ∈ Grammar.function := by
  have htail : OpensWith [utf8 "fn"] (word (utf8 "fn") * (ofKind .identifier *
      ((1 + angles) * parens * ((proper isBodyStart .type)∗ * (ofKind .semicolon + braces))))) :=
    opensWith_word_mul _ _
  show (∃ found, readMarked functionHead? functionTail? ts = some found) ↔ _
  rw [exists_readMarked_iff (reads_functionHead? htail.optional) (fun _ => exists_functionTail?_iff)
    htail]
  simp only [Grammar.function, mul_assoc]

/-- What leads to the marker of a function pointer type is read. -/
theorem reads_pointerHead? {L : Language Token} (hL : OpensWith [utf8 "extern", utf8 "fn"] L) :
    Reads pointerHead? ((1 + word (utf8 "for") * angles) * (1 + word (utf8 "unsafe"))) L := by
  have hunsafeWord : OpensWith _ ((1 + word (utf8 "unsafe")) * L) := hL.optionalWord
  have hfor : Reads (afterWord (utf8 "for") skipAngles?) (1 + word (utf8 "for") * angles)
      ((1 + word (utf8 "unsafe")) * L) := by
    rw [skipAngles?_eq]
    exact (reads_group (.inr rfl) .less _).afterWord (hunsafeWord.isWord_eq_false (by decide))
  unfold pointerHead?
  rw [skipForAngles?_eq]
  exact hfor.mul (reads_word (hL.isWord_eq_false (by decide)))

/-- What follows the marker of a function pointer type is found if it is in its language. -/
theorem exists_pointerTail?_iff {ts : List Token} :
    ts ∈ word (utf8 "fn") * (parens * (1 + ofKind .arrow * run (fun _ => false) .type)) ↔
      ∃ found, pointerTail? ts = some found := by
  have hreturn : Reads skipReturnType? (1 + ofKind .arrow * run (fun _ => false) .type) 1 :=
    reads_skipBehind? (by simp [Opens]) (by simp [Opens])
  have hskip := (reads_parens _).mul hreturn
  have htail : ∀ ts, pointerTail? ts = (acceptWord? (utf8 "fn") ts).bind fun found =>
      ((behind (fun t => t.kind == .parenLeft) (Group.close [.parenRight]) found.2).bind
        skipReturnType?).bind fun rest =>
          (guard rest.isEmpty : Option Unit).bind fun _ => some (found.1, []) := by
    intro ts
    simp only [pointerTail?, Option.bind_eq_bind, ← guard_skipGroup? .parenLeft rfl,
      Option.bind_assoc]
  simp only [word, mem_one_mul, htail]
  constructor
  · rintro ⟨fn, us, rfl, hfn, hus⟩
    have hrest := hskip.mem_iff.mp hus
    exact ⟨(fn, []), by simp [acceptWord?, hfn, hrest]⟩
  · rintro ⟨found, h⟩
    obtain ⟨⟨fn, us⟩, hfn, hbehind⟩ := Option.bind_eq_some_iff.mp h
    obtain ⟨rfl, hword⟩ := acceptWord?_eq_some_iff.mp hfn
    obtain ⟨rest, hrest, hend⟩ := Option.bind_eq_some_iff.mp hbehind
    obtain ⟨⟨⟩, hempty, -⟩ := Option.bind_eq_some_iff.mp hend
    obtain rfl : rest = [] := by simpa using hempty
    exact ⟨fn, us, rfl, hword, hskip.mem_iff.mpr hrest⟩

/-- The reader of function pointer types finds the function pointer types. -/
theorem exists_pointerSite?_iff {ts : List Token} :
    (∃ site, pointerSite? ts = some site) ↔ ts ∈ Grammar.pointerType := by
  have htail : OpensWith [utf8 "fn"] (word (utf8 "fn") *
      (parens * (1 + ofKind .arrow * run (fun _ => false) .type))) := opensWith_word_mul _ _
  have hmarked : (∃ found, readMarked pointerHead? pointerTail? ts = some found) ↔ _ :=
    exists_readMarked_iff (reads_pointerHead? htail.optional) (fun _ => exists_pointerTail?_iff)
      htail
  simp only [Grammar.pointerType, mul_assoc] at hmarked ⊢
  rw [← hmarked, pointerSite?_eq]
  simp only [Option.map_eq_some_iff]
  constructor
  · rintro ⟨site, found, hfound, -⟩
    exact ⟨found, hfound⟩
  · rintro ⟨found, hfound⟩
    exact ⟨found.2, found, hfound, rfl⟩

/-- The reader of function pointer types finds nothing in other types. -/
theorem pointerSite?_eq_none_of_mem {ts : List Token} (h : ts ∈ Grammar.pointerTypeᶜ) :
    pointerSite? ts = none := by
  rw [Option.eq_none_iff_forall_ne_some]
  exact fun site hsite => h (exists_pointerSite?_iff.mp ⟨site, hsite⟩)

/-! ## Aliases, constants and statics -/

/-- A semicolon is where a search for one stops. -/
theorem opens_semicolon : Opens (fun t => isSemicolon t = true) (ofKind .semicolon) := by
  rintro _ ⟨t, rfl, ht⟩ t' ht'
  obtain rfl := Option.some.inj ht'
  exact ht

/-- The reader of aliases finds the aliases with the types that they have. -/
theorem exists_aliasParts?_iff {types : Language Token} {ts : List Token} :
    (∃ name inner, aliasParts? ts = some (name, inner) ∧ inner ∈ types) ↔
      ts ∈ Grammar.typeAlias types := by
  have hequal : Opens (fun t => t.kind ≠ .less)
      (ofKind .equal * ((run isSemicolon .type ⊓ types) * ofKind .semicolon)) :=
    (opens_ofKind_mul .equal _).mono fun t ht => by simp [ht]
  have hitem := opensWith_word_mul (utf8 "type") (ofKind .identifier * ((1 + angles) *
    (ofKind .equal * ((run isSemicolon .type ⊓ types) * ofKind .semicolon))))
  simp only [Grammar.typeAlias, mul_assoc]
  rw [(reads_skipItemHead? hitem (by decide)).mem_mul_iff]
  constructor
  · rintro ⟨name, inner, h, hinner⟩
    simp only [aliasParts?, Option.bind_eq_bind, Option.bind_eq_some_iff, Prod.exists,
      Option.some.injEq, Prod.mk.injEq] at h
    obtain ⟨us₁, hhead, t₁, us₂, htype, t₂, us₃, hname, us₄, hangles, t₄, us₅, hequal', inner, us₆,
      hsplit, ⟨⟩, hne, t₆, us₇, hsemicolon, ⟨⟩, hempty, rfl, rfl⟩ := h
    obtain ⟨rfl, ht₁⟩ := acceptWord?_eq_some_iff.mp htype
    obtain ⟨rfl, ht₂⟩ := accept?_eq_some_iff.mp hname
    obtain ⟨rfl, ht₄⟩ := accept?_eq_some_iff.mp hequal'
    obtain ⟨rfl, ht₆⟩ := accept?_eq_some_iff.mp hsemicolon
    obtain rfl : us₇ = [] := by simpa using hempty
    have hend : us₅ ∈ (run isSemicolon .type ⊓ types) * ofKind .semicolon :=
      (mem_run_inf_mul_iff true opens_semicolon).mpr
        ⟨inner, [t₆], hsplit, by simpa using hne, hinner, mem_ofKind_iff.mpr ⟨t₆, rfl, ht₆⟩⟩
    have htail : us₃ ∈ (1 + angles) *
        (ofKind .equal * ((run isSemicolon .type ⊓ types) * ofKind .semicolon)) :=
      (reads_skipOptionalAngles? hequal).mem_mul_iff.mpr
        ⟨t₄ :: us₅, mem_ofKind_mul.mpr ⟨t₄, us₅, rfl, ht₄, hend⟩, hangles⟩
    exact ⟨t₁ :: t₂ :: us₃, mem_one_mul.mpr ⟨t₁, _, rfl, ht₁, mem_ofKind_mul.mpr
      ⟨t₂, us₃, rfl, ht₂, htail⟩⟩, hhead⟩
  · rintro ⟨us₁, hrest, hhead⟩
    obtain ⟨t₁, us₂, rfl, ht₁, hrest⟩ := mem_one_mul.mp hrest
    obtain ⟨t₂, us₃, rfl, ht₂, hrest⟩ := mem_ofKind_mul.mp hrest
    obtain ⟨us₄, hrest, hangles⟩ := (reads_skipOptionalAngles? hequal).mem_mul_iff.mp hrest
    obtain ⟨t₄, us₅, rfl, ht₄, hrest⟩ := mem_ofKind_mul.mp hrest
    obtain ⟨inner, us₆, hsplit, hne, hinner, hsemicolon⟩ :=
      (mem_run_inf_mul_iff true opens_semicolon).mp hrest
    obtain ⟨t₆, rfl, ht₆⟩ := mem_ofKind_iff.mp hsemicolon
    refine ⟨t₂.content, inner, ?_, hinner⟩
    simp [aliasParts?, hhead, acceptWord?, ht₁, accept?, ht₂, hangles, ht₄, hsplit, hne, ht₆]

/-- A constant or static begins with its keyword. -/
theorem opensWith_bindingName_mul (L : Language Token) :
    OpensWith [utf8 "const", utf8 "static"] (bindingName * L) := by
  intro ts hts t ht
  rw [bindingName, add_mul, mul_assoc, mul_assoc] at hts
  rcases hts with hts | hts
  · exact ⟨_, by simp, opens_one_mul _ _ ts hts t ht⟩
  · exact ⟨_, by simp, opens_one_mul _ _ ts hts t ht⟩

/-- Behind `static`, a first `mut` is passed over and never the name. -/
theorem mem_staticName_mul_iff {L : Language Token} {ts : List Token} :
    ts ∈ (word (utf8 "mut") * ofKind .identifier + (ofKind .identifier - word (utf8 "mut"))) * L ↔
      ∃ t rest, skipWord (utf8 "mut") ts = t :: rest ∧ t.kind = .identifier ∧ rest ∈ L := by
  rw [add_mul, mul_assoc]
  constructor
  · rintro (hmut | hname)
    · obtain ⟨first, us, rfl, hword, hus⟩ := mem_one_mul.mp hmut
      obtain ⟨t, rest, rfl, ht, hrest⟩ := mem_ofKind_mul.mp hus
      exact ⟨t, rest, skipWord_of_isWord hword, ht, hrest⟩
    · obtain ⟨name, ⟨hkind, hnot⟩, rest, hrest, rfl⟩ := Language.mem_mul.mp hname
      obtain ⟨t, rfl, ht⟩ := mem_ofKind_iff.mp hkind
      have hword : t.isWord (utf8 "mut") = false := by
        rw [Bool.eq_false_iff]
        exact fun hword => hnot ⟨t, rfl, hword⟩
      exact ⟨t, rest, skipWord_of_not hword, ht, hrest⟩
  · rintro ⟨t, rest, hskip, ht, hrest⟩
    cases ts with
    | nil => simp [skipWord, acceptWord?] at hskip
    | cons first us =>
      cases hword : first.isWord (utf8 "mut") with
      | true =>
        rw [skipWord_of_isWord hword] at hskip
        subst hskip
        exact .inl (mem_one_mul.mpr ⟨first, _, rfl, hword,
          mem_ofKind_mul.mpr ⟨t, rest, rfl, ht, hrest⟩⟩)
      | false =>
        rw [skipWord_of_not hword] at hskip
        obtain ⟨rfl, rfl⟩ := List.cons.inj hskip
        have hname : [first] ∈ ofKind .identifier - word (utf8 "mut") := by
          refine ⟨mem_ofKind_iff.mpr ⟨first, rfl, ht⟩, ?_⟩
          rintro ⟨t', heq, hword'⟩
          obtain rfl := List.singleton_injective heq
          simp [hword] at hword'
        exact .inr (Language.append_mem_mul hname hrest)

/-- The keyword of a constant or static is passed over up to its name. -/
theorem mem_bindingName_mul_iff {L : Language Token} {ts : List Token} :
    ts ∈ bindingName * L ↔ ∃ t rest, skipBindingKeyword? ts = some (t :: rest) ∧
      t.kind = .identifier ∧ rest ∈ L := by
  rw [bindingName, add_mul, mul_assoc, mul_assoc]
  have hstatic : ∀ keyword us, keyword.isWord (utf8 "static") = true →
      skipBindingKeyword? (keyword :: us) = some (skipWord (utf8 "mut") us) := by
    intro keyword us hkeyword
    have hconst : keyword.isWord (utf8 "const") = false := isWord_eq_false hkeyword (by decide)
    simp [skipBindingKeyword?, acceptWord?, hkeyword, hconst]
  constructor
  · rintro (hts | hts)
    · obtain ⟨keyword, us, rfl, hkeyword, hus⟩ := mem_one_mul.mp hts
      obtain ⟨t, rest, rfl, ht, hrest⟩ := mem_ofKind_mul.mp hus
      exact ⟨t, rest, by simp [skipBindingKeyword?, acceptWord?, hkeyword], ht, hrest⟩
    · obtain ⟨keyword, us, rfl, hkeyword, hus⟩ := mem_one_mul.mp hts
      obtain ⟨t, rest, hskip, ht, hrest⟩ := mem_staticName_mul_iff.mp hus
      exact ⟨t, rest, by rw [hstatic keyword us hkeyword, hskip], ht, hrest⟩
  · rintro ⟨t, rest, hskip, ht, hrest⟩
    obtain ⟨keyword, taken, rfl, ⟨hconst, rfl⟩ | hkeyword, -⟩ := skipBindingKeyword?_spec hskip
    · exact .inl (mem_one_mul.mpr ⟨keyword, _, rfl, hconst,
        mem_ofKind_mul.mpr ⟨t, rest, rfl, ht, hrest⟩⟩)
    · rw [hstatic keyword _ hkeyword, Option.some.injEq] at hskip
      exact .inr (mem_one_mul.mpr ⟨keyword, _, rfl, hkeyword,
        mem_staticName_mul_iff.mpr ⟨t, rest, hskip, ht, hrest⟩⟩)

/-- The value of a constant or static is read before a semicolon. -/
theorem reads_skipValue? :
    Reads skipValue? (1 + ofKind .equal * run isSemicolon .value) (ofKind .semicolon) :=
  reads_skipBehind? opens_semicolon (opens_semicolon.mono fun t ht => by simp_all [isSemicolon])

/-- The reader of constants and statics finds these with the types that they have. -/
theorem exists_bindingParts?_iff {types : Language Token} {ts : List Token} :
    (∃ name inner, bindingParts? ts = some (name, inner) ∧ inner ∈ types) ↔
      ts ∈ Grammar.binding types := by
  have hvalue : Opens (fun t => isTypeEnd t = true)
      ((1 + ofKind .equal * run isSemicolon .value) * ofKind .semicolon) :=
    Opens.optional (opens_semicolon.mono fun t ht => by simp_all [isTypeEnd, isSemicolon])
      fun t ht => by simp_all [isTypeEnd]
  have hitem := opensWith_bindingName_mul (ofKind .colon * ((run isTypeEnd .type ⊓ types) *
    ((1 + ofKind .equal * run isSemicolon .value) * ofKind .semicolon)))
  simp only [Grammar.binding, mul_assoc] at hitem ⊢
  rw [(reads_skipItemHead? hitem (by decide)).mem_mul_iff]
  constructor
  · rintro ⟨name, inner, h, hinner⟩
    simp only [bindingParts?, Option.bind_eq_bind, Option.bind_eq_some_iff, Prod.exists,
      Option.some.injEq, Prod.mk.injEq] at h
    obtain ⟨us₁, hhead, us₂, hkeyword, t₂, us₃, hname, t₃, us₄, hcolon, inner, us₅, hsplit, ⟨⟩, hne,
      us₆, hskip, t₆, us₇, hsemicolon, ⟨⟩, hempty, rfl, rfl⟩ := h
    obtain ⟨rfl, ht₂⟩ := accept?_eq_some_iff.mp hname
    obtain ⟨rfl, ht₃⟩ := accept?_eq_some_iff.mp hcolon
    obtain ⟨rfl, ht₆⟩ := accept?_eq_some_iff.mp hsemicolon
    obtain rfl : us₇ = [] := by simpa using hempty
    have hend : us₅ ∈ (1 + ofKind .equal * run isSemicolon .value) * ofKind .semicolon :=
      reads_skipValue?.mem_mul_iff.mpr ⟨[t₆], mem_ofKind_iff.mpr ⟨t₆, rfl, ht₆⟩, hskip⟩
    have htail : us₄ ∈ (run isTypeEnd .type ⊓ types) *
        ((1 + ofKind .equal * run isSemicolon .value) * ofKind .semicolon) :=
      (mem_run_inf_mul_iff true hvalue).mpr ⟨inner, us₅, hsplit, by simpa using hne, hinner, hend⟩
    exact ⟨us₁, mem_bindingName_mul_iff.mpr ⟨t₂, _, hkeyword, ht₂,
      mem_ofKind_mul.mpr ⟨t₃, us₄, rfl, ht₃, htail⟩⟩, hhead⟩
  · rintro ⟨us₁, hrest, hhead⟩
    obtain ⟨t₂, us₃, hkeyword, ht₂, hrest⟩ := mem_bindingName_mul_iff.mp hrest
    obtain ⟨t₃, us₄, rfl, ht₃, hrest⟩ := mem_ofKind_mul.mp hrest
    obtain ⟨inner, us₅, hsplit, hne, hinner, hrest⟩ := (mem_run_inf_mul_iff true hvalue).mp hrest
    obtain ⟨us₆, hsemicolon, hskip⟩ := reads_skipValue?.mem_mul_iff.mp hrest
    obtain ⟨t₆, rfl, ht₆⟩ := mem_ofKind_iff.mp hsemicolon
    refine ⟨t₂.content, inner, ?_, hinner⟩
    simp [bindingParts?, hhead, hkeyword, accept?, ht₂, ht₃, hsplit, hne, hskip, ht₆]

/-! ## Blocks of foreign items -/

/-- A marker that has to be there is read before what is no literal. -/
theorem mem_marker_mul_iff {L : Language Token} {ts : List Token}
    (hL : Opens (fun t => Abi.isLiteral t = false) L) :
    ts ∈ marker * L ↔ ∃ site rest, MarkerSite.read ts = (some site, rest) ∧ rest ∈ L := by
  rw [marker, mul_assoc, add_mul, one_mul]
  constructor
  · intro h
    obtain ⟨keyword, us, rfl, hkeyword, hus | hus⟩ := mem_one_mul.mp h
    · refine ⟨.bare keyword, us, ?_, hus⟩
      cases us with
      | nil => simp [MarkerSite.read, acceptWord?, hkeyword]
      | cons t us =>
        have ht : Abi.isLiteral t = false := hL _ hus t rfl
        simp [MarkerSite.read, acceptWord?, hkeyword, ht]
    · obtain ⟨literal, rest, rfl, hliteral, hrest⟩ := mem_one_mul.mp hus
      exact ⟨.named keyword literal, rest, MarkerSite.read_named rest hkeyword hliteral, hrest⟩
  · rintro ⟨site, rest, hread, hrest⟩
    rcases MarkerSite.read_spec ts with hnone | ⟨site', rest', hsome, rfl, hne, hstands⟩
    · simp [hnone] at hread
    · obtain ⟨rfl, rfl⟩ : site' = site ∧ rest' = rest := by simpa [hsome] using hread
      cases site' with
      | absent fn => exact absurd rfl hne
      | bare keyword => exact mem_one_mul.mpr ⟨keyword, _, rfl, hstands, .inl hrest⟩
      | named keyword literal =>
        exact mem_one_mul.mpr ⟨keyword, _, rfl, hstands.1,
          .inr (mem_one_mul.mpr ⟨literal, _, rfl, hstands.2, hrest⟩)⟩

/-- The block behind a marker is a group in braces. -/
theorem skipBlock?_eq_some_iff {ts : List Token} : skipBlock? ts = some () ↔ ts ∈ braces := by
  have hbraces : Reads (behind (fun t => t.kind == .braceLeft) (Group.close [.braceRight]))
      braces 1 :=
    reads_group (.inl rfl) .braceLeft 1
  have hblock : skipBlock? ts =
      (behind (fun t => t.kind == .braceLeft) (Group.close [.braceRight]) ts).bind
        fun rest => guard rest.isEmpty := by
    simp only [skipBlock?, Option.bind_eq_bind, ← guard_skipGroup? .braceLeft rfl,
      Option.bind_assoc]
  rw [hbraces.mem_iff, hblock, Option.bind_eq_some_iff]
  constructor
  · rintro ⟨rest, hrest, hempty⟩
    obtain rfl : rest = [] := by simpa using hempty
    exact hrest
  · intro hrest
    exact ⟨[], hrest, rfl⟩

/-- The reader of blocks of foreign items finds these blocks. -/
theorem exists_foreignBlock?_iff {ts : List Token} :
    (∃ shape, foreignBlock? ts = some shape) ↔ ts ∈ Grammar.foreignBlock := by
  have hmarker : OpensWith [utf8 "extern"] (marker * braces) := by
    rw [marker, mul_assoc]
    exact opensWith_word_mul _ _
  have hunsafeWord : OpensWith _ ((1 + word (utf8 "unsafe")) * (marker * braces)) :=
    hmarker.optionalWord
  have hhead : Reads foreignHead? (attr∗ * (1 + word (utf8 "unsafe"))) (marker * braces) :=
    (reads_skipAttributes? (hunsafeWord.kind.mono fun t ht => by simp [ht])).mul
      (reads_word (hmarker.isWord_eq_false (by decide)))
  have hbraces : Opens (fun t => Abi.isLiteral t = false) braces :=
    (opens_ofKind_mul .braceLeft _).mono fun t ht => by
      simp [Abi.isLiteral, ht, TokenKind.isStringLiteral]
  rw [Grammar.foreignBlock, mul_assoc _ marker braces, hhead.mem_mul_iff]
  simp only [foreignBlock?_eq_some_iff, mem_marker_mul_iff hbraces, skipBlock?_eq_some_iff]
  constructor
  · rintro ⟨shape, middle, site, rest, hmiddle, hread, hrest, -⟩
    exact ⟨middle, ⟨site, rest, hread, hrest⟩, hmiddle⟩
  · rintro ⟨middle, ⟨site, rest, hread, hrest⟩, hmiddle⟩
    exact ⟨_, middle, site, rest, hmiddle, hread, hrest, rfl⟩

/-! ## Classification -/

/-- A declaration begins with an attribute or with a keyword. -/
theorem heads_declaration (kind : Kind) : Heads keywords (declaration kind) := by
  cases kind with
  | function =>
    simp only [declaration, Grammar.function, itemHead, mul_assoc]
    exact ((opensWith_word_mul (utf8 "fn")
      _).optional.optionalWord.optionalWord.optionalWord.optional.heads (by decide)).attrs
  | pointerType =>
    simp only [declaration, Grammar.pointerType, mul_assoc]
    exact (opensWith_word_mul (utf8 "fn") _).optional.optionalWord.optional.heads (by decide)
  | typeAlias =>
    simp only [declaration, Grammar.typeAlias, itemHead, mul_assoc]
    exact ((opensWith_word_mul (utf8 "type") _).optional.heads (by decide)).attrs
  | binding =>
    simp only [declaration, Grammar.binding, itemHead, mul_assoc]
    exact ((opensWith_bindingName_mul _).optional.heads (by decide)).attrs
  | foreignBlock =>
    simp only [declaration, Grammar.foreignBlock, marker, mul_assoc]
    exact ((opensWith_word_mul (utf8 "extern") _).optionalWord.heads (by decide)).attrs

/-- A name with a type is read if the type is a function pointer type. -/
theorem exists_readFramed_iff {parts : List Token → Option (Text × List Token)} {ts : List Token} :
    (∃ found, readFramed parts ts = some found) ↔
      ∃ name inner, parts ts = some (name, inner) ∧ inner ∈ Grammar.pointerType := by
  simp only [readFramed, Option.bind_eq_some_iff, Option.map_eq_some_iff, Prod.exists,
    ← exists_pointerSite?_iff]
  constructor
  · rintro ⟨name, site, name', inner, hparts, site', hsite, -⟩
    exact ⟨name', inner, hparts, site', hsite⟩
  · rintro ⟨name, inner, hparts, site, hsite⟩
    exact ⟨name, site, name, inner, hparts, site, hsite, rfl⟩

/-- The reader of a kind finds the declarations of that kind. -/
theorem exists_outline?_iff (kind : Kind) {ts : List Token} :
    (∃ found, outline? kind ts = some found) ↔ ts ∈ declaration kind := by
  cases kind with
  | function => exact exists_function_iff
  | pointerType =>
    simp only [outline?, Option.map_eq_some_iff, declaration, ← exists_pointerSite?_iff]
    constructor
    · rintro ⟨found, site, hsite, -⟩
      exact ⟨site, hsite⟩
    · rintro ⟨site, hsite⟩
      exact ⟨_, site, hsite, rfl⟩
  | typeAlias => exact exists_readFramed_iff.trans exists_aliasParts?_iff
  | binding => exact exists_readFramed_iff.trans exists_bindingParts?_iff
  | foreignBlock =>
    simp only [outline?, Option.map_eq_some_iff, declaration, ← exists_foreignBlock?_iff]
    constructor
    · rintro ⟨found, shape, hshape, -⟩
      exact ⟨shape, hshape⟩
    · rintro ⟨shape, hshape⟩
      exact ⟨_, shape, hshape, rfl⟩

variable {source : Text} {origin : Cursor} {ts : List Token}

/-- An alias of another type is refused, whatever the readers after it would find. -/
theorem read?_of_refusedAlias (h : tokenize source origin = .ok ts)
    (hmem : significant ts ∈ Grammar.typeAlias Grammar.pointerTypeᶜ) :
    ∃ location name, read? source origin (significant ts) =
      some (.error (.unsupportedAlias location name)) := by
  obtain ⟨name, inner, hparts, hinner⟩ := exists_aliasParts?_iff.mpr hmem
  have hsite := pointerSite?_eq_none_of_mem hinner
  obtain ⟨text, location, hread, -⟩ := typeAlias?_spec h hparts
  rw [hsite] at hread
  obtain ⟨hfunction, hpointer⟩ := eq_none_of_aliasParts? hparts
  exact ⟨location, name, by simp [read?, hfunction, pointerType?, hpointer, hread]⟩

/-- A constant or static of another type is refused. -/
theorem read?_of_refusedBinding
    (hmem : significant ts ∈ Grammar.binding Grammar.pointerTypeᶜ) :
    ∃ location name, read? source origin (significant ts) =
      some (.error (.unsupportedBinding location name)) := by
  obtain ⟨name, inner, hparts, hinner⟩ := exists_bindingParts?_iff.mpr hmem
  have hsite := pointerSite?_eq_none_of_mem hinner
  obtain ⟨first, more, rfl⟩ := List.exists_cons_of_ne_nil (ne_nil_of_bindingParts? hparts)
  obtain ⟨hfunction, hpointer, halias⟩ := eq_none_of_bindingParts? hparts
  exact ⟨first.location, name, by
    simp [read?, hfunction, pointerType?, hpointer, typeAlias?, halias, binding?, hparts, hsite]⟩

/-- A reader of a name with a type finds nothing if the type is neither in a language nor outside
of it. -/
theorem eq_none_of_types {parts : List Token → Option (Text × List Token)} {types : Language Token}
    (h : ¬ ∃ name inner, parts ts = some (name, inner) ∧ inner ∈ types)
    (h' : ¬ ∃ name inner, parts ts = some (name, inner) ∧ inner ∈ typesᶜ) : parts ts = none := by
  rw [Option.eq_none_iff_forall_ne_some]
  rintro ⟨name, inner⟩ hparts
  by_cases hinner : inner ∈ types
  · exact h ⟨name, inner, hparts, hinner⟩
  · exact h' ⟨name, inner, hparts, hinner⟩

/-- Tokens that are no declaration and are not refused are read by no reader. -/
theorem read?_eq_none (hkinds : ∀ kind, significant ts ∉ declaration kind)
    (halias : significant ts ∉ Grammar.typeAlias Grammar.pointerTypeᶜ)
    (hbinding : significant ts ∉ Grammar.binding Grammar.pointerTypeᶜ) :
    read? source origin (significant ts) = none := by
  have houtline : ∀ kind, outline? kind (significant ts) = none := by
    intro kind
    rw [Option.eq_none_iff_forall_ne_some]
    exact fun found hfound => hkinds kind ((exists_outline?_iff kind).mp ⟨found, hfound⟩)
  have hfunction : function? (significant ts) = none := by
    rw [function?_eq, Option.map_eq_none_iff]
    exact houtline .function
  have hpointer : pointerSite? (significant ts) = none :=
    Option.map_eq_none_iff.mp (houtline .pointerType)
  have hforeign : foreignBlock? (significant ts) = none :=
    Option.map_eq_none_iff.mp (houtline .foreignBlock)
  -- A type is a function pointer type or another one.
  have haliases : aliasParts? (significant ts) = none :=
    eq_none_of_types (fun hparts => hkinds .typeAlias (exists_aliasParts?_iff.mp hparts))
      fun hparts => halias (exists_aliasParts?_iff.mp hparts)
  have hbindings : bindingParts? (significant ts) = none :=
    eq_none_of_types (fun hparts => hkinds .binding (exists_bindingParts?_iff.mp hparts))
      fun hparts => hbinding (exists_bindingParts?_iff.mp hparts)
  simp [read?, hfunction, pointerType?, hpointer, typeAlias?, haliases, binding?, hbindings,
    hforeign]

end Shape

namespace Declaration

variable {source : Text} {origin : Cursor} {ts : List Token}

/-- A text is classified as what is read of its significant tokens. -/
theorem classify_of_read? (h : tokenize source origin = .ok ts)
    {result : Except ClassifyError Shape}
    (hread : Shape.read? source origin (significant ts) = some result) :
    classify source origin = result.map fun shape => ⟨source, origin, shape⟩ := by
  rw [classify, h]
  simp only [ofTokens, hread]

/-- A declaration of a kind is classified as one. -/
theorem exists_classify_of_mem (h : tokenize source origin = .ok ts) {kind : Kind}
    (hmem : significant ts ∈ declaration kind) :
    ∃ d, classify source origin = .ok d ∧ d.kind = kind := by
  obtain ⟨⟨name, site⟩, houtline⟩ := (Shape.exists_outline?_iff kind).mpr hmem
  obtain ⟨shape, hread, hkind, -⟩ := Shape.read?_of_outline? h houtline
  exact ⟨⟨source, origin, shape⟩, classify_of_read? h hread, hkind⟩

/-- An alias of another type is refused for its type. -/
theorem classify_of_refusedAlias (h : tokenize source origin = .ok ts)
    (hmem : significant ts ∈ Grammar.typeAlias Grammar.pointerTypeᶜ) :
    ∃ location name, classify source origin = .error (.unsupportedAlias location name) := by
  obtain ⟨location, name, hread⟩ := Shape.read?_of_refusedAlias h hmem
  exact ⟨location, name, classify_of_read? h hread⟩

/-- A constant or static of another type is refused for its type. -/
theorem classify_of_refusedBinding (h : tokenize source origin = .ok ts)
    (hmem : significant ts ∈ Grammar.binding Grammar.pointerTypeᶜ) :
    ∃ location name, classify source origin = .error (.unsupportedBinding location name) := by
  obtain ⟨location, name, hread⟩ := Shape.read?_of_refusedBinding hmem
  exact ⟨location, name, classify_of_read? h hread⟩

/-- Everything else has the shape of no kind. -/
theorem classify_of_forall_notMem (h : tokenize source origin = .ok ts)
    (hmem : (∀ kind, significant ts ∉ declaration kind) ∧
      significant ts ∉ Grammar.typeAlias Grammar.pointerTypeᶜ ∧
      significant ts ∉ Grammar.binding Grammar.pointerTypeᶜ) :
    classify source origin = .error (.unsupportedItem origin) := by
  obtain ⟨hkinds, halias, hbinding⟩ := hmem
  rw [classify, h]
  simp only [ofTokens, Shape.read?_eq_none hkinds halias hbinding]

/-- A text that falls into tokens is classified as a kind if and only if its significant tokens are
a declaration of that kind. It is refused for its type if and only if it is an alias, a constant or
a static of a type that is no function pointer type, and it has the shape of no kind in all other
cases. -/
theorem classify_grammar (source : Text) (origin : Cursor) (ts : List Token)
    (h : tokenize source origin = .ok ts) :
    (∀ kind, (∃ d, classify source origin = .ok d ∧ d.kind = kind) ↔
      significant ts ∈ declaration kind) ∧
    ((∃ location name, classify source origin = .error (.unsupportedAlias location name)) ↔
      significant ts ∈ Grammar.typeAlias Grammar.pointerTypeᶜ) ∧
    ((∃ location name, classify source origin = .error (.unsupportedBinding location name)) ↔
      significant ts ∈ Grammar.binding Grammar.pointerTypeᶜ) ∧
    (classify source origin = .error (.unsupportedItem origin) ↔
      (∀ kind, significant ts ∉ declaration kind) ∧
        significant ts ∉ Grammar.typeAlias Grammar.pointerTypeᶜ ∧
        significant ts ∉ Grammar.binding Grammar.pointerTypeᶜ) := by
  have hkinds : ∀ kind, significant ts ∈ declaration kind →
      ∃ d, classify source origin = .ok d ∧ d.kind = kind := fun _ => exists_classify_of_mem h
  have halias := classify_of_refusedAlias h
  have hbinding := classify_of_refusedBinding h
  have hitem := classify_of_forall_notMem h
  -- One of the four applies, and what it gives is given by no other.
  by_cases hdeclared : ∃ kind, significant ts ∈ declaration kind
  · obtain ⟨kind, hmem⟩ := hdeclared
    obtain ⟨d, hd, rfl⟩ := hkinds kind hmem
    refine ⟨fun kind => ⟨?_, hkinds kind⟩, ⟨by simp [hd], halias⟩, ⟨by simp [hd], hbinding⟩,
      ⟨by simp [hd], hitem⟩⟩
    rintro ⟨d', hd', rfl⟩
    obtain rfl : d = d' := Except.ok.inj (hd.symm.trans hd')
    exact hmem
  by_cases hrefusedAlias : significant ts ∈ Grammar.typeAlias Grammar.pointerTypeᶜ
  · obtain ⟨location, name, herror⟩ := halias hrefusedAlias
    exact ⟨fun kind => ⟨by simp [herror], hkinds kind⟩, ⟨fun _ => hrefusedAlias, halias⟩,
      ⟨by simp [herror], hbinding⟩, ⟨by simp [herror], hitem⟩⟩
  by_cases hrefusedBinding : significant ts ∈ Grammar.binding Grammar.pointerTypeᶜ
  · obtain ⟨location, name, herror⟩ := hbinding hrefusedBinding
    exact ⟨fun kind => ⟨by simp [herror], hkinds kind⟩, ⟨by simp [herror], halias⟩,
      ⟨fun _ => hrefusedBinding, hbinding⟩, ⟨by simp [herror], hitem⟩⟩
  · have hnone : (∀ kind, significant ts ∉ declaration kind) ∧
        significant ts ∉ Grammar.typeAlias Grammar.pointerTypeᶜ ∧
        significant ts ∉ Grammar.binding Grammar.pointerTypeᶜ :=
      ⟨fun kind hmem => hdeclared ⟨kind, hmem⟩, hrefusedAlias, hrefusedBinding⟩
    have herror := hitem hnone
    exact ⟨fun kind => ⟨by simp [herror], hkinds kind⟩, ⟨by simp [herror], halias⟩,
      ⟨by simp [herror], hbinding⟩, ⟨fun _ => hnone, hitem⟩⟩

/-- An alias with nested angles in its return type is in the grammar, and a static whose name would
be `mut` is not. -/
theorem classify_grammar_alias :
    (∃ ts, tokenize (utf8 "type F = for<'a> fn(<) -> V<V<T>>;") Cursor.start = .ok ts ∧
        significant ts ∈ declaration .typeAlias) ∧
      ∃ ts, tokenize (utf8 "static mut: fn();") Cursor.start = .ok ts ∧
        ∀ kind, significant ts ∉ declaration kind := by
  constructor
  · let fn : Token := ⟨.identifier, ⟨1, 18, 17⟩, utf8 "fn"⟩
    let ts : List Token := Lexeme.place Cursor.start
      [⟨.identifier, utf8 "type"⟩, ⟨.whitespace, utf8 " "⟩, ⟨.identifier, utf8 "F"⟩,
        ⟨.whitespace, utf8 " "⟩, ⟨.equal, utf8 "="⟩, ⟨.whitespace, utf8 " "⟩,
        ⟨.identifier, utf8 "for"⟩, ⟨.less, utf8 "<"⟩, ⟨.lifetime, utf8 "'a"⟩, ⟨.greater, utf8 ">"⟩,
        ⟨.whitespace, utf8 " "⟩, ⟨.identifier, utf8 "fn"⟩, ⟨.parenLeft, utf8 "("⟩,
        ⟨.less, utf8 "<"⟩, ⟨.parenRight, utf8 ")"⟩, ⟨.whitespace, utf8 " "⟩, ⟨.arrow, utf8 "->"⟩,
        ⟨.whitespace, utf8 " "⟩, ⟨.identifier, utf8 "V"⟩, ⟨.less, utf8 "<"⟩,
        ⟨.identifier, utf8 "V"⟩, ⟨.less, utf8 "<"⟩, ⟨.identifier, utf8 "T"⟩, ⟨.greater, utf8 ">"⟩,
        ⟨.greater, utf8 ">"⟩, ⟨.semicolon, utf8 ";"⟩]
    have htokens : tokenize (utf8 "type F = for<'a> fn(<) -> V<V<T>>;") Cursor.start = .ok ts := by
      decide +kernel
    have hd : classify (utf8 "type F = for<'a> fn(<) -> V<V<T>>;") Cursor.start =
        .ok ⟨utf8 "type F = for<'a> fn(<) -> V<V<T>>;", Cursor.start, .typeAlias (utf8 "F")
          ⟨utf8 "for<'a> fn(<) -> V<V<T>>", ⟨1, 10, 9⟩, .absent fn⟩⟩ := by
      decide +kernel
    exact ⟨ts, htokens, ((classify_grammar _ _ ts htokens).1 .typeAlias).mp ⟨_, hd, rfl⟩⟩
  · let ts : List Token := Lexeme.place Cursor.start
      [⟨.identifier, utf8 "static"⟩, ⟨.whitespace, utf8 " "⟩, ⟨.identifier, utf8 "mut"⟩,
        ⟨.colon, utf8 ":"⟩, ⟨.whitespace, utf8 " "⟩, ⟨.identifier, utf8 "fn"⟩,
        ⟨.parenLeft, utf8 "("⟩, ⟨.parenRight, utf8 ")"⟩, ⟨.semicolon, utf8 ";"⟩]
    have htokens : tokenize (utf8 "static mut: fn();") Cursor.start = .ok ts := by decide +kernel
    have hitem : classify (utf8 "static mut: fn();") Cursor.start =
        .error (.unsupportedItem Cursor.start) := by
      decide +kernel
    exact ⟨ts, htokens, ((classify_grammar _ _ ts htokens).2.2.2.mp hitem).1⟩

end Declaration

end CallConv
