import Mathlib
import CallConv.Proofs.Declaration.Apply
import CallConv.Proofs.Directive.Grammar
import CallConv.Proofs.Text.RoundTrip
import CallConv.Proofs.Token.Terminated
import CallConv.SourceFile.Expand

/-!
# Literals that are not decoded

A literal with an escape sequence that cannot be decoded, or with a line break, gives the text
between its quotes as the name of a convention. The marker that is written for this name escapes
each backslash and quote of it once more. So what is written is the literal of the directive if only
a line break kept it from being decoded, and another one, longer by the number of its backslashes
and quotes, if an escape sequence did (`apply_undecoded`).
-/

namespace CallConv

namespace Rule

/-- A quote stands in the body of a string literal only behind a backslash. -/
theorem StringBody.backslash_mem {body : Text} (h : StringBody body) (hquote : Byte.quote ∈ body) :
    Byte.backslash ∈ body := by
  induction h with
  | nil => simp at hquote
  | byte hne _ _ ih =>
    have hmem := (List.mem_cons.mp hquote).resolve_left (Ne.symm hne)
    exact List.mem_cons_of_mem _ (ih hmem)
  | escape => exact List.mem_cons_self

end Rule

namespace Abi

/-- A string literal that can name a convention is a body between two quotes. -/
theorem exists_stringBody {t : Token} {rest : Text} (h : Begins t.kind t.content rest)
    (hkind : t.kind = .string) (hplain : t.content.head? ≠ some 0x62) :
    Rule.StringBody (body t.content) ∧
      t.content = Byte.quote :: body t.content ++ [Byte.quote] := by
  rw [hkind] at h
  have hclosed : Unterminated.IsClosed .string t.content := Lexer.isClosed_of_begins h
  obtain ⟨opening, Tail, tail, hopening, ⟨htail, -⟩, hcontent⟩ := hclosed
  cases hopening with
  | string hmark =>
    obtain ⟨inner, hinner, rfl⟩ := htail
    obtain rfl | rfl := hmark
    · have hquotes : t.content = Byte.quote :: inner ++ [Byte.quote] := hcontent
      have hbody : body t.content = inner := by rw [hquotes, body_of_quotes]
      rw [hbody]
      exact ⟨hinner, hquotes⟩
    · rw [hcontent] at hplain
      exact absurd rfl hplain

/-- A name is not escaped in its literal if no backslash is in the body that it was read from. -/
theorem escaped_eq_self_of_stringBody {body : Text} (h : Rule.StringBody body) :
    escaped body = body ↔ Byte.backslash ∉ body := by
  rw [escaped_eq_self_iff]
  exact ⟨And.left, fun hnone => ⟨hnone, fun hquote => hnone (h.backslash_mem hquote)⟩⟩

/-- A string literal whose body has no value. -/
structure Undecoded (t : Token) (body : Text) : Prop where
  /-- It is a plain string literal. -/
  kind_eq : t.kind = .string
  /-- The body stands between two quotes. -/
  content_eq : t.content = Byte.quote :: body ++ [Byte.quote]
  /-- No quote in the body ends the literal. -/
  stringBody : Rule.StringBody body
  /-- The body cannot be decoded. -/
  unquote?_eq : Text.unquote? body = none

/-- A string literal that the lexer cuts off and that cannot be decoded is a body without a value
between two quotes. -/
theorem exists_undecoded {lx lx' : Lexer} {t : Token} (hnext : lx.next = .ok (t, lx'))
    (hkind : t.kind = .string) (hplain : t.content.head? ≠ some 0x62)
    (hnone : Text.unquote? (body t.content) = none) : Undecoded t (body t.content) := by
  have hne : t.kind ≠ .eof := by
    rw [hkind]
    decide
  obtain ⟨hbody, hcontent⟩ := exists_stringBody (begins_of_next hnext hne).2 hkind hplain
  exact ⟨hkind, hcontent, hbody, hnone⟩

namespace Undecoded

variable {t : Token} {body : Text}

/-- Only an escape sequence or a line break keeps a literal from being decoded. -/
theorem mem (h : Undecoded t body) : Byte.backslash ∈ body ∨ Byte.newline ∈ body := by
  by_contra hboth
  obtain ⟨hbackslash, hnewline⟩ := not_or.mp hboth
  -- Without a backslash the body is the escaped form of itself, which has a value.
  have hnone := h.unquote?_eq
  rw [← (escaped_eq_self_of_stringBody h.stringBody).mpr hbackslash, unquote?_escaped,
    if_neg hnewline] at hnone
  simp at hnone

/-- A body that cannot be decoded is not empty. -/
theorem ne_nil (h : Undecoded t body) : body ≠ [] := by
  rintro rfl
  simpa using h.mem

/-- A literal that cannot be decoded gives what stands between its quotes. -/
theorem ofLiteral_eq (h : Undecoded t body) : ofLiteral t = body := by
  have hkind : t.kind ≠ .rawString := by
    rw [h.kind_eq]
    decide
  have hbody : Abi.body t.content = body := by rw [h.content_eq, body_of_quotes]
  rw [ofLiteral, if_neg hkind, hbody, h.unquote?_eq, Option.getD_none]

/-- The literal that is written for the name is the one that the name was read from if and only if
there is no backslash in it. -/
theorem quoted_eq_iff (h : Undecoded t body) :
    quoted body = t.content ↔ Byte.backslash ∉ body := by
  have hquoted : quoted body = Byte.quote :: escaped body ++ [Byte.quote] := rfl
  rw [h.content_eq, hquoted, List.append_left_inj, List.cons_inj_right]
  exact escaped_eq_self_of_stringBody h.stringBody

/-- The literal that is written is longer by one byte for each backslash and quote of the name. -/
theorem length_quoted (h : Undecoded t body) :
    (quoted body).length = t.content.length + body.countP isEscaped := by
  have hquoted : quoted body = Byte.quote :: escaped body ++ [Byte.quote] := rfl
  rw [h.content_eq, hquoted]
  simp only [List.length_append, List.length_cons, length_escaped]
  omega

/-- A literal that cannot be decoded names a convention. -/
theorem isName (h : Undecoded t body) : Directive.IsName t := by
  refine ⟨.inl h.kind_eq, ?_, ?_⟩
  · rw [h.content_eq, List.cons_append, List.head?_cons]
    decide
  · rw [h.ofLiteral_eq]
    exact h.ne_nil

/-- Alone, it is the directive that names what stands between its quotes on every target. -/
theorem ofTokens_eq (h : Undecoded t body) (finish : Cursor) :
    Directive.ofTokens finish [t] = .ok (.direct body t.location) := by
  have hsignificant : significant [t] = [t] := by
    simp [significant, h.isName.isTrivia]
  rw [Directive.ofTokens, hsignificant, Directive.ofSignificant_eq_ok_iff, ← h.ofLiteral_eq]
  exact .direct h.isName

end Undecoded

end Abi

namespace Declaration

variable {d d' : Declaration} {abi : Text}

/-- A change of a settled declaration rewrites its text around the marker, and the marker of the
changed declaration has the literal of the name. -/
theorem Settled.literal_of_setAbi (h : d.Settled) {ts : List Token}
    (htokens : tokenize d.source d.origin = .ok ts) (habi : abi ≠ [])
    (hset : d.setAbi abi = .ok d') :
    d.shape.site.Rewritten abi ts d'.source ∧
      ∃ keyword literal, d'.shape.site = .named keyword literal ∧
        literal.kind = .string ∧ literal.content = Abi.quoted abi := by
  obtain ⟨d₁, hset₁, -, -, hkind, -⟩ := h.setAbi habi
  obtain rfl := Except.ok.inj (hset.symm.trans hset₁)
  obtain ⟨before, lead, after, front, keyword, literal, back, hfound, -, -, -, hliteral, -,
    hsite⟩ := h.exists_site htokens hset hkind
  have hrewritten := hfound.rewritten abi htokens
  rw [← (source_of_setAbi htokens h.classify_eq hset).1] at hrewritten
  obtain ⟨hlkind, hlcontent⟩ := Lexeme.mk.inj hliteral
  exact ⟨hrewritten, keyword, literal, hsite, hlkind, hlcontent⟩

/-- A directive that names one convention sets it on a settled declaration that does not name it
yet, and leaves every other one as it is. -/
theorem Settled.exists_apply (h : d.Settled) (habi : abi ≠ []) (location : Cursor)
    (target : Target) :
    ∃ d', (d.marker = .named abi ∧ d' = d ∧
        d.apply (.direct abi location) target = .ok (d', ⟨abi, false⟩)) ∨
      (d.marker ≠ .named abi ∧ d.setAbi abi = .ok d' ∧
        d.apply (.direct abi location) target = .ok (d', ⟨abi, true⟩)) := by
  by_cases hmarker : d.marker = .named abi
  · refine ⟨d, .inl ⟨hmarker, rfl, ?_⟩⟩
    simp [apply, Directive.resolve, Directive.choose, hmarker, Marker.name?]
  · obtain ⟨d', hset, -⟩ := h.setAbi habi
    have hchanged : (d.marker.name? != some abi) = true := by
      rw [bne_iff_ne]
      exact fun hname => hmarker (Marker.name?_eq_some_iff.mp hname)
    refine ⟨d', .inr ⟨hmarker, hset, ?_⟩⟩
    simp [apply, Directive.resolve, Directive.choose, hchanged, hset]

/-- The directive of a string literal that cannot be decoded names what stands between the quotes.
On a declaration without unassigned tokens that does not name it yet, a marker is written whose
literal escapes the backslashes and quotes of that name once more: it is the literal of the
directive if and only if that has no backslash, and otherwise it is longer, and its value is the
undecoded text and not what the escape sequences stand for. -/
theorem apply_undecoded (source : Text) (origin : Cursor) (ts : List Token) (d : Declaration)
    (target : Target) (lx lx' : Lexer) (t : Token) (htokens : tokenize source origin = .ok ts)
    (hassigned : ∀ t ∈ ts, t.kind ≠ .unassigned) (hd : classify source origin = .ok d)
    (hnext : lx.next = .ok (t, lx')) (hkind : t.kind = .string)
    (hplain : t.content.head? ≠ some 0x62)
    (hnone : Text.unquote? (Abi.body t.content) = none) :
    ∃ (body : Text) (d' : Declaration) (changed : Bool),
      t.content = Byte.quote :: body ++ [Byte.quote] ∧
      (Byte.backslash ∈ body ∨ Byte.newline ∈ body) ∧
      Abi.ofLiteral t = body ∧ body ≠ [] ∧
      (∀ finish, Directive.ofTokens finish [t] = .ok (.direct body t.location)) ∧
      d.apply (.direct body t.location) target = .ok (d', ⟨body, changed⟩) ∧
      (changed = false → d.marker = .named body ∧ d' = d) ∧
      (changed = true → d.shape.site.Rewritten body ts d'.source ∧
        ∃ keyword literal, d'.shape.site = .named keyword literal ∧ literal.kind = .string ∧
          literal.content = Abi.quoted body ∧
          (literal.content = t.content ↔ Byte.backslash ∉ body) ∧
          literal.content.length = t.content.length + body.countP Abi.isEscaped ∧
          Abi.ofLiteral literal =
            if Byte.newline ∈ body then Abi.escaped body else body.repaired) := by
  have hsettled := settled_of_classify htokens hassigned hd
  obtain ⟨rfl, rfl⟩ := of_classify hd
  have hundecoded := Abi.exists_undecoded hnext hkind hplain hnone
  have habi := hundecoded.ne_nil
  obtain ⟨d', hcases⟩ := hsettled.exists_apply habi t.location target
  -- Only a marker that does not name the body yet is written.
  obtain ⟨hmarker, hd', happly⟩ | ⟨-, hset, happly⟩ := hcases
  · exact ⟨_, d', false, hundecoded.content_eq, hundecoded.mem, hundecoded.ofLiteral_eq, habi,
      hundecoded.ofTokens_eq, happly, fun _ => ⟨hmarker, hd'⟩, fun h => absurd h (by decide)⟩
  · obtain ⟨hrewritten, keyword, ⟨kind, location, content⟩, hsite, rfl, rfl⟩ :=
      hsettled.literal_of_setAbi htokens habi hset
    exact ⟨_, d', true, hundecoded.content_eq, hundecoded.mem, hundecoded.ofLiteral_eq, habi,
      hundecoded.ofTokens_eq, happly, fun h => absurd h (by decide), fun _ =>
        ⟨hrewritten, keyword, _, hsite, rfl, rfl, hundecoded.quoted_eq_iff,
          hundecoded.length_quoted, Abi.ofLiteral_quoted_eq _ location⟩⟩

/-- A literal that only its line break keeps from being decoded is written as it is. -/
theorem apply_undecoded_break :
    ∃ d d' keyword literal, classify (utf8 "extern fn f();") Cursor.start = .ok d ∧
      d.apply (.direct (utf8 "a\nb") Cursor.start) Target.linux64 = .ok (d', ⟨utf8 "a\nb", true⟩) ∧
      d'.shape.site = .named keyword literal ∧ literal.content = utf8 "\"a\nb\"" := by
  let keyword : Token := ⟨.identifier, Cursor.start, utf8 "extern"⟩
  let ts : List Token := Lexeme.place Cursor.start
    [⟨.identifier, utf8 "extern"⟩, ⟨.whitespace, utf8 " "⟩, ⟨.identifier, utf8 "fn"⟩,
      ⟨.whitespace, utf8 " "⟩, ⟨.identifier, utf8 "f"⟩, ⟨.parenLeft, utf8 "("⟩,
      ⟨.parenRight, utf8 ")"⟩, ⟨.semicolon, utf8 ";"⟩]
  let d : Declaration :=
    ⟨utf8 "extern fn f();", Cursor.start, .function (utf8 "f") (.bare keyword)⟩
  let t : Token := ⟨.string, Cursor.start, utf8 "\"a\nb\""⟩
  have htokens : tokenize (utf8 "extern fn f();") Cursor.start = .ok ts := by decide +kernel
  have hassigned : ∀ t ∈ ts, t.kind ≠ .unassigned := by decide +kernel
  have hd : classify (utf8 "extern fn f();") Cursor.start = .ok d := by decide +kernel
  have hnext : Lexer.next ⟨t.content, Cursor.start⟩ = .ok (t, ⟨[], ⟨2, 3, 5⟩⟩) := by decide +kernel
  obtain ⟨body, d', changed, -, -, hbody, -, -, happly, hkept, hwritten⟩ :=
    apply_undecoded _ _ ts d Target.linux64 _ _ t htokens hassigned hd hnext rfl (by decide)
      (by decide +kernel)
  obtain rfl : utf8 "a\nb" = body := by
    rw [← hbody]
    decide +kernel
  obtain rfl : changed = true := by
    by_contra hunchanged
    exact Marker.noConfusion (hkept (by simpa using hunchanged)).1
  obtain ⟨-, keyword', literal, hsite, -, -, hsame, -⟩ := hwritten rfl
  exact ⟨d, d', keyword', literal, hd, happly, hsite, hsame.mpr (by decide)⟩

/-- An escape sequence that is not decoded is not kept as written either: its backslash is escaped
in the marker, whose literal then stands for another text. -/
theorem apply_undecoded_escape :
    Lexer.next ⟨utf8 "\"\\u\x7b41\x7d\"", Cursor.start⟩ =
        .ok (⟨.string, Cursor.start, utf8 "\"\\u\x7b41\x7d\""⟩, ⟨[], ⟨1, 9, 8⟩⟩) ∧
      Text.unquote? (Abi.body (utf8 "\"\\u\x7b41\x7d\"")) = none ∧
      Abi.ofLiteral ⟨.string, Cursor.start, utf8 "\"\\u\x7b41\x7d\""⟩ =
        utf8 "\\u\x7b41\x7d" ∧
      Abi.quoted (utf8 "\\u\x7b41\x7d") ≠ utf8 "\"\\u\x7b41\x7d\"" ∧
      expandSource (utf8 "#[abi(\"\\u\x7b41\x7d\")] fn f();") Target.linux64 =
        ⟨[⟨Cursor.start, .function, utf8 "f", utf8 "\\u\x7b41\x7d", true⟩], [],
          utf8 "extern \"\\\\u\x7b41\x7d\" fn f();"⟩ := by
  refine ⟨?_, ?_, ?_, ?_, ?_⟩ <;> decide +kernel

end Declaration

end CallConv
