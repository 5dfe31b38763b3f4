import Mathlib
import CallConv.Proofs.Text.Quoting

/-!
# Names that come back from their literals

The literal of a name is lexed as one token before any text, and this module says for which names
it gives the name back: a name without line breaks comes back repaired, so it has to be valid UTF-8,
and a name with a line break is read as it stands between the quotes, so nothing in it may need an
escape. A raw string literal has no escapes, and gives the text between its hashes and quotes
whatever that is.
-/

namespace CallConv

namespace Abi

/-- Whether a byte of a name is escaped in the name's literal. -/
def isEscaped (b : UInt8) : Bool := b == Byte.backslash || b == Byte.quote

/-- Each escape makes a name longer by one byte. -/
theorem length_escaped (name : Text) :
    (escaped name).length = name.length + name.countP isEscaped := by
  induction name with
  | nil => rfl
  | cons b name ih =>
    rw [escaped_cons, List.length_append, ih, List.length_cons, List.countP_cons]
    by_cases hb : b = Byte.backslash ∨ b = Byte.quote
    · have hescaped : isEscaped b = true := by simpa [isEscaped] using hb
      rw [if_pos hb, if_pos hescaped, List.length_cons, List.length_singleton]
      omega
    · have hplain : ¬ isEscaped b = true := by simpa [isEscaped] using hb
      rw [if_neg hb, if_neg hplain, List.length_singleton]
      omega

/-- Escaping leaves a name as it is if and only if it has no backslash and no quote. -/
theorem escaped_eq_self_iff {name : Text} :
    escaped name = name ↔ Byte.backslash ∉ name ∧ Byte.quote ∉ name := by
  have hcount : name.countP isEscaped = 0 ↔ Byte.backslash ∉ name ∧ Byte.quote ∉ name := by
    rw [List.countP_eq_zero]
    constructor
    · intro h
      exact ⟨fun hmem => h _ hmem rfl, fun hmem => h _ hmem rfl⟩
    · rintro ⟨hbackslash, hquote⟩ b hb hescaped
      obtain rfl | rfl : b = Byte.backslash ∨ b = Byte.quote := by
        simpa [isEscaped] using hescaped
      · exact hbackslash hb
      · exact hquote hb
  rw [← hcount]
  constructor
  · intro h
    have hlength := length_escaped name
    rw [h] at hlength
    omega
  · intro h
    have hbytes : ∀ b ∈ name,
        (if b = Byte.backslash ∨ b = Byte.quote then [Byte.backslash, b] else [b]) = [b] := by
      intro b hb
      rw [if_neg fun hescape => ?_]
      exact List.countP_eq_zero.mp h b hb (by simpa [isEscaped] using hescape)
    calc escaped name = name.flatMap fun b => [b] := List.flatMap_congr hbytes
      _ = name := List.flatMap_singleton' name

/-- A literal gives the repaired name, or the escaped bytes of a name with a line break. -/
theorem ofLiteral_quoted_eq (name : Text) (c : Cursor) :
    ofLiteral ⟨.string, c, quoted name⟩ =
      if Byte.newline ∈ name then escaped name else name.repaired := by
  have hkind : TokenKind.string ≠ TokenKind.rawString := by decide
  rw [ofLiteral, if_neg hkind, body_quoted, unquote?_escaped]
  split <;> rfl

/-- The body of a raw string literal is what stands between its opening and its closing. -/
theorem rawBody_eq (hashes : Nat) (body : Text) :
    rawBody (Rule.rawOpening [] hashes ++ body ++ Rule.rawClosing hashes) = body := by
  have hrun : ((Rule.rawOpening [] hashes ++ body ++ Rule.rawClosing hashes).drop 1).takeWhile
      (· == Byte.hash) = List.replicate hashes Byte.hash := by
    have hdrop : (Rule.rawOpening [] hashes ++ body ++ Rule.rawClosing hashes).drop 1 =
        List.replicate hashes Byte.hash ++ Byte.quote :: (body ++ Rule.rawClosing hashes) := by
      simp [Rule.rawOpening]
    rw [hdrop]
    exact Rule.takeWhile_append_cons (fun b hb => by simp [List.eq_of_mem_replicate hb])
      (by decide)
  have hopening : (Rule.rawOpening [] hashes).length = hashes + 2 := by
    rw [Rule.length_rawOpening, List.length_nil]
    omega
  have hlength : (Rule.rawOpening [] hashes ++ body ++ Rule.rawClosing hashes).length -
      (hashes + 2) - (hashes + 1) = body.length := by
    rw [List.length_append, List.length_append, hopening, Rule.length_rawClosing]
    omega
  rw [rawBody]
  simp only [hrun, List.length_replicate, hlength]
  rw [List.append_assoc, List.drop_left' hopening, List.take_left]

/-- A raw string literal that can name a convention has no mark before its letter. -/
theorem exists_of_rawString {t : Token} {r : Text} (h : Begins t.kind t.content r)
    (hkind : t.kind = .rawString) (hliteral : isLiteral t = true) :
    ∃ hashes body, t.content = Rule.rawOpening [] hashes ++ body ++ Rule.rawClosing hashes := by
  rw [hkind] at h
  obtain ⟨mark, hashes, body, hmark, hcontent⟩ := h.rawString_parts
  obtain rfl | rfl := hmark
  · exact ⟨hashes, body, hcontent⟩
  · have hhead : t.content.head? = some 0x62 := by rw [hcontent]; rfl
    simp [isLiteral, hhead] at hliteral

/-- Before any text the literal of a name is lexed as one string literal. It gives the name back if
and only if the name is valid UTF-8 without a line break, or has a line break and nothing in it that
is escaped. A raw string literal that can name a convention is a body between hashes and quotes, and
it gives just that body. -/
theorem literal_roundTrip (name rest : Text) (c : Cursor) :
    Lexer.next ⟨quoted name ++ rest, c⟩ =
        .ok (⟨.string, c, quoted name⟩, ⟨rest, c.advance (quoted name)⟩) ∧
      (ofLiteral ⟨.string, c, quoted name⟩ = name ↔
        Byte.newline ∉ name ∧ name.isUtf8 = true ∨
          Byte.newline ∈ name ∧ Byte.backslash ∉ name ∧ Byte.quote ∉ name) ∧
      ∀ lx lx' t, Lexer.next lx = .ok (t, lx') → t.kind = .rawString →
        (isLiteral t = true → ∃ hashes body,
          t.content = Rule.rawOpening [] hashes ++ body ++ Rule.rawClosing hashes) ∧
        ∀ hashes body, t.content = Rule.rawOpening [] hashes ++ body ++ Rule.rawClosing hashes →
          ofLiteral t = body := by
  refine ⟨(begins_quoted name rest).next c, ?_, fun lx lx' t hnext hkind => ⟨fun hliteral => ?_,
    fun hashes body hcontent => ?_⟩⟩
  · rw [ofLiteral_quoted_eq]
    by_cases hnewline : Byte.newline ∈ name
    · rw [if_pos hnewline, escaped_eq_self_iff]
      simp [hnewline]
    · rw [if_neg hnewline, Text.repaired_eq_self_iff]
      simp [hnewline]
  · obtain ⟨-, hbegins⟩ := begins_of_next hnext (by simp [hkind])
    exact exists_of_rawString hbegins hkind hliteral
  · rw [ofLiteral, if_pos hkind, hcontent, rawBody_eq]

/-- A raw literal with quotes and hashes in its body gives the body, and a name with a line break
comes back although a byte of it is no UTF-8. -/
theorem literal_roundTrip_raw :
    Lexer.next ⟨utf8 "r##\"a\"#b\\\"## ;", Cursor.start⟩ =
        .ok (⟨.rawString, Cursor.start, utf8 "r##\"a\"#b\\\"##"⟩, ⟨utf8 " ;", ⟨1, 13, 12⟩⟩) ∧
      ofLiteral ⟨.rawString, Cursor.start, utf8 "r##\"a\"#b\\\"##"⟩ = utf8 "a\"#b\\" ∧
      ofLiteral ⟨.string, Cursor.start, quoted [0x61, Byte.newline, 0xFF]⟩ =
        [0x61, Byte.newline, 0xFF] := by
  have hnext : Lexer.next ⟨utf8 "r##\"a\"#b\\\"## ;", Cursor.start⟩ =
      .ok (⟨.rawString, Cursor.start, utf8 "r##\"a\"#b\\\"##"⟩, ⟨utf8 " ;", ⟨1, 13, 12⟩⟩) := by
    decide +kernel
  obtain ⟨-, hname, hraw⟩ := literal_roundTrip [0x61, Byte.newline, 0xFF] [] Cursor.start
  refine ⟨hnext, (hraw _ _ _ hnext rfl).2 2 _ (by decide), hname.mpr (.inr ?_)⟩
  decide

end Abi

end CallConv
