import Mathlib
import CallConv.Proofs.Declaration.Insert
import CallConv.Proofs.Text.Rune

/-!
# Names between quotes

The literal of a convention's name escapes what would end it and leaves every other byte as it is.
Reading the literal takes the escapes away again and decodes and encodes all other code points, so
that a name of valid UTF-8 comes back as it was, unless it has a line break, which no literal can
have. A name that is not empty is never read back as an empty one.
-/

namespace CallConv

namespace Rune

/-- A scalar value is encoded in one to four bytes. -/
theorem encode_eq {code : Nat} (h : code.isValidChar) :
    encode code =
      if code ≤ 127 then [UInt8.ofNat code]
      else if code ≤ 2047 then
        [UInt8.ofNat (code / 64 % 32 + 192), UInt8.ofNat (code % 64 + 128)]
      else if code ≤ 65535 then
        [UInt8.ofNat (code / 4096 % 16 + 224), UInt8.ofNat (code / 64 % 64 + 128),
          UInt8.ofNat (code % 64 + 128)]
      else
        [UInt8.ofNat (code / 262144 % 8 + 240), UInt8.ofNat (code / 4096 % 64 + 128),
          UInt8.ofNat (code / 64 % 64 + 128), UInt8.ofNat (code % 64 + 128)] := by
  have hval : (Char.ofNat code).val.toNat = code := by
    have := Char.toNat_ofNat code
    rwa [if_pos h] at this
  rw [encode, if_pos h, String.utf8EncodeChar, hval]

/-- What a continuation byte between two bytes stands for. -/
theorem spec_of_continuation? {lo hi b : UInt8} {x : Nat} (h : continuation? lo hi b = some x) :
    lo.toNat ≤ b.toNat ∧ b.toNat ≤ hi.toNat ∧ x = b.toNat % 64 := by
  unfold continuation? at h
  split at h
  · next hb =>
    simp only [Bool.and_eq_true, decide_eq_true_eq, UInt8.le_iff_toNat_le] at hb
    exact ⟨hb.1, hb.2, (Option.some.inj h).symm⟩
  · simp at h

/-- A byte is the one of its value. -/
theorem ofNat_eq {n : Nat} {b : UInt8} (h : n = b.toNat) : UInt8.ofNat n = b := by
  rw [h, UInt8.ofNat_toNat]

/-- A second byte has a range of its own behind two first bytes. -/
theorem bounds_of_ite {c c' b b₁ lo lo' hi hi' : UInt8}
    (hlo : (if b = c then lo' else lo).toNat ≤ b₁.toNat)
    (hhi : b₁.toNat ≤ (if b = c' then hi' else hi).toNat) :
    (b.toNat = c.toNat → lo'.toNat ≤ b₁.toNat) ∧ (b.toNat ≠ c.toNat → lo.toNat ≤ b₁.toNat) ∧
      (b.toNat = c'.toNat → b₁.toNat ≤ hi'.toNat) ∧
      (b.toNat ≠ c'.toNat → b₁.toNat ≤ hi.toNat) := by
  simp only [ne_eq, UInt8.toNat_inj]
  refine ⟨fun h => ?_, fun h => ?_, fun h => ?_, fun h => ?_⟩
  · rwa [if_pos h] at hlo
  · rwa [if_neg h] at hlo
  · rwa [if_pos h] at hhi
  · rwa [if_neg h] at hhi

/-- A code point that is read from a valid encoding of more than one byte is encoded as it was. -/
theorem encode_of_multibyte? {b : UInt8} {t : Text} {r : Rune} (h : multibyte? b t = some r) :
    encode r.code = b :: t.take r.extra := by
  unfold multibyte? at h
  simp only [Bool.and_eq_true, decide_eq_true_eq, UInt8.le_iff_toNat_le] at h
  -- One case for each length that a first byte can ask for.
  split at h
  · next hb =>
    rcases t with _ | ⟨b₁, t⟩
    · simp at h
    · simp only [Option.bind_eq_bind, Option.bind_eq_some_iff, Option.some.injEq] at h
      obtain ⟨x, hx, rfl⟩ := h
      obtain ⟨hlo, hhi, rfl⟩ := spec_of_continuation? hx
      simp only [UInt8.reduceToNat] at hb hlo hhi ⊢
      rw [encode_eq (.inl (by omega)), if_neg (by omega), if_pos (by omega),
        ofNat_eq (b := b) (by omega), ofNat_eq (b := b₁) (by omega)]
      rfl
  split at h
  · next hb =>
    rcases t with _ | ⟨b₁, _ | ⟨b₂, t⟩⟩
    · simp at h
    · simp at h
    · simp only [Option.bind_eq_bind, Option.bind_eq_some_iff, Option.some.injEq] at h
      obtain ⟨x, hx, y, hy, rfl⟩ := h
      obtain ⟨hlo, hhi, rfl⟩ := spec_of_continuation? hx
      obtain ⟨hlo', hhi', rfl⟩ := spec_of_continuation? hy
      -- The ranges of the second byte leave out overlong forms and surrogates.
      have hsecond := bounds_of_ite hlo hhi
      simp only [UInt8.reduceToNat] at hb hsecond hlo' hhi' ⊢
      have hvalid : ((b.toNat % 16 * 64 + b₁.toNat % 64) * 64 + b₂.toNat % 64).isValidChar := by
        unfold Nat.isValidChar
        omega
      rw [encode_eq hvalid, if_neg (by omega), if_neg (by omega), if_pos (by omega),
        ofNat_eq (b := b) (by omega), ofNat_eq (b := b₁) (by omega),
        ofNat_eq (b := b₂) (by omega)]
      rfl
  split at h
  · next hb =>
    rcases t with _ | ⟨b₁, _ | ⟨b₂, _ | ⟨b₃, t⟩⟩⟩
    · simp at h
    · simp at h
    · simp at h
    · simp only [Option.bind_eq_bind, Option.bind_eq_some_iff, Option.some.injEq] at h
      obtain ⟨x, hx, y, hy, z, hz, rfl⟩ := h
      obtain ⟨hlo, hhi, rfl⟩ := spec_of_continuation? hx
      obtain ⟨hlo', hhi', rfl⟩ := spec_of_continuation? hy
      obtain ⟨hlo'', hhi'', rfl⟩ := spec_of_continuation? hz
      -- Those here leave out overlong forms and what is above the last scalar value.
      have hsecond := bounds_of_ite hlo hhi
      simp only [UInt8.reduceToNat] at hb hsecond hlo' hhi' hlo'' hhi'' ⊢
      rw [encode_eq (.inr (by omega)), if_neg (by omega), if_neg (by omega), if_neg (by omega),
        ofNat_eq (b := b) (by omega), ofNat_eq (b := b₁) (by omega),
        ofNat_eq (b := b₂) (by omega), ofNat_eq (b := b₃) (by omega)]
      rfl
  · simp at h

/-- A code point that is read from a valid encoding is encoded as it was. -/
theorem encode_read {b : UInt8} {t : Text} (h : isValidStart b t = true) :
    encode (read b t).code = b :: t.take (read b t).extra := by
  by_cases hb : b < 0x80
  · have hlt : b.toNat < 128 := UInt8.lt_iff_toNat_lt.mp hb
    have hencode : encode b.toNat = [b] := by
      rw [encode_eq (.inl (by omega)), if_pos (by omega), UInt8.ofNat_toNat]
    rw [read_of_lt t hb]
    exact hencode
  · have hsome : (multibyte? b t).isSome = true := by simpa [isValidStart, hb] using h
    obtain ⟨r, hr⟩ := Option.isSome_iff_exists.mp hsome
    rw [read, if_neg hb, hr]
    exact encode_of_multibyte? hr

/-- Whether an encoding is valid is decided by the bytes before the next ASCII character. -/
theorem multibyte?_takeWhile (b : UInt8) (t : Text) :
    multibyte? b (t.takeWhile (0x80 ≤ ·)) = multibyte? b t := by
  have hsplit : t.takeWhile (0x80 ≤ ·) ++ t.dropWhile (0x80 ≤ ·) = t :=
    List.takeWhile_append_dropWhile
  by_cases hle : following b ≤ (t.takeWhile (0x80 ≤ ·)).length
  · have happend := multibyte?_append (t.dropWhile (0x80 ≤ ·)) hle
    rw [hsplit] at happend
    exact happend.symm
  · -- An ASCII character comes too early, or the text ends too early.
    have hstart : multibyte? b (t.takeWhile (0x80 ≤ ·)) = none := by
      rw [Option.eq_none_iff_forall_not_mem]
      intro r hr
      exact hle (spec_of_multibyte? hr).2.1
    have hwhole : multibyte? b t = none := by
      rw [Option.eq_none_iff_forall_not_mem]
      intro r hr
      obtain ⟨-, hlength, hbytes⟩ := spec_of_multibyte? hr
      have htake : t.takeWhile (0x80 ≤ ·) = t.take (following b) ++
          (t.drop (following b)).takeWhile (0x80 ≤ ·) := by
        conv_lhs => rw [← List.take_append_drop (following b) t]
        exact List.takeWhile_append_of_pos fun c hc => decide_eq_true (hbytes c hc)
      rw [htake, List.length_append, List.length_take_of_le hlength] at hle
      omega
    rw [hstart, hwhole]

/-- A code point is read off the bytes before the next ASCII character. -/
theorem read_congr (b : UInt8) {t s : Text}
    (h : t.takeWhile (0x80 ≤ ·) = s.takeWhile (0x80 ≤ ·)) : read b t = read b s := by
  rw [read, read, ← multibyte?_takeWhile b t, h, multibyte?_takeWhile b s]

/-- A byte that begins no valid encoding is read alone, as U+FFFD. -/
theorem read_of_not_isValidStart {b : UInt8} {t : Text} (h : isValidStart b t = false) :
    read b t = ⟨replacement, 0⟩ := by
  rw [isValidStart, Bool.or_eq_false_iff, decide_eq_false_iff_not] at h
  obtain ⟨hb, hnone⟩ := h
  have hinvalid : multibyte? b t = none := by simpa using hnone
  rw [read, if_neg hb, hinvalid, Option.getD_none]

/-- A code point takes at least one byte. -/
theorem encode_ne_nil (code : Nat) : encode code ≠ [] := by
  by_cases h : code.isValidChar
  · rw [encode_eq h]
    split_ifs <;> simp
  · rw [encode, if_neg h]
    decide

end Rune

namespace Text

/-- Whether a text is valid UTF-8 is decided behind the bytes that are already accepted. -/
theorem isUtf8After_eq (skip : Nat) (t : Text) : isUtf8After skip t = isUtf8 (t.drop skip) := by
  induction t generalizing skip with
  | nil => simp [isUtf8After, isUtf8]
  | cons b t ih =>
    cases skip with
    | zero => rfl
    | succ skip => exact ih skip

/-- A text is valid UTF-8 if it begins with a valid encoding and goes on so. -/
theorem isUtf8_cons (b : UInt8) (t : Text) :
    isUtf8 (b :: t) = (Rune.isValidStart b t && isUtf8 (t.drop (Rune.read b t).extra)) := by
  rw [isUtf8, isUtf8After, isUtf8After_eq]

/-- The code points of a text behind the bytes that are already accounted for. -/
theorem runesAfter_eq (skip : Nat) (t : Text) : runesAfter skip t = runes (t.drop skip) := by
  induction t generalizing skip with
  | nil => simp [runesAfter, runes]
  | cons b t ih =>
    cases skip with
    | zero => rfl
    | succ skip => exact ih skip

/-- A text with U+FFFD in the place of every byte that is no valid UTF-8. -/
def repaired (t : Text) : Text := ofCodes (t.runes.map Rune.code)

/-- A text is repaired one code point after the other. -/
theorem repaired_cons (b : UInt8) (t : Text) :
    repaired (b :: t) =
      Rune.encode (Rune.read b t).code ++ repaired (t.drop (Rune.read b t).extra) := by
  simp only [repaired, runes, runesAfter, List.map_cons, ofCodes, List.flatMap_cons]
  rw [runesAfter_eq, runes]

/-- A repaired text is not shorter than the text, and only valid UTF-8 is left as it is. -/
theorem repaired_spec (t : Text) :
    t.length ≤ t.repaired.length ∧ (t.repaired = t ↔ t.isUtf8 = true) := by
  -- By induction on the number of bytes, one code point after the other.
  induction hn : t.length using Nat.strong_induction_on generalizing t with
  | _ n ih =>
    rcases t with _ | ⟨b, t⟩
    · subst hn
      exact ⟨le_refl _, by decide⟩
    have hextra := (Rune.extra_read_le b t).1
    have hlength : (t.drop (Rune.read b t).extra).length < n := by
      rw [← hn, List.length_drop, List.length_cons]
      omega
    obtain ⟨hle, hself⟩ := ih _ hlength _ rfl
    rw [repaired_cons, isUtf8_cons, ← hn]
    cases hstart : Rune.isValidStart b t with
    | true =>
      -- A valid code point is encoded as it was.
      have hencode := Rune.encode_read hstart
      have htake : b :: t = (b :: t.take (Rune.read b t).extra) ++
          t.drop (Rune.read b t).extra := by
        rw [List.cons_append, List.take_append_drop]
      rw [hencode]
      refine ⟨?_, ?_⟩
      · rw [List.length_append, List.length_cons, List.length_cons, List.length_take_of_le hextra]
        rw [List.length_drop] at hle
        omega
      · conv_lhs => rw [htake]
        rw [List.append_cancel_left_eq, hself, Bool.true_and]
    | false =>
      -- The replacement takes three bytes in the place of one.
      have hread := Rune.read_of_not_isValidStart hstart
      have hencode : (Rune.encode Rune.replacement).length = 3 := by decide
      rw [hread, List.drop_zero] at hle ⊢
      have hlonger : (b :: t).length < (Rune.encode Rune.replacement ++ repaired t).length := by
        rw [List.length_append, List.length_cons]
        omega
      refine ⟨hlonger.le, fun heq => ?_, fun h => by simp at h⟩
      rw [heq] at hlonger
      exact absurd hlonger (lt_irrefl _)

/-- Valid UTF-8 is what needs no repair. -/
theorem repaired_eq_self_iff {t : Text} : t.repaired = t ↔ t.isUtf8 = true := (repaired_spec t).2

/-- No escape sequence stands for nothing. -/
theorem ne_nil_of_escape? {t value : Text} {size : Nat} (h : escape? t = some (value, size)) :
    value ≠ [] := by
  have hcode : ∀ {size : Nat} {t value : Text}, codeEscape? size t = some value → value ≠ [] := by
    intro size t value h
    simp only [codeEscape?, Option.bind_eq_bind, Option.bind_eq_some_iff] at h
    obtain ⟨code, -, hvalue⟩ := h
    split at hvalue
    · exact Option.some.inj hvalue ▸ Rune.encode_ne_nil code
    · simp at hvalue
  cases t with
  | nil => simp [escape?] at h
  | cons c t =>
    rw [escape?] at h
    split_ifs at h
    · obtain ⟨n, -, heq⟩ := Option.map_eq_some_iff.mp h
      simp [← (Prod.mk.inj heq).1]
    · obtain ⟨text, htext, heq⟩ := Option.map_eq_some_iff.mp h
      exact (Prod.mk.inj heq).1 ▸ hcode htext
    · obtain ⟨text, htext, heq⟩ := Option.map_eq_some_iff.mp h
      exact (Prod.mk.inj heq).1 ▸ hcode htext
    · simp only [Option.bind_eq_bind, Option.bind_eq_some_iff] at h
      obtain ⟨n, -, hvalue⟩ := h
      split at hvalue
      · simp [← (Prod.mk.inj (Option.some.inj hvalue)).1]
      · simp at hvalue
    · obtain ⟨n, -, heq⟩ := Option.map_eq_some_iff.mp h
      simp [← (Prod.mk.inj heq).1]

/-- Only a literal with nothing between its quotes denotes the empty text. -/
theorem ne_nil_of_unquote? {t value : Text} (h : unquote? t = some value) (ht : t ≠ []) :
    value ≠ [] := by
  cases t with
  | nil => exact absurd rfl ht
  | cons b t =>
    rw [unquote?] at h
    split_ifs at h
    · simp only [Option.bind_eq_bind, Option.bind_eq_some_iff, Option.map_eq_some_iff] at h
      obtain ⟨⟨first, size⟩, hescape, rest, -, rfl⟩ := h
      exact List.append_ne_nil_of_left_ne_nil (ne_nil_of_escape? hescape) rest
    · obtain ⟨rest, -, rfl⟩ := Option.map_eq_some_iff.mp h
      exact List.append_ne_nil_of_left_ne_nil (Rune.encode_ne_nil _) rest

end Text

namespace Abi

/-- Bytes that are not ASCII need no escape. -/
theorem escaped_append_of_le {t : Text} (h : ∀ c ∈ t, 0x80 ≤ c) (s : Text) :
    escaped (t ++ s) = t ++ escaped s := by
  induction t with
  | nil => rfl
  | cons b t ih =>
    obtain ⟨hb, ht⟩ := List.forall_mem_cons.mp h
    have hplain : ¬ (b = Byte.backslash ∨ b = Byte.quote) := by
      rintro (rfl | rfl) <;> exact absurd hb (by decide)
    rw [List.cons_append, escaped_cons, if_neg hplain, ih ht]
    rfl

/-- Escaping keeps the bytes before the next ASCII character. -/
theorem takeWhile_escaped (t : Text) :
    (escaped t).takeWhile (0x80 ≤ ·) = t.takeWhile (0x80 ≤ ·) := by
  induction t with
  | nil => rfl
  | cons b t ih =>
    rw [escaped_cons]
    by_cases hb : b = Byte.backslash ∨ b = Byte.quote
    · have hascii : ¬ 0x80 ≤ b := by
        rcases hb with rfl | rfl <;> decide
      have hbackslash : ¬ (0x80 : UInt8) ≤ Byte.backslash := by decide
      rw [if_pos hb, List.cons_append, List.takeWhile_cons_of_neg (by simpa using hbackslash),
        List.takeWhile_cons_of_neg (by simpa using hascii)]
    · rw [if_neg hb, List.singleton_append, List.takeWhile_cons, List.takeWhile_cons, ih]

/-- An escaped name has the repaired name as its value, unless there is a line break in it. -/
theorem unquote?_escaped (name : Text) :
    Text.unquote? (escaped name) = if Byte.newline ∈ name then none else some name.repaired := by
  -- By induction on the number of bytes, one code point after the other.
  induction hn : name.length using Nat.strong_induction_on generalizing name with
  | _ n ih =>
    rcases name with _ | ⟨b, t⟩
    · rw [escaped, List.flatMap_nil, Text.unquote?]
      rfl
    have hvalue : ∀ k, Text.unquote? (escaped (t.drop k)) =
        if Byte.newline ∈ t.drop k then none else some (Text.repaired (t.drop k)) := by
      intro k
      refine ih _ ?_ _ rfl
      rw [← hn, List.length_drop, List.length_cons]
      omega
    by_cases hspecial : b = Byte.backslash ∨ b = Byte.quote
    · -- An escaped byte stands for itself.
      have hread : Rune.read b t = ⟨b.toNat, 0⟩ :=
        Rune.read_of_lt t (by rcases hspecial with rfl | rfl <;> decide)
      have hencode : Rune.encode b.toNat = [b] := by
        rcases hspecial with rfl | rfl <;> decide
      have hescape : Text.escape? (b :: escaped t) = some ([b], 1) := by
        rcases hspecial with rfl | rfl <;> rfl
      have hb : Byte.newline ≠ b := by
        rcases hspecial with rfl | rfl <;> decide
      have htail := hvalue 0
      rw [List.drop_zero] at htail
      rw [escaped_cons, if_pos hspecial, List.cons_append, List.singleton_append, Text.unquote?,
        if_neg (by decide), if_pos rfl, hescape, Text.repaired_cons, hread, List.drop_zero, hencode]
      simp only [Option.bind_eq_bind, Option.bind_some, List.drop_succ_cons, List.drop_zero, htail,
        List.mem_cons, hb, false_or]
      split <;> rfl
    by_cases hnewline : b = Byte.newline
    · subst hnewline
      rw [escaped_cons, if_neg hspecial, List.singleton_append, Text.unquote?, if_pos (.inr rfl),
        if_pos List.mem_cons_self]
    · -- A code point is read off just the bytes that are left as they are.
      obtain ⟨hextra, hbytes⟩ := Rune.extra_read_le b t
      have hread : Rune.read b (escaped t) = Rune.read b t :=
        Rune.read_congr b (takeWhile_escaped t)
      have hdrop : (escaped t).drop (Rune.read b t).extra =
          escaped (t.drop (Rune.read b t).extra) := by
        have hescaped := escaped_append_of_le hbytes (t.drop (Rune.read b t).extra)
        rw [List.take_append_drop] at hescaped
        rw [hescaped]
        exact List.drop_left' (List.length_take_of_le hextra)
      have hmem : Byte.newline ∈ b :: t ↔ Byte.newline ∈ t.drop (Rune.read b t).extra := by
        have htake : Byte.newline ∉ t.take (Rune.read b t).extra := fun h =>
          absurd (hbytes _ h) (by decide)
        have hsplit : Byte.newline ∈ t ↔ Byte.newline ∈
            t.take (Rune.read b t).extra ++ t.drop (Rune.read b t).extra := by
          rw [List.take_append_drop]
        rw [List.mem_cons, hsplit, List.mem_append]
        simp [Ne.symm hnewline, htake]
      have hplain : ¬ (b = Byte.quote ∨ b = Byte.newline) := by
        rintro (hquote | hb)
        · exact hspecial (.inr hquote)
        · exact hnewline hb
      rw [escaped_cons, if_neg hspecial, List.singleton_append, Text.unquote?, if_neg hplain,
        if_neg fun h => hspecial (.inl h), Text.repaired_cons]
      simp only [hread, hdrop, hvalue, hmem]
      split <;> rfl

/-- The body of a literal is what stands between its quotes. -/
theorem body_of_quotes (inner : Text) : body (Byte.quote :: inner ++ [Byte.quote]) = inner := by
  rw [body, List.cons_append, List.drop_one, List.tail_cons]
  exact List.take_left' (by simp)

/-- What stands between the quotes of a name's literal. -/
theorem body_quoted (name : Text) : body (quoted name) = escaped name :=
  body_of_quotes (escaped name)

/-- The literal of a name of valid UTF-8 without line breaks gives the name. -/
theorem ofLiteral_quoted {name : Text} (hutf8 : name.isUtf8 = true)
    (hnewline : Byte.newline ∉ name) (c : Cursor) :
    ofLiteral ⟨.string, c, quoted name⟩ = name := by
  have hkind : TokenKind.string ≠ TokenKind.rawString := by decide
  rw [ofLiteral, if_neg hkind, body_quoted, unquote?_escaped, if_neg hnewline, Option.getD_some]
  exact Text.repaired_eq_self_iff.mpr hutf8

/-- The literal of a name that is not empty does not give the empty name. -/
theorem ofLiteral_quoted_ne_nil {name : Text} (h : name ≠ []) (c : Cursor) :
    ofLiteral ⟨.string, c, quoted name⟩ ≠ [] := by
  have hescaped : escaped name ≠ [] := by
    obtain ⟨b, t, rfl⟩ := List.exists_cons_of_ne_nil h
    rw [escaped_cons]
    split <;> simp
  have hkind : TokenKind.string ≠ TokenKind.rawString := by decide
  rw [ofLiteral, if_neg hkind, body_quoted]
  cases hvalue : Text.unquote? (escaped name) with
  | none => exact hescaped
  | some value => exact Text.ne_nil_of_unquote? hvalue hescaped

end Abi

end CallConv
