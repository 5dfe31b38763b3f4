import Mathlib
import CallConv.Text.Letter

/-!
# Code points at the seam of two texts

A text is read as code points from left to right, and one code point takes at most four bytes. So
the reading of a start of a text is that of the whole text, but for a code point that the end of
the start cuts through: its bytes are then read one by one as U+FFFD. That is no letter, so a run
of word characters is never longer in a start of a text than in the text, and a run that ends
within the start is the same in both.
-/

namespace CallConv

namespace Rune

/-- How many bytes follow the first byte `b` of a valid encoding of more than one byte. -/
def following (b : UInt8) : Nat :=
  if 0xC2 ≤ b && b ≤ 0xDF then 1
  else if 0xE0 ≤ b && b ≤ 0xEF then 2
  else if 0xF0 ≤ b && b ≤ 0xF4 then 3
  else 0

/-- A continuation byte is not an ASCII character. -/
theorem le_of_continuation? {lo hi b : UInt8} {x : Nat} (hlo : 0x80 ≤ lo)
    (h : continuation? lo hi b = some x) : 0x80 ≤ b := by
  unfold continuation? at h
  split at h
  · next hb =>
    rw [Bool.and_eq_true, decide_eq_true_eq] at hb
    exact UInt8.le_trans hlo hb.1
  · simp at h

/-- A valid encoding of more than one byte has as many bytes as its first byte says, all of them
in the text, and those after the first are not ASCII characters. -/
theorem spec_of_multibyte? {b : UInt8} {t : Text} {r : Rune} (h : multibyte? b t = some r) :
    r.extra = following b ∧ following b ≤ t.length ∧ ∀ c ∈ t.take (following b), 0x80 ≤ c := by
  unfold multibyte? at h
  unfold following
  -- One case for each length that a first byte can ask for.
  split at h
  · next h₁ =>
    rw [if_pos h₁]
    rcases t with _ | ⟨b₁, t⟩
    · simp at h
    · simp only [Option.bind_eq_bind, Option.bind_eq_some_iff, Option.some.injEq] at h
      obtain ⟨x, hx, rfl⟩ := h
      have hb₁ := le_of_continuation? (UInt8.le_refl _) hx
      simpa using hb₁
  · next h₁ =>
    rw [if_neg h₁]
    split at h
    · next h₂ =>
      rw [if_pos h₂]
      rcases t with _ | ⟨b₁, _ | ⟨b₂, t⟩⟩
      · simp at h
      · simp at h
      · simp only [Option.bind_eq_bind, Option.bind_eq_some_iff, Option.some.injEq] at h
        obtain ⟨x, hx, y, hy, rfl⟩ := h
        -- The second byte has a range of its own, which lies within that of the others.
        have hb₁ : 0x80 ≤ b₁ := by
          refine le_of_continuation? ?_ hx
          split <;> decide
        have hb₂ := le_of_continuation? (UInt8.le_refl _) hy
        simpa using ⟨hb₁, hb₂⟩
    · next h₂ =>
      rw [if_neg h₂]
      split at h
      · next h₃ =>
        rw [if_pos h₃]
        rcases t with _ | ⟨b₁, _ | ⟨b₂, _ | ⟨b₃, t⟩⟩⟩
        · simp at h
        · simp at h
        · simp at h
        · simp only [Option.bind_eq_bind, Option.bind_eq_some_iff, Option.some.injEq] at h
          obtain ⟨x, hx, y, hy, z, hz, rfl⟩ := h
          have hb₁ : 0x80 ≤ b₁ := by
            refine le_of_continuation? ?_ hx
            split <;> decide
          have hb₂ := le_of_continuation? (UInt8.le_refl _) hy
          have hb₃ := le_of_continuation? (UInt8.le_refl _) hz
          simpa using ⟨hb₁, hb₂, hb₃⟩
      · simp at h

/-- Whether an encoding is valid is decided by the bytes that its first byte asks for. -/
theorem multibyte?_append {b : UInt8} {t : Text} (s : Text) (h : following b ≤ t.length) :
    multibyte? b (t ++ s) = multibyte? b t := by
  unfold multibyte?
  unfold following at h
  by_cases h₁ : (0xC2 ≤ b && b ≤ 0xDF) = true
  · rw [if_pos h₁] at h
    rw [if_pos h₁, if_pos h₁]
    rcases t with _ | ⟨b₁, t⟩
    · simp at h
    · rfl
  by_cases h₂ : (0xE0 ≤ b && b ≤ 0xEF) = true
  · rw [if_neg h₁, if_pos h₂] at h
    rw [if_neg h₁, if_pos h₂, if_neg h₁, if_pos h₂]
    rcases t with _ | ⟨b₁, _ | ⟨b₂, t⟩⟩
    · simp at h
    · simp at h
    · rfl
  by_cases h₃ : (0xF0 ≤ b && b ≤ 0xF4) = true
  · rw [if_neg h₁, if_neg h₂, if_pos h₃] at h
    rw [if_neg h₁, if_neg h₂, if_pos h₃, if_neg h₁, if_neg h₂, if_pos h₃]
    rcases t with _ | ⟨b₁, _ | ⟨b₂, _ | ⟨b₃, t⟩⟩⟩
    · simp at h
    · simp at h
    · simp at h
    · rfl
  · rw [if_neg h₁, if_neg h₂, if_neg h₃, if_neg h₁, if_neg h₂, if_neg h₃]

/-- An ASCII character is read as itself. -/
theorem read_of_lt {b : UInt8} (t : Text) (h : b < 0x80) : read b t = ⟨b.toNat, 0⟩ := by
  unfold read
  rw [if_pos h]

/-- A code point is read from bytes of the text, and all but its first are not ASCII. -/
theorem extra_read_le (b : UInt8) (t : Text) :
    (read b t).extra ≤ t.length ∧ ∀ c ∈ t.take (read b t).extra, 0x80 ≤ c := by
  unfold read
  split
  · simp
  · cases h : multibyte? b t with
    | none => simp
    | some r =>
      obtain ⟨he, hle, hc⟩ := spec_of_multibyte? h
      rw [Option.getD_some, he]
      exact ⟨hle, hc⟩

/-- A code point whose bytes all lie in `t` is read from `t` alone. -/
theorem read_of_extra_le {b : UInt8} {t s : Text} (h : (read b (t ++ s)).extra ≤ t.length) :
    read b t = read b (t ++ s) := by
  unfold read at h ⊢
  split
  · rfl
  · next hb =>
    rw [if_neg hb] at h
    by_cases hf : following b ≤ t.length
    · rw [multibyte?_append s hf]
    · have ht : multibyte? b t = none := by
        cases hm : multibyte? b t with
        | none => rfl
        | some r => exact absurd (spec_of_multibyte? hm).2.1 hf
      cases hm : multibyte? b (t ++ s) with
      | none => rw [ht]
      | some r =>
        rw [hm, Option.getD_some, (spec_of_multibyte? hm).1] at h
        exact absurd h hf

/-- A code point that the end of `t` cuts through is read from `t` as U+FFFD. -/
theorem read_of_lt_extra {b : UInt8} {t s : Text} (h : t.length < (read b (t ++ s)).extra) :
    read b t = ⟨replacement, 0⟩ := by
  unfold read at h ⊢
  split
  · next hb =>
    rw [if_pos hb] at h
    exact absurd h (Nat.not_lt_zero _)
  · next hb =>
    rw [if_neg hb] at h
    cases hm : multibyte? b (t ++ s) with
    | none =>
      rw [hm] at h
      exact absurd h (Nat.not_lt_zero _)
    | some r =>
      rw [hm, Option.getD_some, (spec_of_multibyte? hm).1] at h
      have ht : multibyte? b t = none := by
        cases hm' : multibyte? b t with
        | none => rfl
        | some r' => exact absurd (spec_of_multibyte? hm').2.1 (Nat.not_le.mpr h)
      rw [ht]
      rfl

/-- What is not read as U+FFFD is read the same when more text follows. -/
theorem read_append {b : UInt8} {t : Text} (s : Text) (h : (read b t).code ≠ replacement) :
    read b (t ++ s) = read b t := by
  by_cases hle : (read b (t ++ s)).extra ≤ t.length
  · exact (read_of_extra_le hle).symm
  · rw [read_of_lt_extra (Nat.not_le.mp hle)] at h
    exact absurd rfl h

/-- U+FFFD is no character of a word. -/
theorem not_isWordPart_replacement : isWordPart replacement = false := by decide +kernel

end Rune

/-- Whether a byte can be part of a word: an ASCII letter, digit or low line, or a byte that is not
ASCII. -/
def Byte.isWordPart (b : UInt8) : Bool := 0x80 ≤ b || Rune.isWordPart b.toNat

namespace Text

variable {p : Nat → Bool} {t w s : Text} {skip : Nat}

/-- The bytes that are already accepted count, as far as they are there. -/
theorem min_le_spanAfter (p : Nat → Bool) (skip : Nat) (t : Text) :
    min skip t.length ≤ spanAfter p skip t := by
  induction t generalizing skip with
  | nil => simp
  | cons b t ih =>
    cases skip with
    | zero => simp
    | succ skip =>
      have := ih skip
      simp only [spanAfter, List.length_cons]
      omega

/-- A run of code points lies within the text. -/
theorem spanAfter_le (p : Nat → Bool) (skip : Nat) (t : Text) : spanAfter p skip t ≤ t.length := by
  induction t generalizing skip with
  | nil => simp [spanAfter]
  | cons b t ih =>
    cases skip with
    | zero =>
      simp only [spanAfter, List.length_cons]
      split
      · exact Nat.succ_le_succ (ih _)
      · exact Nat.zero_le _
    | succ skip => exact Nat.succ_le_succ (ih skip)

/-- A run that ends within a start of a text is the same in the start alone. -/
theorem spanAfter_of_append (hp : p Rune.replacement = false)
    (h : spanAfter p skip (w ++ s) ≤ w.length) :
    spanAfter p skip w = spanAfter p skip (w ++ s) := by
  induction w generalizing skip with
  | nil =>
    rw [List.nil_append] at h ⊢
    rw [Nat.le_zero.mp h]
    cases skip <;> rfl
  | cons b w ih =>
    cases skip with
    | succ skip =>
      simp only [List.cons_append, spanAfter, List.length_cons] at h ⊢
      rw [ih (by omega)]
    | zero =>
      simp only [List.cons_append, spanAfter, List.length_cons] at h ⊢
      by_cases hr : p (Rune.read b (w ++ s)).code = true
      · rw [if_pos hr] at h ⊢
        have hmin := min_le_spanAfter p (Rune.read b (w ++ s)).extra (w ++ s)
        have hextra := (Rune.extra_read_le b (w ++ s)).1
        have hread := Rune.read_of_extra_le (b := b) (t := w) (s := s) (by omega)
        rw [hread, if_pos hr, ih (by omega)]
      · rw [if_neg hr]
        -- A code point that is cut off is replaced, and the replacement ends a run.
        by_cases hle : (Rune.read b (w ++ s)).extra ≤ w.length
        · rw [Rune.read_of_extra_le hle, if_neg hr]
        · rw [Rune.read_of_lt_extra (Nat.not_le.mp hle), hp]
          rfl

/-- A run in a start of a text is no longer than the run in the text. -/
theorem spanAfter_le_append (hp : p Rune.replacement = false) (w s : Text) (skip : Nat) :
    spanAfter p skip w ≤ spanAfter p skip (w ++ s) := by
  induction w generalizing skip with
  | nil => cases skip <;> exact Nat.zero_le _
  | cons b w ih =>
    cases skip with
    | succ skip => exact Nat.succ_le_succ (ih skip)
    | zero =>
      simp only [List.cons_append, spanAfter]
      by_cases hr : p (Rune.read b w).code = true
      · -- A code point that is in the run is whole, so that more text does not change it.
        have hne : (Rune.read b w).code ≠ Rune.replacement := by
          intro heq
          rw [heq, hp] at hr
          exact absurd hr (by decide)
        rw [Rune.read_append s hne, if_pos hr, if_pos hr]
        exact Nat.succ_le_succ (ih _)
      · rw [if_neg hr]
        exact Nat.zero_le _

/-- A run that reaches over a whole text goes on with an ASCII character that satisfies `p`. -/
theorem lt_spanAfter_append (hp : p Rune.replacement = false) {c : UInt8} (hc : c < 0x80)
    (hpc : p c.toNat = true) (hskip : skip ≤ w.length) (h : spanAfter p skip w = w.length) :
    w.length < spanAfter p skip (w ++ c :: s) := by
  induction w generalizing skip with
  | nil =>
    -- The run goes on with the new character itself.
    obtain rfl : skip = 0 := Nat.le_zero.mp hskip
    simp only [List.nil_append, spanAfter, Rune.read_of_lt s hc, hpc, if_true]
    exact Nat.succ_pos _
  | cons b w ih =>
    cases skip with
    | succ skip =>
      simp only [List.cons_append, spanAfter, List.length_cons] at h hskip ⊢
      exact Nat.succ_lt_succ (ih (by omega) (by omega))
    | zero =>
      simp only [List.cons_append, spanAfter, List.length_cons] at h ⊢
      by_cases hr : p (Rune.read b w).code = true
      · have hne : (Rune.read b w).code ≠ Rune.replacement := by
          intro heq
          rw [heq, hp] at hr
          exact absurd hr (by decide)
        rw [if_pos hr] at h
        rw [Rune.read_append _ hne, if_pos hr]
        exact Nat.succ_lt_succ (ih (Rune.extra_read_le b w).1 (by omega))
      · rw [if_neg hr] at h
        omega

/-- The bytes of a run of word characters are bytes of words, when the bytes already accepted are
not ASCII. -/
theorem isWordPart_of_mem_take_spanAfter (hskip : ∀ b ∈ t.take skip, 0x80 ≤ b) :
    ∀ b ∈ t.take (spanAfter Rune.isWordPart skip t), Byte.isWordPart b = true := by
  induction t generalizing skip with
  | nil => simp
  | cons c t ih =>
    cases skip with
    | succ skip =>
      simp only [spanAfter, List.take_succ_cons, List.mem_cons, forall_eq_or_imp] at hskip ⊢
      refine ⟨?_, ih hskip.2⟩
      simp [Byte.isWordPart, hskip.1]
    | zero =>
      simp only [spanAfter]
      split
      · next hr =>
        simp only [List.take_succ_cons, List.mem_cons, forall_eq_or_imp]
        refine ⟨?_, ih (Rune.extra_read_le c t).2⟩
        unfold Byte.isWordPart
        -- The first byte of a longer code point counts by not being ASCII.
        by_cases hc : c < 0x80
        · rw [Rune.read_of_lt t hc] at hr
          rw [hr, Bool.or_true]
        · rw [decide_eq_true (UInt8.not_lt.mp hc), Bool.true_or]
      · simp

end Text

end CallConv
