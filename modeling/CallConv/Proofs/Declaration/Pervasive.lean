import Mathlib
import CallConv.Proofs.Declaration.Grammar

/-!
# Properties of all languages of a declaration

The languages of declarations are put together from single tokens and groups in brackets by
concatenation, choice and repetition. `Pervasive` states what a property of languages needs for it
to hold of all that is put together so without angles and braces: of item heads, of markers, and of
what leads up to the parameters of a function or to the type of an alias, constant or static.
-/

namespace CallConv

open scoped Computability

namespace Grammar

/-- A property of languages that holds of most single tokens and of groups in parentheses and
brackets, and that the operations on languages keep. -/
structure Pervasive (P : Language Token → Prop) : Prop where
  /-- A part of a language has the property as well. -/
  mono : ∀ {A B}, P B → A ≤ B → P A
  /-- No tokens. -/
  one : P 1
  /-- One of two languages. -/
  add : ∀ {A B}, P A → P B → P (A + B)
  /-- One language after the other. -/
  mul : ∀ {A B}, P A → P B → P (A * B)
  /-- Words in a row. -/
  star : ∀ {A}, P A → P A∗
  /-- Tokens that have to do with no bracket, are no semicolons and open no angles. -/
  token : ∀ {p : Token → Bool}, (∀ t, p t = true → Scope.value.isPlain t.kind = true ∧
    t.kind ≠ .semicolon ∧ t.kind ≠ .less) → P (Grammar.one p)
  /-- Groups in parentheses. -/
  parens : P parens
  /-- Groups in brackets. -/
  brackets : P brackets

namespace Pervasive

variable {P : Language Token → Prop} {A : Language Token} (h : Pervasive P)
include h

/-- Words that may be absent. -/
theorem optional (hA : P A) : P (1 + A) := h.add h.one hA

/-- Tokens of a kind. -/
theorem ofKind {kind : TokenKind}
    (hkind : Scope.value.isPlain kind = true ∧ kind ≠ .semicolon ∧ kind ≠ .less) :
    P (ofKind kind) :=
  h.token fun t ht => by
    obtain rfl : t.kind = kind := by simpa using ht
    exact hkind

/-- Keywords. -/
theorem word (text : Text) : P (word text) :=
  h.token fun t ht => by
    rw [kind_of_isWord ht]
    decide

/-- Names. -/
theorem name : P (Grammar.ofKind .identifier) := h.ofKind (by decide)

/-- Attributes. -/
theorem attr : P attr := h.mul (h.ofKind (by decide)) h.brackets

/-- What stands in front of an item. -/
theorem itemHead : P itemHead :=
  h.mul (h.star h.attr) (h.optional (h.mul (h.word _) (h.optional h.parens)))

/-- Markers. -/
theorem marker : P marker := by
  refine h.mul (h.word _) (h.optional (h.token fun t ht => ?_))
  have hliteral : t.kind = .string ∨ t.kind = .rawString := by
    cases hkind : t.kind <;>
      simp [Abi.isLiteral, hkind, TokenKind.isStringLiteral] at ht ⊢
  rcases hliteral with hkind | hkind <;> rw [hkind] <;> decide

/-- Functions up to their names. -/
theorem functionName : P (Grammar.itemHead * (1 + Grammar.word (utf8 "const")) *
    (1 + Grammar.word (utf8 "async")) * (1 + Grammar.word (utf8 "unsafe")) *
    (1 + Grammar.marker) * Grammar.word (utf8 "fn") * Grammar.ofKind .identifier) := by
  have hword := fun text => h.optional (h.word text)
  exact h.mul (h.mul (h.mul (h.mul (h.mul (h.mul h.itemHead (hword _)) (hword _)) (hword _))
    (h.optional h.marker)) (h.word _)) h.name

/-- Aliases up to their names. -/
theorem aliasName : P (Grammar.itemHead * Grammar.word (utf8 "type") *
    Grammar.ofKind .identifier) :=
  h.mul (h.mul h.itemHead (h.word _)) h.name

/-- Constants and statics up to their types. -/
theorem bindingName : P (Grammar.itemHead * bindingName * Grammar.ofKind .colon) := by
  have hstatic : P (Grammar.ofKind .identifier - Grammar.word (utf8 "mut")) :=
    h.mono h.name tsub_le_self
  exact h.mul (h.mul h.itemHead (h.add (h.mul (h.word _) h.name)
    (h.mul (h.word _) (h.add (h.mul (h.word _) h.name) hstatic)))) (h.ofKind (by decide))

/-- Blocks of foreign items up to their braces. -/
theorem foreignHead : P (Grammar.attr∗ * (1 + Grammar.word (utf8 "unsafe")) * Grammar.marker) :=
  h.mul (h.mul (h.star h.attr) (h.optional (h.word _))) h.marker

end Pervasive

end Grammar

end CallConv
