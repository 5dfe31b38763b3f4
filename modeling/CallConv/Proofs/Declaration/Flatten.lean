import Mathlib
import CallConv.Proofs.Declaration.Pervasive

/-!
# Declarations without regard to angles

A search that counts brackets and knows nothing of angles sees the tokens of a declaration as the
elements of a value, one after the other. It passes over all of them up to the semicolon or the body
that ends the declaration, as long as it would pass over what stands between angles. Only the parts
of a declaration that may hold angles need this condition, and a block of foreign items has none.
-/

namespace CallConv

open scoped Computability

namespace Grammar

/-- What a search passes over that stops at some tokens and knows nothing of angles. -/
def passed (stop : Token → Bool) : Language Token := (proper stop .value)∗

/-- Whether a token may begin the end of an item: a semicolon, or a body as well, unless only a
semicolon ends the item. -/
def isEnding (needsSemicolon : Bool) : Token → Bool :=
  if needsSemicolon then Shape.isSemicolon else Shape.isBodyStart

/-- What ends an item. -/
def ending (needsSemicolon : Bool) : Language Token :=
  if needsSemicolon then ofKind .semicolon else ofKind .semicolon + braces

/-- What a search that knows nothing of angles takes for an item. -/
def flat (needsSemicolon : Bool) : Language Token :=
  passed (isEnding needsSemicolon) * ending needsSemicolon

/-- Whether only a semicolon ends the declarations of a kind. -/
def needsSemicolon : Kind → Bool
  | .typeAlias | .binding => true
  | .function | .foreignBlock | .pointerType => false

/-- The words of a language are passed over, if those of `good` that stand in them are. -/
def Flattens (stop : Token → Bool) (good L : Language Token) : Prop :=
  ∀ ts ∈ L, (∀ e ∈ good, e <:+: ts → e ∈ passed stop) → ts ∈ passed stop

/-- Two rows of words are a row of words. -/
theorem append_mem_kstar {L : Language Token} {ts us : List Token} (hts : ts ∈ L∗) (hus : us ∈ L∗) :
    ts ++ us ∈ L∗ := by
  rw [← kstar_mul_kstar]
  exact Language.append_mem_mul hts hus

/-- A token that stands on its own anywhere does so in values. -/
theorem isPlain_value {scope : Scope} {kind : TokenKind} (h : scope.isPlain kind = true) :
    Scope.value.isPlain kind = true := by
  simp only [Scope.isPlain, Bool.and_eq_true, Bool.and_true] at h ⊢
  exact h.1

/-- An element at which the search does not stop is passed over. -/
theorem mem_passed_of_element {stop : Token → Bool} {e : List Token} (he : Element .value e)
    (hstop : ∀ t ∈ e.head?, stop t = false) : e ∈ passed stop :=
  (le_kstar : proper stop .value ≤ (proper stop .value)∗) ⟨he, hstop⟩

namespace Flattens

variable {stop : Token → Bool} {good A B : Language Token}

/-- The words of a part of a language. -/
theorem mono (h : Flattens stop good B) (hle : A ≤ B) : Flattens stop good A :=
  fun ts hts => h ts (hle hts)

/-- One of two languages. -/
theorem add (hA : Flattens stop good A) (hB : Flattens stop good B) :
    Flattens stop good (A + B) := fun ts hts => hts.elim (hA ts) (hB ts)

/-- One language after the other. -/
theorem mul (hA : Flattens stop good A) (hB : Flattens stop good B) :
    Flattens stop good (A * B) := by
  intro ts hts hgood
  obtain ⟨a, ha, b, hb, rfl⟩ := Language.mem_mul.mp hts
  exact append_mem_kstar
    (hA a ha fun e he hpart => hgood e he (hpart.trans (List.prefix_append a b).isInfix))
    (hB b hb fun e he hpart => hgood e he (hpart.trans (List.suffix_append a b).isInfix))

/-- Words in a row. -/
theorem star (hA : Flattens stop good A) : Flattens stop good A∗ := by
  intro ts hts hgood
  obtain ⟨es, rfl, hes⟩ := Language.mem_kstar.mp hts
  induction es with
  | nil => exact Language.nil_mem_kstar _
  | cons e es ih =>
    obtain ⟨he, hmore⟩ := List.forall_mem_cons.mp hes
    rw [List.flatten_cons] at hgood ⊢
    refine append_mem_kstar
      (hA e he fun a ha hpart => hgood a ha (hpart.trans (List.prefix_append _ _).isInfix)) ?_
    exact ih hmore (Language.join_mem_kstar hmore)
      fun a ha hpart => hgood a ha (hpart.trans (List.suffix_append _ _).isInfix)

/-- The language of what is known to be passed over. -/
theorem self : Flattens stop good good := fun ts hts hgood => hgood ts hts List.infix_rfl

end Flattens

/-! ## The parts of a declaration -/

section Parts

variable {stop : Token → Bool} {good : Language Token}

/-- Bracketed groups at which the search does not stop. -/
theorem flattens_group {kind closer : TokenKind} (hclosing : kind.closing? = some closer)
    (hstop : ∀ t, t.kind = kind → stop t = false) :
    Flattens stop good (ofKind kind * inside closer) := by
  intro ts hts _
  obtain ⟨first, rest, rfl, rfl, hrest⟩ := mem_ofKind_mul.mp hts
  obtain ⟨es, last, rfl, rfl, hes⟩ := mem_inside_iff.mp hrest
  rw [Group.upTo_of_closing? hclosing] at hes
  refine mem_passed_of_element (.group hclosing hes) ?_
  rintro _ ⟨⟩
  exact hstop first rfl

/-- An element of a type at which the search does not stop. -/
theorem flattens_proper {stop' : Token → Bool} (hstop : ∀ t, stop t = true → stop' t = true)
    (hangles : angles ≤ good) (scope : Scope) : Flattens stop good (proper stop' scope) := by
  rintro e ⟨he, hhead⟩ hgood
  have hproper : ∀ t ∈ e.head?, stop t = false := by
    intro t ht
    cases h : stop t with
    | false => rfl
    | true => exact absurd (hhead t ht) (by simp [hstop t h])
  cases he with
  | token hplain => exact mem_passed_of_element (.token (isPlain_value hplain)) hproper
  | group hlast hes => exact mem_passed_of_element (.group hlast hes) hproper
  | @angles _ first last es _ hfirst hlast hes =>
    refine hgood _ (hangles ?_) List.infix_rfl
    exact mem_ofKind_mul.mpr ⟨first, _, rfl, hfirst, mem_inside_iff.mpr ⟨es, last, rfl, hlast, hes⟩⟩

/-- A run of such elements. -/
theorem flattens_run {stop' : Token → Bool} (hstop : ∀ t, stop t = true → stop' t = true)
    (hangles : angles ≤ good) (scope : Scope) : Flattens stop good (run stop' scope) :=
  (flattens_proper hstop hangles scope).mul (flattens_proper hstop hangles scope).star

variable (hstop : ∀ t, stop t = true → Shape.isBodyStart t = true)
include hstop

/-- Only semicolons and braces may stop the search. -/
theorem stop_eq_false {t : Token} (h : Shape.isBodyStart t = false) : stop t = false := by
  cases hs : stop t with
  | false => rfl
  | true => simp [hstop t hs] at h

/-- Tokens that neither open nor close a group, none of which is a semicolon. -/
theorem flattens_one {p : Token → Bool}
    (hp : ∀ t, p t = true → Scope.value.isPlain t.kind = true ∧ t.kind ≠ .semicolon) :
    Flattens stop good (one p) := by
  rintro _ ⟨t, rfl, ht⟩ -
  obtain ⟨hplain, hsemicolon⟩ := hp t ht
  refine mem_passed_of_element (.token hplain) ?_
  rintro _ ⟨⟩
  refine stop_eq_false hstop ?_
  -- A brace would open a group.
  have hbrace : t.kind ≠ .braceLeft := by
    intro h
    simp [h, Scope.isPlain, TokenKind.closing?] at hplain
  simp [Shape.isBodyStart, hbrace, hsemicolon]

/-- What is put together from tokens and groups in parentheses and brackets is passed over. -/
theorem pervasive_flattens : Pervasive (Flattens stop good) where
  mono := Flattens.mono
  one := by
    intro ts hts _
    rw [(Language.mem_one ts).mp hts]
    exact Language.nil_mem_kstar _
  add := Flattens.add
  mul := Flattens.mul
  star := Flattens.star
  token hp := flattens_one hstop fun t ht => ⟨(hp t ht).1, (hp t ht).2.1⟩
  parens := flattens_group rfl fun t ht => stop_eq_false hstop (by simp [Shape.isBodyStart, ht])
  brackets := flattens_group rfl fun t ht => stop_eq_false hstop (by simp [Shape.isBodyStart, ht])

end Parts

/-- Words of two languages in a row of which the first are passed over. -/
theorem Flattens.mem_mul {stop : Token → Bool} {good A E : Language Token}
    (hA : Flattens stop good A) {ts : List Token} (hts : ts ∈ A * E)
    (hgood : ∀ e ∈ good, e <:+: ts → e ∈ passed stop) : ts ∈ passed stop * E := by
  obtain ⟨a, ha, b, hb, rfl⟩ := Language.mem_mul.mp hts
  exact Language.append_mem_mul
    (hA a ha fun e he hpart => hgood e he (hpart.trans (List.prefix_append a b).isInfix)) hb

/-! ## Declarations -/

/-- An item may end at semicolons and at braces. -/
theorem isEnding_iff {semicolon : Bool} {t : Token} :
    isEnding semicolon t = true ↔
      t.kind = .semicolon ∨ t.kind = .braceLeft ∧ semicolon = false := by
  cases semicolon <;> simp [isEnding, Shape.isSemicolon, Shape.isBodyStart, or_comm]

/-- A semicolon is one of the tokens that may end an item. -/
theorem isBodyStart_of_isEnding {semicolon : Bool} {t : Token} (h : isEnding semicolon t = true) :
    Shape.isBodyStart t = true := by
  rcases isEnding_iff.mp h with hkind | ⟨hkind, -⟩ <;> simp [Shape.isBodyStart, hkind]

/-- A declaration is passed over up to what ends it, if all angles in it are. In a block of foreign
items no angles count. -/
theorem mem_passed_mul_ending {kind : Kind} (hkind : kind ≠ .pointerType) {stop : Token → Bool}
    (hstop : ∀ t, stop t = true → isEnding (needsSemicolon kind) t = true) {ts : List Token}
    (h : ts ∈ declaration kind)
    (hangles : kind ≠ .foreignBlock → ∀ e ∈ angles, e <:+: ts → e ∈ passed stop) :
    ts ∈ passed stop * ending (needsSemicolon kind) := by
  have hbody : ∀ t, stop t = true → Shape.isBodyStart t = true :=
    fun t ht => isBodyStart_of_isEnding (hstop t ht)
  have hparts : Pervasive (Flattens stop angles) := pervasive_flattens hbody
  have hangles' : Flattens stop angles (1 + angles) := hparts.optional .self
  cases kind with
  | function =>
    refine Flattens.mem_mul ?_ h (hangles (by decide))
    exact ((hparts.functionName.mul hangles').mul hparts.parens).mul
      (flattens_proper hstop le_rfl .type).star
  | pointerType => exact absurd rfl hkind
  | typeAlias =>
    refine Flattens.mem_mul ?_ h (hangles (by decide))
    exact ((hparts.aliasName.mul hangles').mul (hparts.ofKind (by decide))).mul
      ((flattens_run hstop le_rfl .type).mono inf_le_left)
  | binding =>
    refine Flattens.mem_mul ?_ h (hangles (by decide))
    have htypeEnd : ∀ t, stop t = true → Shape.isTypeEnd t = true := by
      intro t ht
      have hsemicolon : t.kind = .semicolon := by
        simpa [isEnding, needsSemicolon, Shape.isSemicolon] using hstop t ht
      simp [Shape.isTypeEnd, hsemicolon]
    have hvalue : Flattens stop angles (ofKind .equal * run Shape.isSemicolon .value) :=
      (hparts.ofKind (by decide)).mul (flattens_run hstop le_rfl .value)
    exact (hparts.bindingName.mul ((flattens_run htypeEnd le_rfl .type).mono inf_le_left)).mul
      (hparts.optional hvalue)
  | foreignBlock =>
    -- Nothing needs to be known of angles.
    have hhead : Pervasive (Flattens stop 0) := pervasive_flattens hbody
    have hle : passed stop * braces ≤ passed stop * (ofKind .semicolon + braces) :=
      mul_le_mul_right le_add_self _
    exact hle (hhead.foreignHead.mem_mul h fun e he => absurd he (Language.notMem_zero e))

/-- A search that never stops passes over all elements of a value. -/
theorem passed_never : passed (fun _ => false) = (element .value)∗ := by
  have hproper : proper (fun _ => false) .value = element .value := by
    ext e
    exact and_iff_left fun _ _ => rfl
  rw [passed, hproper]

/-- An element of any scope consists of elements of a value. -/
theorem mem_elements {scope : Scope} {e : List Token} (h : Element scope e) :
    e ∈ (element .value)∗ := by
  have hone : ∀ {e : List Token}, Element .value e → e ∈ (element .value)∗ := fun he =>
    (le_kstar : element .value ≤ (element .value)∗) he
  induction h with
  | token hplain => exact hone (.token (isPlain_value hplain))
  | group hlast hes => exact hone (.group hlast hes)
  | @angles scope first last es hscope hfirst hlast hes ih =>
    -- The angles are tokens like those between them.
    have hinner : es.flatten ∈ (element .value)∗ := by
      rw [← kstar_idem]
      exact Language.join_mem_kstar ih
    have hless : [first] ∈ (element .value)∗ := hone (.token (by rw [hfirst]; decide))
    have hgreater : [last] ∈ (element .value)∗ := hone (.token (by rw [hlast]; decide))
    exact append_mem_kstar hless (append_mem_kstar hinner hgreater)

/-- A declaration consists of elements of a value, of which the last ones end it. -/
theorem mem_elements_mul_ending {kind : Kind} (hkind : kind ≠ .pointerType) {ts : List Token}
    (h : ts ∈ declaration kind) : ts ∈ (element .value)∗ * ending (needsSemicolon kind) := by
  rw [← passed_never]
  refine mem_passed_mul_ending hkind (fun t ht => absurd ht (by simp)) h fun _ e he _ => ?_
  rw [passed_never]
  obtain ⟨first, rest, rfl, hfirst, hrest⟩ := mem_ofKind_mul.mp he
  obtain ⟨es, last, rfl, hlast, hes⟩ := mem_inside_iff.mp hrest
  exact mem_elements (.angles (by decide : Scope.type ≠ .value) hfirst hlast hes)

end Grammar

end CallConv
