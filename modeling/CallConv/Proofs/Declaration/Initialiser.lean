import Mathlib
import CallConv.Proofs.Declaration.Outside

/-!
# Values of constants and statics

What stands before the value of a constant or static decides how it is read: as a constant or
static, with the name and the type that stand there (`Shape.outline?_of_head`). In its value angles
do not count, so that tokens that have to do with no bracket may be replaced by others in it
(`Shape.outline?_value`).
-/

namespace CallConv

open scoped Computability
open Grammar

namespace Grammar

/-- The part of a constant or static up to the end of its type. -/
def bindingHead : Language Token :=
  itemHead * bindingName * ofKind .colon * run Shape.isTypeEnd .type

/-- The rest of a constant or static behind its type. -/
def bindingTail : Language Token :=
  (1 + ofKind .equal * run Shape.isSemicolon .value) * ofKind .semicolon

end Grammar

namespace Shape

variable {ts us v m m' w w' head : List Token} {sign : Token} {kind : Kind}

/-- The keyword of a constant or static is passed over up to its name, whatever follows. -/
theorem exists_skipBindingKeyword? (h : ts ∈ bindingName) :
    ∃ name, name.kind = .identifier ∧
      ∀ us, skipBindingKeyword? (ts ++ us) = some (name :: us) := by
  rw [← mul_one bindingName, mem_bindingName_mul_iff] at h
  obtain ⟨name, rest, hskip, hname, hrest⟩ := h
  obtain rfl := (Language.mem_one rest).mp hrest
  obtain ⟨keyword, taken, rfl, -, hsame⟩ := skipBindingKeyword?_spec hskip
  refine ⟨name, hname, fun us => ?_⟩
  have hfollows : Follows [name] (name :: us) :=
    Follows.cons rfl (by rw [hname]; decide)
  have hread := hsame keyword taken (name :: us) rfl (.refl taken) hfollows
  simpa using hread

/-- What stands before the value of a constant or static is read up to it. -/
theorem exists_of_mem_bindingHead (h : head ∈ bindingHead) :
    ∃ name colon inner, name.kind = .identifier ∧ colon.kind = .colon ∧
      inner ∈ run isTypeEnd .type ∧
      ∀ us, ∃ rest, skipItemHead? (head ++ us) = some rest ∧
        skipBindingKeyword? rest = some (name :: colon :: (inner ++ us)) := by
  rw [bindingHead, mul_assoc, mul_assoc] at h
  obtain ⟨front, hfront, back, hback, rfl⟩ := Language.mem_mul.mp h
  obtain ⟨words, hwords, type, htype, rfl⟩ := Language.mem_mul.mp hback
  obtain ⟨colon, inner, rfl, hcolon, hinner⟩ := mem_ofKind_mul.mp htype
  obtain ⟨name, hname, hskip⟩ := exists_skipBindingKeyword? hwords
  refine ⟨name, colon, inner, hname, hcolon, hinner, fun us => ?_⟩
  have hrest : words ++ colon :: (inner ++ us) ∈ bindingName * ⊤ :=
    Language.append_mem_mul hwords trivial
  have hread := (reads_skipItemHead? (opensWith_bindingName_mul ⊤) (by decide)).complete front
    hfront _ hrest
  exact ⟨_, by simpa using hread, hskip _⟩

/-- What stands before the value of a constant or static is read by no other reader. -/
theorem eq_binding_of_outline? (hhead : head ∈ bindingHead) {found : Text × MarkerSite}
    (h : outline? kind (head ++ us) = some found) : kind = .binding := by
  obtain ⟨name, colon, inner, -, hcolon, -, hread⟩ := exists_of_mem_bindingHead hhead
  obtain ⟨rest, hrest, hkeyword⟩ := hread us
  obtain ⟨hfunction, hpointer, halias⟩ := eq_none_of_bindingKeyword? hrest hkeyword hcolon
  cases kind with
  | function =>
    rw [function?_eq, Option.map_eq_none_iff] at hfunction
    exact absurd (hfunction.symm.trans h) (by simp)
  | pointerType => simp [outline?, hpointer] at h
  | typeAlias => simp [outline?, readFramed, halias] at h
  | binding => rfl
  | foreignBlock =>
    obtain ⟨shape, hshape, -⟩ := Option.map_eq_some_iff.mp h
    have hnone := skipBindingKeyword?_of_foreignBlock? hshape hrest
    exact absurd (hnone.symm.trans hkeyword) (by simp)

/-- The name and the type of a constant or static are those before its value, whatever that is. -/
theorem exists_bindingParts?_iff_of_head (hhead : head ∈ bindingHead) :
    ∃ parts, ∀ sign us found, isTypeEnd sign = true →
      (bindingParts? (head ++ sign :: us) = some found ↔
        parts = found ∧ sign :: us ∈ bindingTail) := by
  obtain ⟨name, colon, inner, hname, hcolon, hinner, hread⟩ := exists_of_mem_bindingHead hhead
  obtain ⟨hinner, hne⟩ := mem_run_iff.mp hinner
  refine ⟨(name.content, inner), fun sign us found hsign => ?_⟩
  obtain ⟨rest, hrest, hkeyword⟩ := hread (sign :: us)
  have hsplit : splitUntil? isTypeEnd true (inner ++ sign :: us) = some (inner, sign :: us) :=
    Group.splitUntil_eq_some_iff.mpr ⟨rfl, hinner, .inr ⟨sign, us, rfl, hsign⟩⟩
  have hname : accept? .identifier (name :: colon :: (inner ++ sign :: us)) =
      some (name, colon :: (inner ++ sign :: us)) :=
    accept?_eq_some_iff.mpr ⟨rfl, hname⟩
  have hcolon : accept? .colon (colon :: (inner ++ sign :: us)) =
      some (colon, inner ++ sign :: us) :=
    accept?_eq_some_iff.mpr ⟨rfl, hcolon⟩
  rw [bindingTail, reads_skipValue?.mem_mul_iff]
  simp only [bindingParts?, hrest, hkeyword, hname, hcolon, hsplit, Option.bind_eq_bind,
    Option.bind_some]
  constructor
  · intro h
    simp only [Option.bind_eq_some_iff, Prod.exists, Option.some.injEq] at h
    obtain ⟨⟨⟩, -, after, hvalue, semicolon, after', hsemicolon, ⟨⟩, hempty, rfl⟩ := h
    obtain ⟨rfl, hkind⟩ := accept?_eq_some_iff.mp hsemicolon
    obtain rfl : after' = [] := by simpa using hempty
    exact ⟨rfl, _, mem_ofKind_iff.mpr ⟨semicolon, rfl, hkind⟩, hvalue⟩
  · rintro ⟨rfl, after, hsemicolon, hvalue⟩
    obtain ⟨semicolon, rfl, hkind⟩ := mem_ofKind_iff.mp hsemicolon
    simp [hvalue, accept?, hkind, hne]

/-- What is read of a constant or static is the same for every value. -/
theorem outline?_of_head {found : Text × MarkerSite} (hhead : head ∈ bindingHead)
    (hsign : isTypeEnd sign = true) (h : outline? kind (head ++ sign :: us) = some found) :
    sign :: us ∈ bindingTail ∧
      ∀ us', sign :: us' ∈ bindingTail → outline? kind (head ++ sign :: us') = some found := by
  obtain rfl := eq_binding_of_outline? hhead h
  obtain ⟨parts, hparts⟩ := exists_bindingParts?_iff_of_head hhead
  obtain ⟨found', hfound', hsite⟩ := Option.bind_eq_some_iff.mp h
  obtain ⟨rfl, hus⟩ := (hparts sign us found' hsign).mp hfound'
  refine ⟨hus, fun us' hus' => ?_⟩
  show readFramed bindingParts? (head ++ sign :: us') = some found
  rw [readFramed, (hparts sign us' parts hsign).mpr ⟨rfl, hus'⟩]
  exact hsite

/-- The rest of a constant or static begins with an equals sign or is the semicolon. -/
theorem exists_cons_of_bindingTail (h : ts ∈ bindingTail) :
    ∃ sign us, ts = sign :: us ∧ (sign.kind = .equal ∨ sign.kind = .semicolon ∧ us = []) := by
  rw [bindingTail, add_mul, one_mul, mul_assoc] at h
  rcases h with hend | hvalued
  · obtain ⟨sign, rfl, hkind⟩ := mem_ofKind_iff.mp hend
    exact ⟨sign, [], rfl, .inr ⟨hkind, rfl⟩⟩
  · obtain ⟨sign, us, rfl, hsign, -⟩ := mem_ofKind_mul.mp hvalued
    exact ⟨sign, us, rfl, .inl hsign⟩

/-- Behind an equals sign a constant or static has a value, and the semicolon that ends it. -/
theorem mem_bindingTail_iff (hsign : sign.kind = .equal) :
    sign :: us ∈ bindingTail ↔ ∃ value semicolon, us = value ++ [semicolon] ∧
      value ∈ passed isSemicolon ∧ value ≠ [] ∧ semicolon.kind = .semicolon := by
  rw [bindingTail, add_mul, one_mul, mul_assoc]
  constructor
  · rintro (hend | hvalued)
    · obtain ⟨t, heq, ht⟩ := mem_ofKind_iff.mp hend
      obtain ⟨rfl, -⟩ := List.cons.inj heq
      simp [hsign] at ht
    · obtain ⟨t, us, heq, -, hus⟩ := mem_ofKind_mul.mp hvalued
      obtain ⟨-, rfl⟩ := List.cons.inj heq
      obtain ⟨value, hrun, last, hlast, rfl⟩ := Language.mem_mul.mp hus
      obtain ⟨semicolon, rfl, hkind⟩ := mem_ofKind_iff.mp hlast
      obtain ⟨hpassed, hne⟩ := mem_run_iff.mp hrun
      exact ⟨value, semicolon, rfl, hpassed, hne, hkind⟩
  · rintro ⟨value, semicolon, rfl, hpassed, hne, hkind⟩
    exact .inr (mem_ofKind_mul.mpr ⟨sign, _, rfl, hsign, Language.append_mem_mul
      (mem_run_iff.mpr ⟨hpassed, hne⟩) (mem_ofKind_iff.mpr ⟨semicolon, rfl, hkind⟩)⟩)

/-- In the value of a constant or static, tokens that have to do with no bracket may be replaced by
others, if balanced tokens stand before them. -/
theorem outline?_value {found : Text × MarkerSite} (hhead : head ∈ bindingHead)
    (hsign : sign.kind = .equal) (hv : v ∈ (element .value)∗)
    (hm : ∀ t ∈ m, Scope.value.isPlain t.kind = true ∧ t.kind ≠ .semicolon) (hne : m ≠ [])
    (hm' : ∀ t ∈ m', Scope.value.isPlain t.kind = true ∧ t.kind ≠ .semicolon) (hne' : m' ≠ [])
    (hw : Alike w w') (h : outline? kind (head ++ sign :: (v ++ (m ++ w))) = some found) :
    outline? kind (head ++ sign :: (v ++ (m' ++ w'))) = some found := by
  have hend : isTypeEnd sign = true := by simp [isTypeEnd, hsign]
  obtain ⟨htail, hread⟩ := outline?_of_head hhead hend h
  obtain ⟨value, semicolon, heq, hvalue, -, hkind⟩ := (mem_bindingTail_iff hsign).mp htail
  -- The semicolon stands behind the tokens that are replaced, for none of them is one.
  obtain ⟨w, rfl⟩ : ∃ init, w = init ++ [semicolon] := by
    rcases List.eq_nil_or_concat' w with rfl | ⟨init, last, rfl⟩
    · obtain ⟨m, last, rfl⟩ := (List.eq_nil_or_concat' m).resolve_left hne
      rw [List.append_nil, ← List.append_assoc] at heq
      obtain rfl := List.singleton_inj.mp (List.append_inj' heq rfl).2
      exact absurd hkind (hm last (by simp)).2
    · rw [← List.append_assoc, ← List.append_assoc] at heq
      exact ⟨init, by rw [List.singleton_inj.mp (List.append_inj' heq rfl).2]⟩
  obtain ⟨w', end', rfl, halike, hend'⟩ := Alike.append_iff.mp hw
  obtain ⟨semicolon', rest, rfl, hlexeme, hrest⟩ := Alike.cons_iff.mp hend'
  obtain rfl := Alike.nil_iff.mp hrest
  obtain rfl : v ++ (m ++ w) = value := List.append_cancel_right (by simpa using heq)
  obtain ⟨hv, hmore⟩ := mem_passed_of_append hv hvalue
  obtain ⟨-, hw₁⟩ := mem_passed_of_append (mem_elements_of_plain fun t ht => (hm t ht).1) hmore
  have hw₂ : w' ∈ passed isSemicolon := by
    refine mem_passed_of_alike (fun t t' h => ?_) hw₁ halike
    rw [isSemicolon, isSemicolon, kind_eq_of_lexeme h]
  refine hread _ ((mem_bindingTail_iff hsign).mpr
    ⟨v ++ (m' ++ w'), semicolon', by simp, ?_, ?_, ?_⟩)
  · have hpassed : m' ∈ passed isSemicolon :=
      mem_passed_of_plain fun t ht => ⟨(hm' t ht).1, by simpa [isSemicolon] using (hm' t ht).2⟩
    exact append_mem_kstar hv (append_mem_kstar hpassed hw₂)
  · simp [hne']
  · rw [← kind_eq_of_lexeme hlexeme, hkind]

end Shape

end CallConv
