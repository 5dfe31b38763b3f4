import Mathlib
import CallConv.Proofs.Declaration.Outline

/-!
# The order of the readers

The readers of declarations are tried one after the other, and the first that answers decides,
whether it reads a declaration or refuses the type that it finds. They accept many of the same first
words, but no two of them answer to the same tokens. A table with the readers in another order
therefore reads the same declarations and fails with the same errors, and a reader that refuses a
type keeps no other from reading a declaration.
-/

namespace CallConv

namespace Shape

/-- The reader of a kind. It answers with a declaration of that kind, with the refusal of a type
that such a declaration cannot have, or not at all. -/
def reader : Kind → Text → Cursor → List Token → Option (Except ClassifyError Shape)
  | .function => fun _ _ ts => (function? ts).map .ok
  | .pointerType => fun _ _ ts => (pointerType? ts).map .ok
  | .typeAlias => typeAlias?
  | .binding => fun _ _ ts => binding? ts
  | .foreignBlock => fun _ _ ts => (foreignBlock? ts).map .ok

/-- What the first reader of a table that answers says. -/
def readIn? (table : List Kind) (source : Text) (origin : Cursor) (ts : List Token) :
    Option (Except ClassifyError Shape) :=
  table.findSome? fun kind => reader kind source origin ts

/-- The readers are tried in the order of the numbers of their kinds. -/
theorem readIn?_all (source : Text) (origin : Cursor) (ts : List Token) :
    readIn? Kind.all source origin ts = read? source origin ts := by
  simp only [readIn?, Kind.all, List.findSome?_cons, List.findSome?_nil, reader, read?]
  cases function? ts <;> cases pointerType? ts <;> cases typeAlias? source origin ts <;>
    cases binding? ts <;> cases foreignBlock? ts <;> rfl

section Exclusive

variable {source : Text} {origin : Cursor} {ts : List Token} {kind kind' : Kind}
  {answer answer' : Except ClassifyError Shape}

/-- The reader of aliases answers only where the parts of an alias are found. -/
theorem exists_aliasParts? (h : typeAlias? source origin ts = some answer) :
    ∃ parts, aliasParts? ts = some parts := by
  cases hparts : aliasParts? ts with
  | none => simp [typeAlias?, hparts] at h
  | some parts => exact ⟨parts, rfl⟩

/-- The reader of constants and statics answers only where the parts of one are found. -/
theorem exists_bindingParts? (h : binding? ts = some answer) :
    ∃ parts, bindingParts? ts = some parts := by
  cases hparts : bindingParts? ts with
  | none => simp [binding?, hparts] at h
  | some parts => exact ⟨parts, rfl⟩

/-- Where a reader answers, those before it do not. -/
theorem pairwise_reader (source : Text) (origin : Cursor) (ts : List Token) :
    Kind.all.Pairwise fun kind kind' => ∀ answer, reader kind' source origin ts = some answer →
      reader kind source origin ts = none := by
  have hpointer : ∀ answer, reader .pointerType source origin ts = some answer →
      function? ts = none := by
    intro answer h
    simp only [reader, pointerType?, Option.map_map, Option.map_eq_some_iff] at h
    obtain ⟨site, hsite, -⟩ := h
    exact function?_eq_none_of_pointerSite? hsite
  have halias : ∀ answer, reader .typeAlias source origin ts = some answer →
      function? ts = none ∧ pointerSite? ts = none := by
    intro answer h
    obtain ⟨parts, hparts⟩ := exists_aliasParts? h
    exact eq_none_of_aliasParts? hparts
  have hbinding : ∀ answer, reader .binding source origin ts = some answer →
      function? ts = none ∧ pointerSite? ts = none ∧ aliasParts? ts = none := by
    intro answer h
    obtain ⟨parts, hparts⟩ := exists_bindingParts? h
    exact eq_none_of_bindingParts? hparts
  have hforeign : ∀ answer, reader .foreignBlock source origin ts = some answer →
      function? ts = none ∧ pointerSite? ts = none ∧ aliasParts? ts = none ∧
        bindingParts? ts = none := by
    intro answer h
    obtain ⟨shape, hshape, -⟩ := Option.map_eq_some_iff.mp h
    exact eq_none_of_foreignBlock? hshape
  simp only [Kind.all, List.pairwise_cons, List.mem_cons, List.not_mem_nil, or_false,
    forall_eq_or_imp, forall_eq, List.Pairwise.nil, and_true, IsEmpty.forall_iff, implies_true]
  refine ⟨⟨?_, ?_, ?_, ?_⟩, ⟨?_, ?_, ?_⟩, ⟨?_, ?_⟩, ?_⟩ <;> intro answer h
  · simp [reader, hpointer answer h]
  · simp [reader, (halias answer h).1]
  · simp [reader, (hbinding answer h).1]
  · simp [reader, (hforeign answer h).1]
  · simp [reader, pointerType?, (halias answer h).2]
  · simp [reader, pointerType?, (hbinding answer h).2.1]
  · simp [reader, pointerType?, (hforeign answer h).2.1]
  · simp [reader, typeAlias?, (hbinding answer h).2.2]
  · simp [reader, typeAlias?, (hforeign answer h).2.2.1]
  · simp [reader, binding?, (hforeign answer h).2.2.2]

/-- At most one reader answers to the same tokens. -/
theorem kind_eq_of_reader (h : reader kind source origin ts = some answer)
    (h' : reader kind' source origin ts = some answer') : kind = kind' := by
  have hpairwise : Kind.all.Pairwise fun kind kind' =>
      reader kind source origin ts = none ∨ reader kind' source origin ts = none :=
    (pairwise_reader source origin ts).imp fun hrefused => by
      rw [or_iff_not_imp_right]
      intro hsome
      obtain ⟨answer, hanswer⟩ := Option.ne_none_iff_exists'.mp hsome
      exact hrefused answer hanswer
  have : Std.Symm fun kind kind' =>
      reader kind source origin ts = none ∨ reader kind' source origin ts = none :=
    ⟨fun _ _ => Or.symm⟩
  have hall : ∀ kind : Kind, kind ∈ Kind.all := fun kind => by cases kind <;> decide
  by_contra hne
  rcases hpairwise.forall (hall kind) (hall kind') hne with hnone | hnone
  · simp [hnone] at h
  · simp [hnone] at h'

/-- In every table with its kind, the reader that answers decides. -/
theorem readIn?_eq {table : List Kind} (hmem : kind ∈ table)
    (h : reader kind source origin ts = some answer) :
    readIn? table source origin ts = some answer := by
  induction table with
  | nil => exact absurd hmem List.not_mem_nil
  | cons first table ih =>
    rw [readIn?, List.findSome?_cons]
    cases hfirst : reader first source origin ts with
    | some answer' =>
      obtain rfl : first = kind := kind_eq_of_reader hfirst h
      exact hfirst.symm.trans h
    | none =>
      rcases List.mem_cons.mp hmem with rfl | hmem
      · simp [hfirst] at h
      · exact ih hmem

/-- What is read does not depend on the order of the table. -/
theorem readIn?_perm {table table' : List Kind} (hperm : table.Perm table') :
    readIn? table source origin ts = readIn? table' source origin ts := by
  cases hread : readIn? table source origin ts with
  | some answer =>
    obtain ⟨kind, hmem, hanswer⟩ := List.exists_of_findSome?_eq_some hread
    exact (readIn?_eq (hperm.mem_iff.mp hmem) hanswer).symm
  | none =>
    have hnone : ∀ kind ∈ table, reader kind source origin ts = none :=
      List.findSome?_eq_none_iff.mp hread
    exact (List.findSome?_eq_none_iff.mpr fun kind hmem => hnone kind (hperm.mem_iff.mpr hmem)).symm

/-- A declaration is of the kind of its reader. -/
theorem kind_of_reader {shape : Shape} (h : reader kind source origin ts = some (.ok shape)) :
    shape.kind = kind := by
  cases kind with
  | function =>
    simp only [reader, function?_eq, Option.map_map, Option.map_eq_some_iff] at h
    obtain ⟨found, -, heq⟩ := h
    exact congrArg Shape.kind (Except.ok.inj heq).symm
  | pointerType =>
    simp only [reader, pointerType?, Option.map_map, Option.map_eq_some_iff] at h
    obtain ⟨site, -, heq⟩ := h
    exact congrArg Shape.kind (Except.ok.inj heq).symm
  | typeAlias =>
    simp only [reader, typeAlias?] at h
    split at h
    case h_1 name first more _ =>
      cases haliased : readPointerType name (slice source origin first.location.offset
          (more.getLast?.getD first).endOffset) first.location with
      | error e => simp [haliased, Except.map] at h
      | ok aliased =>
        rw [haliased] at h
        exact congrArg Shape.kind (Except.ok.inj (Option.some.inj h)).symm
    case h_2 => simp at h
  | binding =>
    simp only [reader, binding?] at h
    split at h
    case h_1 =>
      split at h
      case h_1 => exact congrArg Shape.kind (Except.ok.inj (Option.some.inj h)).symm
      case h_2 => simp at h
    case h_2 => simp at h
  | foreignBlock =>
    obtain ⟨found, hfound, heq⟩ := Option.map_eq_some_iff.mp h
    obtain ⟨-, site, -, -, -, -, rfl⟩ := foreignBlock?_eq_some_iff.mp hfound
    exact congrArg Shape.kind (Except.ok.inj heq).symm

/-- Only aliases, constants and statics are refused, and for their type. -/
theorem refusal_of_reader (hts : tokenize source origin = .ok ts) {e : ClassifyError}
    (h : reader kind source origin (significant ts) = some (.error e)) :
    (kind = .typeAlias ∧ ∃ location name, e = .unsupportedAlias location name) ∨
      (kind = .binding ∧ ∃ location name, e = .unsupportedBinding location name) := by
  cases kind with
  | function => simp [reader] at h
  | pointerType => simp [reader] at h
  | foreignBlock => simp [reader] at h
  | typeAlias =>
    obtain ⟨⟨name, inner⟩, hparts⟩ := exists_aliasParts? h
    obtain ⟨text, location, hread, -⟩ := typeAlias?_spec hts hparts
    obtain heq := Option.some.inj (hread.symm.trans h)
    cases hsite : pointerSite? inner with
    | some site => simp [hsite] at heq
    | none =>
      rw [hsite] at heq
      exact .inl ⟨rfl, location, name, (Except.error.inj heq).symm⟩
  | binding =>
    right
    simp only [reader, binding?] at h
    split at h
    case h_1 name first more _ =>
      split at h
      case h_1 => simp at h
      case h_2 => exact ⟨rfl, first.location, name, (Except.error.inj (Option.some.inj h)).symm⟩
    case h_2 => simp at h

end Exclusive

end Shape

namespace Declaration

/-- The declaration that the first reader of a table to answer reads. -/
def classifyIn (table : List Kind) (source : Text) (origin : Cursor) :
    Except ClassifyError Declaration :=
  match tokenize source origin with
  | .error e => .error (.lex e)
  | .ok ts =>
    match Shape.readIn? table source origin (significant ts) with
    | some result => result.map fun shape => ⟨source, origin, shape⟩
    | none => .error (.unsupportedItem origin)

/-- Declarations are read with the table of all kinds. -/
theorem classifyIn_all (source : Text) (origin : Cursor) :
    classifyIn Kind.all source origin = classify source origin := by
  cases htokens : tokenize source origin with
  | error e => simp only [classifyIn, classify, htokens]
  | ok ts =>
    cases hread : Shape.read? source origin (significant ts) <;>
      simp only [classifyIn, classify, ofTokens, htokens, Shape.readIn?_all, hread]

/-- The order of the readers does not matter. At most one of them answers to the tokens of a source.
In every order of the table the same declaration is read or the same error is met, and it is the
answer of that reader: a declaration of its kind, or the refusal of the type of an alias, constant
or static, which no other reader would have read. -/
theorem classify_unordered (source : Text) (origin : Cursor) (ts : List Token)
    (h : tokenize source origin = .ok ts) :
    (∀ kind kind' answer answer', Shape.reader kind source origin (significant ts) = some answer →
      Shape.reader kind' source origin (significant ts) = some answer' → kind = kind') ∧
    (∀ table, table.Perm Kind.all → classifyIn table source origin = classify source origin) ∧
    (∀ kind shape, Shape.reader kind source origin (significant ts) = some (.ok shape) →
      classify source origin = .ok ⟨source, origin, shape⟩ ∧ shape.kind = kind) ∧
    ∀ kind e, Shape.reader kind source origin (significant ts) = some (.error e) →
      ((kind = .typeAlias ∧ ∃ location name, e = .unsupportedAlias location name) ∨
        (kind = .binding ∧ ∃ location name, e = .unsupportedBinding location name)) ∧
      classify source origin = .error e ∧
      ∀ kind', kind' ≠ kind → Shape.reader kind' source origin (significant ts) = none := by
  have hdecides : ∀ kind answer, Shape.reader kind source origin (significant ts) = some answer →
      classify source origin = answer.map fun shape => ⟨source, origin, shape⟩ := by
    intro kind answer hanswer
    have hread : Shape.readIn? Kind.all source origin (significant ts) = some answer :=
      Shape.readIn?_eq (by cases kind <;> decide) hanswer
    rw [← classifyIn_all]
    simp only [classifyIn, h, hread]
  refine ⟨fun _ _ _ _ => Shape.kind_eq_of_reader, fun table hperm => ?_,
    fun kind shape hshape => ?_, fun kind e he => ?_⟩
  · rw [← classifyIn_all]
    simp only [classifyIn, h, Shape.readIn?_perm hperm]
  · exact ⟨hdecides kind _ hshape, Shape.kind_of_reader hshape⟩
  · refine ⟨Shape.refusal_of_reader h he, hdecides kind _ he, fun kind' hne => ?_⟩
    cases hanswer : Shape.reader kind' source origin (significant ts) with
    | none => rfl
    | some answer => exact absurd (Shape.kind_eq_of_reader hanswer he) hne

/-- An alias of an integer is refused in every order, and by its own reader only. -/
theorem classify_unordered_refused :
    ∃ ts, tokenize (utf8 "type Int = i32;") Cursor.start = .ok ts ∧
      classifyIn Kind.all.reverse (utf8 "type Int = i32;") Cursor.start =
        .error (.unsupportedAlias ⟨1, 12, 11⟩ (utf8 "Int")) ∧
      ∀ kind, kind ≠ .typeAlias →
        Shape.reader kind (utf8 "type Int = i32;") Cursor.start (significant ts) = none := by
  let ts : List Token := Lexeme.place Cursor.start
    [⟨.identifier, utf8 "type"⟩, ⟨.whitespace, utf8 " "⟩, ⟨.identifier, utf8 "Int"⟩,
      ⟨.whitespace, utf8 " "⟩, ⟨.equal, utf8 "="⟩, ⟨.whitespace, utf8 " "⟩,
      ⟨.identifier, utf8 "i32"⟩, ⟨.semicolon, utf8 ";"⟩]
  have htokens : tokenize (utf8 "type Int = i32;") Cursor.start = .ok ts := by decide +kernel
  have hrefused : Shape.reader .typeAlias (utf8 "type Int = i32;") Cursor.start (significant ts) =
      some (.error (.unsupportedAlias ⟨1, 12, 11⟩ (utf8 "Int"))) := by
    decide +kernel
  obtain ⟨-, hperm, -, hrefusal⟩ := classify_unordered _ _ ts htokens
  obtain ⟨-, herror, hothers⟩ := hrefusal .typeAlias _ hrefused
  exact ⟨ts, htokens, (hperm _ (List.reverse_perm _)).trans herror, hothers⟩

end Declaration

end CallConv
