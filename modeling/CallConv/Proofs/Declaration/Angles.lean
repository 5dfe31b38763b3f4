import Mathlib
import CallConv.Proofs.Declaration.Initialiser

/-!
# Angles that have to be closed

Where angles count, an angle that opens is a word of no language of declarations without the angle
that closes it. So outside of brackets a declaration closes at least as many angles as it opens, up
to the value of a constant or static, in which angles do not count (`closesAngles_declaration`).
-/

namespace CallConv

open scoped Computability

/-- The tokens that stand outside of brackets, behind as many brackets that are open. -/
def outside (depth : Nat) : List Token → List Token
  | [] => []
  | t :: ts =>
    if t.kind.closing?.isSome then outside (depth + 1) ts
    else if t.kind.isClosing then outside (depth - 1) ts
    else if depth = 0 then t :: outside depth ts
    else outside depth ts

/-- How many angles are opened outside of brackets. -/
def openedAngles (ts : List Token) : Nat := (outside 0 ts).countP fun t => t.kind == .less

/-- How many angles are closed outside of brackets. -/
def closedAngles (ts : List Token) : Nat := (outside 0 ts).countP fun t => t.kind == .greater

namespace Grammar

variable {ts us e : List Token} {t : Token} {depth : Nat} {A B : Language Token}

/-- A token that has to do with no bracket stands outside of brackets where none is open. -/
theorem outside_cons (ht : Scope.value.isPlain t.kind = true) (ts : List Token) :
    outside depth (t :: ts) = if depth = 0 then t :: outside depth ts else outside depth ts := by
  simp only [Scope.isPlain, Bool.and_true, Bool.and_eq_true, Option.isNone_iff_eq_none,
    Bool.not_eq_true'] at ht
  simp [outside, ht.1, ht.2]

/-- A group is passed over as balanced tokens inside of it are. -/
theorem outside_group {first last : Token} {body : List Token}
    (hclosing : first.kind.closing? = some last.kind)
    (hbody : ∀ ts, outside (depth + 1) (body ++ ts) = outside (depth + 1) ts) (ts : List Token) :
    outside depth (first :: (body ++ last :: ts)) = outside depth ts := by
  have hnone : last.kind.closing? = none := by
    have hlast := Group.isClosing_of_closing? hclosing
    revert hlast
    cases last.kind <;> simp [TokenKind.isClosing, TokenKind.closing?]
  rw [outside, if_pos (by simp [hclosing]), hbody, outside, if_neg (by simp [hnone]),
    if_pos (Group.isClosing_of_closing? hclosing), Nat.add_sub_cancel]

/-- What is passed over piece by piece is passed over. -/
theorem outside_flatten {es : List (List Token)}
    (hes : ∀ e ∈ es, ∀ ts, outside depth (e ++ ts) = outside depth ts) (ts : List Token) :
    outside depth (es.flatten ++ ts) = outside depth ts := by
  induction es with
  | nil => rfl
  | cons e es ih =>
    obtain ⟨he, hmore⟩ := List.forall_mem_cons.mp hes
    rw [List.flatten_cons, List.append_assoc, he, ih hmore]

/-- Inside of brackets an element of a value is passed over. -/
theorem outside_element (h : Element .value e) (depth : Nat) (ts : List Token) :
    outside (depth + 1) (e ++ ts) = outside (depth + 1) ts := by
  generalize hscope : Scope.value = scope at h
  induction h generalizing depth ts with
  | token hplain =>
    subst hscope
    rw [List.singleton_append, outside_cons hplain, if_neg (Nat.succ_ne_zero depth)]
  | @group scope first last es hclosing hes ih =>
    have hgroup := outside_group hclosing
      (outside_flatten fun e he ts => ih e he (depth + 1) ts rfl) ts
    simpa using hgroup
  | angles hvalue => exact absurd hscope.symm hvalue

/-- The tokens outside of brackets are those of balanced tokens and of what follows them. -/
theorem outside_append (h : ts ∈ (element .value)∗) (us : List Token) :
    outside 0 (ts ++ us) = outside 0 ts ++ outside 0 us := by
  obtain ⟨es, rfl, hes⟩ := Language.mem_kstar.mp h
  induction es with
  | nil => rfl
  | cons e es ih =>
    obtain ⟨he, hmore⟩ := List.forall_mem_cons.mp hes
    have ih := ih hmore (Language.join_mem_kstar hmore)
    have he : Element .value e := he
    rw [List.flatten_cons, List.append_assoc]
    cases he with
    | token hplain =>
      rw [List.singleton_append, List.singleton_append, outside_cons hplain, outside_cons hplain,
        if_pos rfl, if_pos rfl, ih, List.cons_append]
    | @group _ first last es' hclosing hes' =>
      have hgroup : ∀ ts, outside 0 (first :: (es'.flatten ++ [last]) ++ ts) = outside 0 ts := by
        intro ts
        have hpass : outside 0 (first :: (es'.flatten ++ last :: ts)) = outside 0 ts :=
          outside_group hclosing
            (outside_flatten fun e he ts => outside_element (hes' e he) 0 ts) ts
        simpa using hpass
      rw [hgroup, hgroup, ih]
    | angles hvalue => exact absurd rfl hvalue

/-- The angles that are opened add up. -/
theorem openedAngles_append (h : ts ∈ (element .value)∗) (us : List Token) :
    openedAngles (ts ++ us) = openedAngles ts + openedAngles us := by
  rw [openedAngles, outside_append h, List.countP_append]
  rfl

/-- The angles that are closed add up. -/
theorem closedAngles_append (h : ts ∈ (element .value)∗) (us : List Token) :
    closedAngles (ts ++ us) = closedAngles ts + closedAngles us := by
  rw [closedAngles, outside_append h, List.countP_append]
  rfl

/-- Tokens that have to do with no bracket all stand outside of brackets. -/
theorem outside_of_plain (hts : ∀ t ∈ ts, Scope.value.isPlain t.kind = true) :
    outside 0 ts = ts := by
  induction ts with
  | nil => rfl
  | cons t ts ih =>
    obtain ⟨ht, hts⟩ := List.forall_mem_cons.mp hts
    rw [outside_cons ht, if_pos rfl, ih hts]

/-- A single token opens or closes an angle if it is one. -/
theorem angles_singleton (ht : Scope.value.isPlain t.kind = true) :
    openedAngles [t] = (if t.kind = .less then 1 else 0) ∧
      closedAngles [t] = if t.kind = .greater then 1 else 0 := by
  rw [openedAngles, closedAngles, outside_of_plain (by simpa using ht)]
  simp [List.countP_cons]

/-- Tokens with the same lexemes stand outside of brackets in the same places. -/
theorem alike_outside {ts' : List Token} (h : Alike ts ts') :
    Alike (outside depth ts) (outside depth ts') := by
  induction ts generalizing ts' depth with
  | nil =>
    rw [Alike.nil_iff.mp h]
    exact .refl _
  | cons t ts ih =>
    obtain ⟨t', us', rfl, ht, hus⟩ := Alike.cons_iff.mp h
    rw [outside, outside, ← kind_eq_of_lexeme ht]
    split_ifs
    · exact ih hus
    · exact ih hus
    · exact Alike.cons_iff.mpr ⟨t', _, rfl, ht, ih hus⟩
    · exact ih hus

/-- Tokens with the same lexemes open and close the same number of angles. -/
theorem angles_of_alike {ts' : List Token} (h : Alike ts ts') :
    openedAngles ts = openedAngles ts' ∧ closedAngles ts = closedAngles ts' := by
  have hcount : ∀ kind : TokenKind, ∀ us : List Token,
      us.countP (fun t => t.kind == kind) =
        (us.map Token.lexeme).countP fun l => l.kind == kind := by
    intro kind us
    rw [List.countP_map]
    rfl
  have halike : (outside 0 ts).map Token.lexeme = (outside 0 ts').map Token.lexeme :=
    alike_outside h
  simp only [openedAngles, closedAngles, hcount, halike, and_self]

/-- Groups in brackets open no angle outside of brackets. -/
theorem openedAngles_group {first last : Token} {body : List Token}
    (hclosing : first.kind.closing? = some last.kind) (hbody : body ∈ (element .value)∗) :
    openedAngles (first :: (body ++ [last])) = 0 := by
  obtain ⟨es, rfl, hes⟩ := Language.mem_kstar.mp hbody
  have hpass : outside 0 (first :: (es.flatten ++ [last])) = outside 0 [] :=
    outside_group hclosing (outside_flatten fun e he ts => outside_element (hes e he) 0 ts) []
  rw [openedAngles, hpass]
  rfl

/-! ## Languages that close their angles -/

/-- The words of a language are balanced, and close at least as many angles as they open outside of
brackets. -/
def ClosesAngles (L : Language Token) : Prop :=
  ∀ ts ∈ L, ts ∈ (element .value)∗ ∧ openedAngles ts ≤ closedAngles ts

namespace ClosesAngles

/-- The words of a part of a language. -/
theorem mono (h : ClosesAngles B) (hle : A ≤ B) : ClosesAngles A := fun ts hts => h ts (hle hts)

/-- One of two languages. -/
theorem add (hA : ClosesAngles A) (hB : ClosesAngles B) : ClosesAngles (A + B) :=
  fun ts hts => hts.elim (hA ts) (hB ts)

/-- No tokens. -/
theorem one : ClosesAngles 1 := by
  intro ts hts
  rw [(Language.mem_one ts).mp hts]
  exact ⟨Language.nil_mem_kstar _, le_rfl⟩

/-- One language after the other. -/
theorem mul (hA : ClosesAngles A) (hB : ClosesAngles B) : ClosesAngles (A * B) := by
  intro ts hts
  obtain ⟨a, ha, b, hb, rfl⟩ := Language.mem_mul.mp hts
  obtain ⟨ha, hleA⟩ := hA a ha
  obtain ⟨hb, hleB⟩ := hB b hb
  rw [openedAngles_append ha, closedAngles_append ha]
  exact ⟨append_mem_kstar ha hb, Nat.add_le_add hleA hleB⟩

/-- Words in a row. -/
theorem star (hA : ClosesAngles A) : ClosesAngles A∗ := by
  intro ts hts
  obtain ⟨es, rfl, hes⟩ := Language.mem_kstar.mp hts
  induction es with
  | nil => exact one [] Language.nil_mem_one
  | cons e es ih =>
    obtain ⟨he, hmore⟩ := List.forall_mem_cons.mp hes
    obtain ⟨he, hleE⟩ := hA e he
    obtain ⟨hstar, hleStar⟩ := ih hmore (Language.join_mem_kstar hmore)
    rw [List.flatten_cons, openedAngles_append he, closedAngles_append he]
    exact ⟨append_mem_kstar he hstar, Nat.add_le_add hleE hleStar⟩

end ClosesAngles

/-- Tokens of which none opens an angle or has to do with brackets. -/
theorem closesAngles_one {p : Token → Bool}
    (hp : ∀ t, p t = true → Scope.value.isPlain t.kind = true ∧ t.kind ≠ .less) :
    ClosesAngles (one p) := by
  rintro _ ⟨t, rfl, ht⟩
  obtain ⟨hplain, hless⟩ := hp t ht
  refine ⟨(le_kstar : element .value ≤ _) (.token hplain), ?_⟩
  rw [(angles_singleton hplain).1, if_neg hless]
  exact Nat.zero_le _

/-- Elements of types, in which no angle that opens stands on its own. -/
theorem closesAngles_element {scope : Scope} (hscope : scope ≠ .value) :
    ClosesAngles (element scope) := by
  intro e he
  replace he : Element scope e := he
  refine ⟨mem_elements he, ?_⟩
  induction he with
  | @token scope t hplain =>
    have hless : t.kind ≠ .less := by
      rintro hless
      rw [hless] at hplain
      cases scope with
      | value => exact hscope rfl
      | type => simp [Scope.isPlain] at hplain
      | angles => simp [Scope.isPlain] at hplain
    rw [(angles_singleton (isPlain_value hplain)).1, if_neg hless]
    exact Nat.zero_le _
  | group hclosing hes =>
    rw [openedAngles_group hclosing (Language.join_mem_kstar hes)]
    exact Nat.zero_le _
  | @angles scope first last es _ hfirst hlast hes ih =>
    -- The two angles cancel, and those between them are closed as well.
    let closed : Language Token :=
      {e | e ∈ (element .value)∗ ∧ openedAngles e ≤ closedAngles e}
    have hclosed : ClosesAngles closed := fun _ h => h
    obtain ⟨hinner, hle⟩ := hclosed.star es.flatten (Language.join_mem_kstar fun e he =>
      ⟨mem_elements (hes e he), ih e he (by decide)⟩)
    have hless : Scope.value.isPlain first.kind = true := by rw [hfirst]; decide
    have hgreater : Scope.value.isPlain last.kind = true := by rw [hlast]; decide
    have hopens := openedAngles_append (mem_elements_of_plain (by simpa using hless) :
      [first] ∈ (element .value)∗) (es.flatten ++ [last])
    have hcloses := closedAngles_append (mem_elements_of_plain (by simpa using hless) :
      [first] ∈ (element .value)∗) (es.flatten ++ [last])
    rw [openedAngles_append hinner, (angles_singleton hless).1, (angles_singleton hgreater).1,
      if_pos hfirst, if_neg (by rw [hlast]; decide)] at hopens
    rw [closedAngles_append hinner, (angles_singleton hless).2, (angles_singleton hgreater).2,
      if_pos hlast, if_neg (by rw [hfirst]; decide)] at hcloses
    rw [List.singleton_append] at hopens hcloses
    omega

/-- Runs of elements of types. -/
theorem closesAngles_run (stop : Token → Bool) : ClosesAngles (run stop .type) := by
  have hproper : ClosesAngles (proper stop .type) :=
    (closesAngles_element (by decide)).mono fun _ he => he.1
  exact hproper.mul hproper.star

/-- Groups in brackets. -/
theorem closesAngles_group {kind closer : TokenKind} (hclosing : kind.closing? = some closer) :
    ClosesAngles (ofKind kind * inside closer) := by
  intro ts hts
  obtain ⟨first, rest, rfl, rfl, hrest⟩ := mem_ofKind_mul.mp hts
  obtain ⟨es, last, rfl, rfl, hes⟩ := mem_inside_iff.mp hrest
  rw [Group.upTo_of_closing? hclosing] at hes
  refine ⟨(le_kstar : element .value ≤ _) (.group hclosing hes), ?_⟩
  rw [openedAngles_group hclosing (Language.join_mem_kstar hes)]
  exact Nat.zero_le _

/-- Angles with all that they enclose. -/
theorem closesAngles_angles : ClosesAngles angles := by
  intro ts hts
  obtain ⟨first, rest, rfl, hfirst, hrest⟩ := mem_ofKind_mul.mp hts
  obtain ⟨es, last, rfl, hlast, hes⟩ := mem_inside_iff.mp hrest
  exact closesAngles_element (by decide : Scope.type ≠ .value) _
    (.angles (by decide) hfirst hlast hes)

/-! ## Declarations -/

/-- What is put together from tokens and groups in parentheses and brackets closes its angles. -/
theorem pervasive_closesAngles : Pervasive ClosesAngles where
  mono := ClosesAngles.mono
  one := ClosesAngles.one
  add := ClosesAngles.add
  mul := ClosesAngles.mul
  star := ClosesAngles.star
  token hp := closesAngles_one fun t ht => ⟨(hp t ht).1, (hp t ht).2.2⟩
  parens := closesAngles_group rfl
  brackets := closesAngles_group rfl

/-- A semicolon closes its angles. -/
theorem closesAngles_semicolon : ClosesAngles (ofKind .semicolon) :=
  closesAngles_one fun t ht => by
    have hkind : t.kind = .semicolon := by simpa using ht
    rw [hkind]
    decide

/-- Constants and statics up to the end of their types. -/
theorem closesAngles_bindingHead : ClosesAngles bindingHead :=
  pervasive_closesAngles.bindingName.mul (closesAngles_run _)

/-- Aliases of any types. -/
theorem closesAngles_typeAlias (types : Language Token) : ClosesAngles (typeAlias types) :=
  have hparts := pervasive_closesAngles
  (((hparts.aliasName.mul (hparts.optional closesAngles_angles)).mul
    (hparts.ofKind (by decide))).mul ((closesAngles_run _).mono inf_le_left)).mul
    closesAngles_semicolon

/-- All declarations but constants and statics. -/
theorem closesAngles_declaration {kind : Kind} (hkind : kind ≠ .binding) :
    ClosesAngles (declaration kind) := by
  have hparts := pervasive_closesAngles
  cases kind with
  | function =>
    have hproper : ClosesAngles (proper Shape.isBodyStart .type) :=
      (closesAngles_element (by decide)).mono fun _ he => he.1
    exact (((hparts.functionName.mul (hparts.optional closesAngles_angles)).mul
      hparts.parens).mul hproper.star).mul (closesAngles_semicolon.add (closesAngles_group rfl))
  | pointerType =>
    have hfor : ClosesAngles (word (utf8 "for") * angles) := (hparts.word _).mul closesAngles_angles
    have hreturn : ClosesAngles (ofKind .arrow * run (fun _ => false) .type) :=
      (hparts.ofKind (by decide)).mul (closesAngles_run _)
    exact (((((hparts.optional hfor).mul (hparts.optional (hparts.word _))).mul
      (hparts.optional hparts.marker)).mul (hparts.word _)).mul hparts.parens).mul
      (hparts.optional hreturn)
  | typeAlias => exact closesAngles_typeAlias _
  | binding => exact absurd rfl hkind
  | foreignBlock => exact hparts.foreignHead.mul (closesAngles_group rfl)

/-- The rest of a constant or static is balanced. -/
theorem mem_elements_of_bindingTail (h : ts ∈ bindingTail) : ts ∈ (element .value)∗ := by
  obtain ⟨sign, us, rfl, hsign | ⟨hkind, rfl⟩⟩ := Shape.exists_cons_of_bindingTail h
  · obtain ⟨value, semicolon, rfl, hvalue, -, hkind⟩ := (Shape.mem_bindingTail_iff hsign).mp h
    have hends : ∀ t ∈ [sign, semicolon], Scope.value.isPlain t.kind = true := by
      simp [hsign, hkind, Scope.isPlain, TokenKind.closing?, TokenKind.isClosing]
    have hfirst : [sign] ∈ (element .value)∗ := mem_elements_of_plain (by simpa using hends sign)
    have hlast : [semicolon] ∈ (element .value)∗ :=
      mem_elements_of_plain (by simpa using hends semicolon)
    have hproper : proper Shape.isSemicolon .value ≤ element .value := fun _ he => he.1
    have hpassed : passed Shape.isSemicolon ≤ (element .value)∗ := kstar_mono hproper
    exact append_mem_kstar hfirst (append_mem_kstar (hpassed hvalue) hlast)
  · refine mem_elements_of_plain ?_
    simp [hkind, Scope.isPlain, TokenKind.closing?, TokenKind.isClosing]

/-- Constants and statics of any types fall into what stands up to the end of the type and the
rest. -/
theorem binding_le (types : Language Token) : binding types ≤ bindingHead * bindingTail := by
  have hrun : run Shape.isTypeEnd .type ⊓ types ≤ run Shape.isTypeEnd .type := inf_le_left
  rw [binding, bindingHead, bindingTail, ← mul_assoc]
  gcongr

end Grammar

end CallConv
