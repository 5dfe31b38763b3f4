import Mathlib
import CallConv.Proofs.Declaration.Reset
import CallConv.Proofs.SourceFile.Fatal
import CallConv.Proofs.SourceFile.Moved

/-!
# One file on two targets

The target of a run is asked in one place, where a table looks for the entry that applies. By then
the whole attribute has been read and its item has been classified, so that all other failures are
the same on every target; and whichever convention is chosen, an item without unassigned tokens
takes it. So an attribute either fails in one way on all targets, or gives an item of one kind and
name wherever its table does not miss (`AnnotatedItem.Steady`).

The expansion of a file goes through its attributes (`annotatedItems`) one after the other and lets
the failures of one have no influence on the next, which carries both facts to the whole file.
-/

namespace CallConv

/-! ## The attributes of a file -/

/-- The attributes with an item that the search comes to, in order. -/
def Attribute.annotated (ts : List Token) : List AnnotatedItem :=
  match _h : search ts with
  | .finished => []
  | .passed _ rest => annotated rest
  | .found a rest => a :: annotated rest
termination_by ts.length
decreasing_by all_goals exact length_lt_of_search (by rw [_h]; rfl)

/-- The attributes of a file that have an item, in order. -/
def annotatedItems (source : Text) : List AnnotatedItem :=
  match tokenize source Cursor.start with
  | .error _ => []
  | .ok ts => Attribute.annotated ts

/-- What an attribute gives on a target, if it can be expanded. -/
def AnnotatedItem.expanded? (target : Target) (a : AnnotatedItem) : Option ExpandedItem :=
  (a.expand target).toOption.map Prod.fst

/-- A failure is a table that misses the target. -/
def ExpandError.isMissingAbi : ExpandError → Bool
  | apply (.resolve (.missing _)) => true
  | _ => false

namespace Attribute

/-- The attributes of tokens, one finding at a time. -/
theorem annotated_eq (ts : List Token) :
    annotated ts =
      match search ts with
      | .finished => []
      | .passed _ rest => annotated rest
      | .found a rest => a :: annotated rest := by
  rw [annotated]
  split
  · next h => rw [h]
  · next h => rw [h]
  · next h => rw [h]

/-- Without tokens there are no attributes. -/
theorem annotated_nil : annotated [] = [] := by
  rw [annotated_eq]
  rfl

theorem reaches_of_mem_annotated {a : AnnotatedItem} {ts : List Token} (h : a ∈ annotated ts) :
    Reaches a ts := by
  fun_induction annotated ts with
  | case1 ts hsearch => simp at h
  | case2 ts e? rest hsearch ih => exact (reaches_of_passed hsearch).mpr (ih h)
  | case3 ts b rest hsearch ih =>
    exact (reaches_of_found hsearch).mpr ((List.mem_cons.mp h).imp_right ih)

end Attribute

/-- The items of an expansion are those of the attributes that can be expanded. -/
theorem items_expandTokens (target : Target) (ts : List Token) :
    (expandTokens target ts).items =
      (Attribute.annotated ts).filterMap (AnnotatedItem.expanded? target) := by
  fun_induction Attribute.annotated ts with
  | case1 ts hsearch =>
    rw [expandTokens_eq, hsearch]
    rfl
  | case2 ts e? rest hsearch ih =>
    rw [← ih, expandTokens_eq, hsearch]
    cases e? <;> rfl
  | case3 ts a rest hsearch ih =>
    rw [List.filterMap_cons, ← ih, expandTokens_eq, hsearch, AnnotatedItem.expanded?]
    cases hexpand : a.expand target <;> simp only [hexpand] <;> rfl

/-! ## One attribute -/

namespace Directive

/-- A sound directive chooses a convention that can be put in, or misses the target. -/
theorem Sound.resolve_cases {directive : Directive} (hsound : directive.Sound) (target : Target)
    (existing : Marker) :
    (∃ r, directive.resolve target existing = .ok r ∧ (r.changed = true → r.abi ≠ [])) ∨
      ∃ location, directive.resolve target existing = .error (.missing location) := by
  cases h : directive.resolve target existing with
  | ok r => exact .inl ⟨r, rfl, hsound.abi_ne_nil h⟩
  | error e =>
    have hfatal := hsound.resolve_error h
    cases e with
    | missing location => exact .inr ⟨location, rfl⟩
    | unknownShortcut name => simp [ResolveError.isFatal] at hfatal
    | emptyTable => simp [ResolveError.isFatal] at hfatal

end Directive

/-- A sound directive can be applied to a settled declaration, unless it misses the target, and
leaves its kind and name. -/
theorem Declaration.Settled.apply_cases {d : Declaration} (hd : d.Settled) {directive : Directive}
    (hsound : directive.Sound) (target : Target) :
    (∃ d' r, d.apply directive target = .ok (d', r) ∧ d'.kind = d.kind ∧ d'.name = d.name) ∨
      ∃ location, d.apply directive target = .error (.resolve (.missing location)) := by
  unfold apply
  rcases hsound.resolve_cases target d.marker with ⟨r, hr, habi⟩ | ⟨location, hmissing⟩
  · left
    simp only [hr]
    split
    · next hchanged =>
      obtain ⟨d', hset, -, -, hkind, hname, -⟩ := hd.setAbi (habi hchanged)
      exact ⟨d', r, by rw [hset], hkind, hname⟩
    · exact ⟨d, r, rfl, rfl, rfl⟩
  · exact .inr ⟨location, by simp only [hmissing]⟩

namespace AnnotatedItem

variable {a : AnnotatedItem}

/-- The target decides on the convention that an attribute chooses, and on nothing else. -/
inductive Steady (a : AnnotatedItem) : Prop
  /-- It fails in the same way on every target. -/
  | fails (e : ExpandError) (hkind : e.isMissingAbi = false)
      (h : ∀ target, a.expand target = .error e)
  /-- It gives an item of the same kind and name on every target that its table does not miss. -/
  | expands (kind : Kind) (name : Text) (h : ∀ target,
      (∃ e, a.expand target = .error e ∧ e.isMissingAbi = true) ∨
        ∃ abi changed text, a.expand target = .ok (⟨a.location, kind, name, abi, changed⟩, text))

/-- An attribute whose item holds no unassigned token is steady. -/
theorem steady_of_assigned
    (htokens : tokenize (Token.join a.item) a.origin = .ok a.item)
    (hassigned : ∀ t ∈ a.item, t.kind ≠ .unassigned) : a.Steady := by
  cases hdirective : Directive.ofTokens a.finish a.arguments with
  | error e =>
    exact .fails (.directive e) rfl fun target => by simp only [expand, expandText, hdirective]
  | ok directive =>
  cases hd : Declaration.classify (Token.join a.item) a.origin with
  | error e =>
    exact .fails (.classify e) rfl fun target => by simp only [expand, expandText, hdirective, hd]
  | ok d =>
  -- What is left to fail is the choice of the convention.
  have hsettled := Declaration.settled_of_classify htokens hassigned hd
  refine .expands d.kind d.name fun target => ?_
  rcases hsettled.apply_cases (Directive.sound_of_ofTokens hdirective) target with
    ⟨d', r, happly, hkind, hname⟩ | ⟨location, hmissing⟩
  · refine .inr ⟨r.abi, r.changed, d'.source, ?_⟩
    simp only [expand, expandText, hdirective, hd, happly, hkind, hname]
  · refine .inl ⟨.apply (.resolve (.missing location)), ?_, rfl⟩
    simp only [expand, expandText, hdirective, hd, hmissing]

/-- A steady attribute gives items that differ in their conventions only. -/
theorem Steady.expanded?_alike (ha : a.Steady) {m m' : Target} {i i' : ExpandedItem}
    (hi : a.expanded? m = some i) (hi' : a.expanded? m' = some i') :
    i.location = i'.location ∧ i.kind = i'.kind ∧ i.name = i'.name := by
  cases ha with
  | fails e hkind h => simp [expanded?, h m, Except.toOption] at hi
  | expands kind name h =>
    have hitem {m : Target} {i : ExpandedItem} (hi : a.expanded? m = some i) :
        i.location = a.location ∧ i.kind = kind ∧ i.name = name := by
      rcases h m with ⟨e, he, -⟩ | ⟨abi, changed, text, hok⟩
      · simp [expanded?, he, Except.toOption] at hi
      · obtain rfl : (⟨a.location, kind, name, abi, changed⟩ : ExpandedItem) = i := by
          simpa [expanded?, hok, Except.toOption] using hi
        exact ⟨rfl, rfl, rfl⟩
    obtain ⟨hlocation, hkind, hname⟩ := hitem hi
    obtain ⟨hlocation', hkind', hname'⟩ := hitem hi'
    exact ⟨hlocation.trans hlocation'.symm, hkind.trans hkind'.symm, hname.trans hname'.symm⟩

end AnnotatedItem

/-! ## All attributes -/

/-- A steady attribute adds the same failures on every target, besides a missing convention. -/
theorem exists_errors_of_found {ts rest : List Token} {a : AnnotatedItem}
    (hsearch : Attribute.search ts = .found a rest) (ha : a.Steady) :
    ∃ es, ∀ target, (expandTokens target ts).errors.filter (fun e => !e.isMissingAbi) =
      es ++ (expandTokens target rest).errors.filter (fun e => !e.isMissingAbi) := by
  cases ha with
  | fails e hkind h =>
    refine ⟨[e], fun target => ?_⟩
    rw [expandTokens_eq, hsearch]
    simp [h target, Expansion.fail, hkind]
  | expands kind name h =>
    refine ⟨[], fun target => ?_⟩
    rw [expandTokens_eq, hsearch]
    rcases h target with ⟨e, he, hkind⟩ | ⟨abi, changed, text, hok⟩
    · simp [he, Expansion.fail, hkind]
    · simp [hok, Expansion.add, Expansion.prepend]

/-- The failures besides missing conventions are the same on every target. -/
theorem filter_errors_expandTokens {ts : List Token} (m m' : Target)
    (h : ∀ a ∈ Attribute.annotated ts, a.Steady) :
    (expandTokens m ts).errors.filter (fun e => !e.isMissingAbi) =
      (expandTokens m' ts).errors.filter (fun e => !e.isMissingAbi) := by
  fun_induction Attribute.annotated ts with
  | case1 ts hsearch => rw [expandTokens_eq m, expandTokens_eq m', hsearch]
  | case2 ts e? rest hsearch ih =>
    rw [expandTokens_eq m, expandTokens_eq m', hsearch]
    cases e? with
    | none => exact ih h
    | some e =>
      simp only [Expansion.fail]
      rw [List.filter_cons_of_pos rfl, List.filter_cons_of_pos rfl, ih h]
  | case3 ts a rest hsearch ih =>
    obtain ⟨ha, hrest⟩ := List.forall_mem_cons.mp h
    obtain ⟨es, hes⟩ := exists_errors_of_found hsearch ha
    rw [hes m, hes m', ih hrest]

/-! ## Targets that cannot be told apart -/

section Alike

variable {m m' : Target}

/-- Targets with the same operating system and pointer width meet the same conditions. -/
theorem Target.matches?_congr (hos : m.platform.os = m'.platform.os)
    (hwidth : m.platform.pointerWidth = m'.platform.pointerWidth) (name : Text) :
    m.matches? name = m'.matches? name := by
  simp only [matches?, Condition.holds, hos, hwidth]

theorem Directive.firstMatch_congr (h : ∀ name, m.matches? name = m'.matches? name)
    (entries : List TableEntry) : firstMatch m entries = firstMatch m' entries := by
  induction entries with
  | nil => rfl
  | cons entry entries ih => simp only [firstMatch, h, ih]

theorem AnnotatedItem.expand_congr (h : ∀ name, m.matches? name = m'.matches? name)
    (a : AnnotatedItem) : a.expand m = a.expand m' := by
  simp only [expand, expandText, Declaration.apply, Directive.resolve, Directive.firstMatch_congr h]

/-- A file is expanded alike on targets that agree on every shortcut. -/
theorem expandTokens_congr (h : ∀ name, m.matches? name = m'.matches? name) (ts : List Token) :
    expandTokens m ts = expandTokens m' ts := by
  fun_induction Attribute.annotated ts with
  | case1 ts hsearch => rw [expandTokens_eq m, expandTokens_eq m', hsearch]
  | case2 ts e? rest hsearch ih =>
    rw [expandTokens_eq m, expandTokens_eq m', hsearch]
    cases e? <;> simp only [ih]
  | case3 ts a rest hsearch ih =>
    rw [expandTokens_eq m, expandTokens_eq m', hsearch]
    simp only [ih, AnnotatedItem.expand_congr h]

end Alike

/-- The target of a run decides on conventions and on nothing else. On two targets, a file without
unassigned tokens fails alike except where a table misses. The items are those of the same
attributes, and an attribute that can be expanded on both targets gives items at the same place, of
the same kind and with the same name. On targets with the same operating system and pointer width
the whole results are the same. -/
theorem expandSource_targets (source : Text) (m m' : Target)
    (hassigned : ∀ ts, tokenize source Cursor.start = .ok ts → ∀ t ∈ ts, t.kind ≠ .unassigned) :
    (expandSource source m).errors.filter (fun e => !e.isMissingAbi) =
        (expandSource source m').errors.filter (fun e => !e.isMissingAbi) ∧
      (expandSource source m).items =
        (annotatedItems source).filterMap (AnnotatedItem.expanded? m) ∧
      (expandSource source m').items =
        (annotatedItems source).filterMap (AnnotatedItem.expanded? m') ∧
      (∀ a ∈ annotatedItems source, ∀ i ∈ a.expanded? m, ∀ i' ∈ a.expanded? m',
        i.location = i'.location ∧ i.kind = i'.kind ∧ i.name = i'.name) ∧
      (m.platform.os = m'.platform.os → m.platform.pointerWidth = m'.platform.pointerWidth →
        expandSource source m = expandSource source m') := by
  unfold expandSource annotatedItems
  cases htokens : tokenize source Cursor.start with
  | error e => simp
  | ok ts =>
    have hsteady : ∀ a ∈ Attribute.annotated ts, a.Steady := by
      intro a ha
      obtain ⟨hitem, htokens'⟩ :=
        (Attribute.reaches_of_mem_annotated ha).tokenize_item [] htokens
      exact AnnotatedItem.steady_of_assigned htokens' fun t ht =>
        hassigned ts htokens t (hitem.subset ht)
    refine ⟨filter_errors_expandTokens m m' hsteady, items_expandTokens m ts,
      items_expandTokens m' ts, fun a ha i hi i' hi' => ?_,
      fun hos hwidth => expandTokens_congr (Target.matches?_congr hos hwidth) ts⟩
    exact (hsteady a ha).expanded?_alike hi hi'

/-- The target of a Windows machine with pointers of 64 bits. -/
def Target.windows : Target :=
  ⟨⟨utf8 "windows", utf8 "x86_64"⟩, by decide +kernel, by decide +kernel⟩

/-- A file with a table for Windows, a table for pointers of 64 bits, and a broken attribute. -/
def threeAttributes : Text :=
  utf8 "#[abi(win = \"system\")] fn f();\n#[abi(64 = \"C\")] fn g();\n#[abi]"

/-- On Linux the first table misses, and the broken attribute is reported behind it; then it is the
only failure on Windows that is no missing convention. -/
theorem expandSource_targets_three :
    (expandSource threeAttributes Target.linux64).errors =
        [.apply (.resolve (.missing ⟨1, 7, 6⟩)), .attr (.malformed ⟨3, 1, 56⟩)] ∧
      (expandSource threeAttributes Target.windows).errors.filter (fun e => !e.isMissingAbi) =
        [.attr (.malformed ⟨3, 1, 56⟩)] := by
  let ls : List Lexeme :=
    [⟨.hash, utf8 "#"⟩, ⟨.bracketLeft, utf8 "["⟩, ⟨.identifier, utf8 "abi"⟩, ⟨.parenLeft, utf8 "("⟩,
      ⟨.identifier, utf8 "win"⟩, ⟨.whitespace, utf8 " "⟩, ⟨.equal, utf8 "="⟩,
      ⟨.whitespace, utf8 " "⟩, ⟨.string, utf8 "\"system\""⟩, ⟨.parenRight, utf8 ")"⟩,
      ⟨.bracketRight, utf8 "]"⟩, ⟨.whitespace, utf8 " "⟩, ⟨.identifier, utf8 "fn"⟩,
      ⟨.whitespace, utf8 " "⟩, ⟨.identifier, utf8 "f"⟩, ⟨.parenLeft, utf8 "("⟩,
      ⟨.parenRight, utf8 ")"⟩, ⟨.semicolon, utf8 ";"⟩, ⟨.newline, [Byte.newline]⟩,
      ⟨.hash, utf8 "#"⟩, ⟨.bracketLeft, utf8 "["⟩, ⟨.identifier, utf8 "abi"⟩,
      ⟨.parenLeft, utf8 "("⟩, ⟨.number, utf8 "64"⟩, ⟨.whitespace, utf8 " "⟩, ⟨.equal, utf8 "="⟩,
      ⟨.whitespace, utf8 " "⟩, ⟨.string, utf8 "\"C\""⟩, ⟨.parenRight, utf8 ")"⟩,
      ⟨.bracketRight, utf8 "]"⟩, ⟨.whitespace, utf8 " "⟩, ⟨.identifier, utf8 "fn"⟩,
      ⟨.whitespace, utf8 " "⟩, ⟨.identifier, utf8 "g"⟩, ⟨.parenLeft, utf8 "("⟩,
      ⟨.parenRight, utf8 ")"⟩, ⟨.semicolon, utf8 ";"⟩, ⟨.newline, [Byte.newline]⟩,
      ⟨.hash, utf8 "#"⟩, ⟨.bracketLeft, utf8 "["⟩, ⟨.identifier, utf8 "abi"⟩,
      ⟨.bracketRight, utf8 "]"⟩]
  have htokens : tokenize threeAttributes Cursor.start = .ok (Lexeme.place Cursor.start ls) := by
    decide +kernel
  have hassigned : ∀ ts, tokenize threeAttributes Cursor.start = .ok ts →
      ∀ t ∈ ts, t.kind ≠ .unassigned := by
    intro ts hts
    obtain rfl := Except.ok.inj (htokens.symm.trans hts)
    decide +kernel
  have hhost : (expandSource threeAttributes Target.linux64).errors =
      [.apply (.resolve (.missing ⟨1, 7, 6⟩)), .attr (.malformed ⟨3, 1, 56⟩)] := by
    decide +kernel
  refine ⟨hhost, ?_⟩
  rw [← (expandSource_targets threeAttributes Target.linux64 Target.windows hassigned).1, hhost]
  rfl

end CallConv
