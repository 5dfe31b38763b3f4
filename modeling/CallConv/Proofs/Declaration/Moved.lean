import Mathlib
import CallConv.Proofs.Declaration.Apply
import CallConv.Proofs.Token.Moved

/-!
# Declarations at another place

A text is read as the same declaration wherever it begins, and only the positions in it differ. The
readers look at positions in one place, where the aliased type is cut out of an alias, and there at
their differences only. The same holds of an edit, which replaces the text between two offsets, so
that a declaration gets a convention in the same way wherever it stands: `classify_rebase`,
`setAbi_rebase` and `apply_rebase` state this of reading, of one change and of a directive.

Every `move` changes the positions in a value and nothing else.
-/

namespace CallConv

namespace MarkerSite

variable (f : Cursor → Cursor)

/-- A site with its positions changed. -/
def move : MarkerSite → MarkerSite
  | absent fn => absent (fn.move f)
  | bare keyword => bare (keyword.move f)
  | named keyword literal => named (keyword.move f) (literal.move f)

@[simp]
theorem marker_move (site : MarkerSite) : (site.move f).marker = site.marker := by
  cases site <;> rfl

@[simp]
theorem read_map_move (ts : List Token) :
    read (ts.map (Token.move f)) =
      Prod.map (Option.map (move f)) (List.map (Token.move f)) (read ts) := by
  unfold read
  rw [acceptWord?_map_move]
  match acceptWord? (utf8 "extern") ts with
  | none => rfl
  | some (keyword, []) => rfl
  | some (keyword, t :: rest) =>
    have hliteral : Abi.isLiteral (t.move f) = Abi.isLiteral t := rfl
    simp only [Option.map_some, Prod.map, List.map_cons, hliteral]
    split <;> rfl

/-- The marker that is read, or the place of one, moves along. -/
theorem getD_map_move (site? : Option MarkerSite) (fn : Token) :
    (site?.map (move f)).getD (absent (fn.move f)) = (site?.getD (absent fn)).move f := by
  cases site? <;> rfl

end MarkerSite

/-- A pointer type with its positions changed. -/
def PointerType.move (f : Cursor → Cursor) (p : PointerType) : PointerType :=
  ⟨p.source, f p.origin, p.site.move f⟩

/-- A failure to read a declaration with its position changed. -/
def ClassifyError.move (f : Cursor → Cursor) : ClassifyError → ClassifyError
  | lex e => lex (e.move f)
  | unsupportedItem origin => unsupportedItem (f origin)
  | unsupportedAlias location name => unsupportedAlias (f location) name
  | unsupportedBinding location name => unsupportedBinding (f location) name

namespace Shape

variable (f : Cursor → Cursor)

/-- A shape with its positions changed. -/
def move : Shape → Shape
  | function name site => function name (site.move f)
  | pointerType site => pointerType (site.move f)
  | typeAlias name aliased => typeAlias name (aliased.move f)
  | binding name site => binding name (site.move f)
  | foreignBlock site => foreignBlock (site.move f)

@[simp]
theorem kind_move (shape : Shape) : (shape.move f).kind = shape.kind := by
  cases shape <;> rfl

@[simp]
theorem name_move (shape : Shape) : (shape.move f).name = shape.name := by
  cases shape <;> rfl

@[simp]
theorem site_move (shape : Shape) : (shape.move f).site = shape.site.move f := by
  cases shape <;> rfl

/-! ## The readers -/

/-- The end of the tokens is the end of the moved tokens. -/
theorem guard_isEmpty_map_move (ts : List Token) :
    (guard (ts.map (Token.move f)).isEmpty : Option Unit) =
      (guard ts.isEmpty : Option Unit).map id := by
  cases ts <;> rfl

theorem guard_not_isEmpty_map_move (ts : List Token) :
    (guard (!(ts.map (Token.move f)).isEmpty) : Option Unit) =
      (guard (!ts.isEmpty) : Option Unit).map id := by
  cases ts <;> rfl

theorem guard_startsWithKind_map_move (kind : TokenKind) (ts : List Token) :
    (guard (startsWithKind kind (ts.map (Token.move f))) : Option Unit) =
      (guard (startsWithKind kind ts) : Option Unit).map id := by
  rw [startsWithKind_map_move, Option.map_id]
  rfl

theorem skipItemHead?_map_move (ts : List Token) :
    skipItemHead? (ts.map (Token.move f)) =
      (skipItemHead? ts).map (List.map (Token.move f)) :=
  bind_natural (skipAttributes?_map_move f ts) (skipVisibility?_map_move f)

theorem function?_map_move (ts : List Token) :
    function? (ts.map (Token.move f)) = (function? ts).map (move f) := by
  unfold function?
  refine bind_natural (skipItemHead?_map_move f ts) fun ts => ?_
  simp only [skipWord_map_move, MarkerSite.read_map_move]
  generalize MarkerSite.read _ = marker
  refine bind_natural (acceptWord?_map_move f _ _) fun fn => ?_
  refine bind_natural (accept?_map_move f _ _) fun name => ?_
  refine bind_natural (skipOptionalAngles?_map_move f _) fun ts => ?_
  refine bind_natural (guard_startsWithKind_map_move f _ _) fun _ => ?_
  refine bind_natural (skipGroup?_map_move f _) fun ts => ?_
  refine bind_natural (splitUntil?_map_move f (fun _ => rfl) _ _) fun signature => ?_
  have hend (rest : List Token) :
      ((guard (rest.map (Token.move f)).isEmpty : Option Unit).bind fun _ => some (function
        (name.1.move f).content
          ((marker.1.map (MarkerSite.move f)).getD (.absent (fn.1.move f))))) =
      ((guard rest.isEmpty : Option Unit).bind fun _ => some (function
        name.1.content (marker.1.getD (.absent fn.1)))).map (move f) := by
    refine bind_natural (guard_isEmpty_map_move f rest) fun _ => ?_
    rw [MarkerSite.getD_map_move]
    rfl
  simp only [Prod.map, accept?_map_move]
  cases accept? .semicolon signature.2 with
  | some found => exact hend found.2
  | none => exact bind_natural (skipGroup?_map_move f _) hend

theorem skipForAngles?_map_move (ts : List Token) :
    skipForAngles? (ts.map (Token.move f)) =
      (skipForAngles? ts).map (List.map (Token.move f)) := by
  unfold skipForAngles?
  rw [acceptWord?_map_move]
  cases acceptWord? (utf8 "for") ts with
  | none => rfl
  | some found => exact skipAngles?_map_move f found.2

theorem skipReturnType?_map_move (ts : List Token) :
    skipReturnType? (ts.map (Token.move f)) =
      (skipReturnType? ts).map (List.map (Token.move f)) := by
  unfold skipReturnType?
  rw [accept?_map_move]
  cases accept? .arrow ts with
  | none => rfl
  | some found =>
    refine bind_natural (splitUntil?_map_move f (fun _ => rfl) _ _) fun parts => ?_
    exact bind_natural (guard_not_isEmpty_map_move f _) fun _ => rfl

theorem pointerSite?_map_move (ts : List Token) :
    pointerSite? (ts.map (Token.move f)) = (pointerSite? ts).map (MarkerSite.move f) := by
  unfold pointerSite?
  refine bind_natural (skipForAngles?_map_move f ts) fun ts => ?_
  simp only [skipWord_map_move, MarkerSite.read_map_move]
  generalize MarkerSite.read _ = marker
  refine bind_natural (acceptWord?_map_move f _ _) fun fn => ?_
  refine bind_natural (guard_startsWithKind_map_move f _ _) fun _ => ?_
  refine bind_natural (skipGroup?_map_move f _) fun ts => ?_
  refine bind_natural (skipReturnType?_map_move f _) fun rest => ?_
  refine bind_natural (guard_isEmpty_map_move f _) fun _ => ?_
  exact congrArg some (MarkerSite.getD_map_move f marker.1 fn.1)

theorem pointerType?_map_move (ts : List Token) :
    pointerType? (ts.map (Token.move f)) = (pointerType? ts).map (move f) := by
  unfold pointerType?
  rw [pointerSite?_map_move, Option.map_map, Option.map_map]
  rfl

theorem aliasParts?_map_move (ts : List Token) :
    aliasParts? (ts.map (Token.move f)) =
      (aliasParts? ts).map (Prod.map id (List.map (Token.move f))) := by
  unfold aliasParts?
  refine bind_natural (skipItemHead?_map_move f ts) fun ts => ?_
  refine bind_natural (acceptWord?_map_move f _ _) fun keyword => ?_
  refine bind_natural (accept?_map_move f _ _) fun name => ?_
  refine bind_natural (skipOptionalAngles?_map_move f _) fun ts => ?_
  refine bind_natural (accept?_map_move f _ _) fun sign => ?_
  refine bind_natural (splitUntil?_map_move f (fun _ => rfl) _ _) fun parts => ?_
  refine bind_natural (guard_not_isEmpty_map_move f _) fun _ => ?_
  refine bind_natural (accept?_map_move f _ _) fun semicolon => ?_
  exact bind_natural (guard_isEmpty_map_move f _) fun _ => rfl

theorem skipBindingKeyword?_map_move (ts : List Token) :
    skipBindingKeyword? (ts.map (Token.move f)) =
      (skipBindingKeyword? ts).map (List.map (Token.move f)) := by
  unfold skipBindingKeyword?
  rw [acceptWord?_map_move, acceptWord?_map_move]
  cases acceptWord? (utf8 "const") ts with
  | some found => rfl
  | none =>
    cases acceptWord? (utf8 "static") ts with
    | none => rfl
    | some found => exact congrArg some (skipWord_map_move f _ found.2)

theorem skipValue?_map_move (ts : List Token) :
    skipValue? (ts.map (Token.move f)) = (skipValue? ts).map (List.map (Token.move f)) := by
  unfold skipValue?
  rw [accept?_map_move]
  cases accept? .equal ts with
  | none => rfl
  | some found =>
    refine bind_natural (splitUntil?_map_move f (fun _ => rfl) _ _) fun parts => ?_
    exact bind_natural (guard_not_isEmpty_map_move f _) fun _ => rfl

theorem bindingParts?_map_move (ts : List Token) :
    bindingParts? (ts.map (Token.move f)) =
      (bindingParts? ts).map (Prod.map id (List.map (Token.move f))) := by
  unfold bindingParts?
  refine bind_natural (skipItemHead?_map_move f ts) fun ts => ?_
  refine bind_natural (skipBindingKeyword?_map_move f _) fun ts => ?_
  refine bind_natural (accept?_map_move f _ _) fun name => ?_
  refine bind_natural (accept?_map_move f _ _) fun colon => ?_
  refine bind_natural (splitUntil?_map_move f (fun _ => rfl) _ _) fun parts => ?_
  refine bind_natural (guard_not_isEmpty_map_move f _) fun _ => ?_
  refine bind_natural (skipValue?_map_move f _) fun ts => ?_
  refine bind_natural (accept?_map_move f _ _) fun semicolon => ?_
  exact bind_natural (guard_isEmpty_map_move f _) fun _ => rfl

theorem binding?_map_move (ts : List Token) :
    binding? (ts.map (Token.move f)) =
      (binding? ts).map (mapBoth (ClassifyError.move f) (move f)) := by
  unfold binding?
  rw [bindingParts?_map_move]
  match bindingParts? ts with
  | none => rfl
  | some (name, []) => rfl
  | some (name, first :: more) =>
    simp only [Option.map_some, Prod.map, List.map_cons]
    rw [← List.map_cons, pointerSite?_map_move]
    cases pointerSite? (first :: more) <;> rfl

theorem foreignBlock?_map_move (ts : List Token) :
    foreignBlock? (ts.map (Token.move f)) = (foreignBlock? ts).map (move f) := by
  unfold foreignBlock?
  refine bind_natural (skipAttributes?_map_move f ts) fun ts => ?_
  simp only [skipWord_map_move, MarkerSite.read_map_move]
  generalize MarkerSite.read _ = marker
  refine bind_natural rfl fun site => ?_
  refine bind_natural (guard_startsWithKind_map_move f _ _) fun _ => ?_
  refine bind_natural (skipGroup?_map_move f _) fun rest => ?_
  exact bind_natural (guard_isEmpty_map_move f _) fun _ => rfl

/-! ## Readers that look at positions -/

/-- The part of a text between two positions moves along with the text. -/
theorem slice_rebase (o o' : Cursor) (source : Text) (origin first last : Cursor) (size : Nat) :
    slice source (o.rebase o' origin) (o.rebase o' first).offset
        ((o.rebase o' last).offset + size) =
      slice source origin first.offset (last.offset + size) := by
  have hfirst := Cursor.offset_rebase_sub o o' first origin
  have hlast := Cursor.offset_rebase_sub o o' last first
  rw [slice, slice, hfirst, add_sub_right_comm, hlast, ← add_sub_right_comm]

theorem readPointerType_rebase {o c : Cursor} (o' : Cursor) (h : o.line ≤ c.line)
    (name source : Text) :
    readPointerType name source (o.rebase o' c) =
      mapBoth (ClassifyError.move (o.rebase o')) (PointerType.move (o.rebase o'))
        (readPointerType name source c) := by
  unfold readPointerType
  rw [tokenize_rebase o' h]
  cases tokenize source c with
  | error e => rfl
  | ok ts =>
    simp only [mapBoth, significant_map_move, pointerSite?_map_move]
    cases pointerSite? (significant ts) <;> rfl

theorem typeAlias?_rebase {o : Cursor} (o' : Cursor) (source : Text) (origin : Cursor)
    {ts : List Token} (hlines : ∀ t ∈ ts, o.line ≤ t.location.line) :
    typeAlias? source (o.rebase o' origin) (ts.map (Token.move (o.rebase o'))) =
      (typeAlias? source origin ts).map
        (mapBoth (ClassifyError.move (o.rebase o')) (move (o.rebase o'))) := by
  unfold typeAlias?
  rw [aliasParts?_map_move]
  match hparts : aliasParts? ts with
  | none => rfl
  | some (name, []) => rfl
  | some (name, first :: more) =>
    -- The aliased type begins with one of the tokens.
    obtain ⟨lead, tail, rfl, -⟩ := frames_aliasParts? hparts
    have hline := hlines first (by simp)
    have hlast : ((more.map (Token.move (o.rebase o'))).getLast?.getD
        (first.move (o.rebase o'))) = (more.getLast?.getD first).move (o.rebase o') := by
      rw [List.getLast?_map]
      cases more.getLast? <;> rfl
    simp only [Option.map_some, Prod.map, id_eq, List.map_cons, hlast, Token.endOffset,
      Token.location_move, Token.content_move, slice_rebase, readPointerType_rebase o' hline]
    cases readPointerType _ _ first.location <;> rfl

theorem read?_rebase {o : Cursor} (o' : Cursor) (source : Text) (origin : Cursor)
    {ts : List Token} (hlines : ∀ t ∈ ts, o.line ≤ t.location.line) :
    read? source (o.rebase o' origin) (ts.map (Token.move (o.rebase o'))) =
      (read? source origin ts).map
        (mapBoth (ClassifyError.move (o.rebase o')) (move (o.rebase o'))) := by
  simp only [read?, function?_map_move, pointerType?_map_move, typeAlias?_rebase o' _ _ hlines,
    binding?_map_move, foreignBlock?_map_move]
  -- The readers answer in the same order at both places.
  cases function? ts with
  | some _ => rfl
  | none =>
  cases pointerType? ts with
  | some _ => rfl
  | none =>
  cases typeAlias? source origin ts with
  | some _ => rfl
  | none =>
  cases binding? ts with
  | some _ => rfl
  | none => cases foreignBlock? ts <;> rfl

end Shape

namespace Declaration

/-- A declaration with its positions changed. -/
def move (f : Cursor → Cursor) (d : Declaration) : Declaration :=
  ⟨d.source, f d.origin, d.shape.move f⟩

section Move

variable (f : Cursor → Cursor) (d : Declaration)

@[simp]
theorem source_move : (d.move f).source = d.source := rfl

@[simp]
theorem kind_move : (d.move f).kind = d.kind := d.shape.kind_move f

@[simp]
theorem name_move : (d.move f).name = d.name := d.shape.name_move f

@[simp]
theorem marker_move : (d.move f).marker = d.marker := by
  simp [marker, move]

@[simp]
theorem markerRequired_move : (d.move f).markerRequired = d.markerRequired := by
  simp [markerRequired]

end Move

variable {o : Cursor} (o' : Cursor)

theorem ofTokens_rebase (source : Text) (origin : Cursor) {ts : List Token}
    (hlines : ∀ t ∈ ts, o.line ≤ t.location.line) :
    ofTokens source (o.rebase o' origin) (ts.map (Token.move (o.rebase o'))) =
      mapBoth (ClassifyError.move (o.rebase o')) (move (o.rebase o'))
        (ofTokens source origin ts) := by
  have hsignificant : ∀ t ∈ significant ts, o.line ≤ t.location.line :=
    fun t ht => hlines t (List.mem_of_mem_filter ht)
  unfold ofTokens
  rw [significant_map_move, Shape.read?_rebase o' _ _ hsignificant]
  match Shape.read? source origin (significant ts) with
  | none => rfl
  | some (.ok shape) => rfl
  | some (.error e) => rfl

/-- A text is read as the same declaration, or refused in the same way, wherever it begins. -/
theorem classify_rebase {c : Cursor} (h : o.line ≤ c.line) (source : Text) :
    classify source (o.rebase o' c) =
      mapBoth (ClassifyError.move (o.rebase o')) (move (o.rebase o')) (classify source c) := by
  unfold classify
  rw [tokenize_rebase o' h]
  cases htokens : tokenize source c with
  | error e => rfl
  | ok ts =>
    exact ofTokens_rebase o' source c fun t ht => h.trans (line_le_of_tokenize htokens t ht)

end Declaration

/-! ## Changes of a declaration -/

/-- A failure to change a marker with its position changed. -/
def EditError.move (f : Cursor → Cursor) : EditError → EditError
  | emptyName origin => emptyName (f origin)
  | unreadable e => unreadable (e.move f)
  | kindChanged before after source => kindChanged before after source

/-- Edits that replace the same part of a text give the same text. -/
theorem Edit.apply_congr {e e' : Edit} {origin origin' : Cursor} (source : Text)
    (hfirst : e'.first - origin'.offset = e.first - origin.offset)
    (hlast : e'.last - origin'.offset = e.last - origin.offset) (htext : e'.text = e.text) :
    e'.apply source origin' = e.apply source origin := by
  rw [Edit.apply, Edit.apply, hfirst, hlast, htext]

/-- The change of a marker replaces the same part of the text at both places. -/
theorem MarkerSite.apply_edit_rebase (o o' : Cursor) (site : MarkerSite) (abi source : Text)
    (origin : Cursor) :
    ((site.move (o.rebase o')).edit abi).apply source (o.rebase o' origin) =
      (site.edit abi).apply source origin := by
  have hoffset (c : Cursor) : (o.rebase o' c).offset - (o.rebase o' origin).offset =
      c.offset - origin.offset := Cursor.offset_rebase_sub o o' c origin
  cases site with
  | named keyword literal =>
    have := hoffset literal.location
    refine Edit.apply_congr source this ?_ rfl
    simp only [move, edit, Token.endOffset, Token.location_move, Token.content_move]
    omega
  | bare keyword =>
    have := hoffset keyword.location
    refine Edit.apply_congr source ?_ ?_ rfl <;>
    · simp only [move, edit, Token.endOffset, Token.location_move, Token.content_move]
      omega
  | absent fn => exact Edit.apply_congr source (hoffset fn.location) (hoffset fn.location) rfl

namespace Declaration

variable {o : Cursor} (o' : Cursor)

/-- Edits that give the same text give the same declaration, at either place. -/
theorem splice_rebase {d : Declaration} {e e' : Edit} (h : o.line ≤ d.origin.line)
    (happly : e'.apply d.source (o.rebase o' d.origin) = e.apply d.source d.origin) :
    (d.move (o.rebase o')).splice e' =
      mapBoth (EditError.move (o.rebase o')) (move (o.rebase o')) (d.splice e) := by
  simp only [splice, move, happly, classify_rebase o' h]
  cases classify (e.apply d.source d.origin) d.origin with
  | error e => rfl
  | ok d' =>
    have hkind : kind ⟨d.source, o.rebase o' d.origin, d.shape.move (o.rebase o')⟩ = d.kind :=
      kind_move _ d
    simp only [mapBoth, hkind, kind_move]
    split <;> rfl

/-- A declaration stands on no line before a position, and neither does its aliased type. -/
def Behind (o : Cursor) (d : Declaration) : Prop :=
  o.line ≤ d.origin.line ∧
    ∀ name aliased, d.shape = .typeAlias name aliased → o.line ≤ aliased.origin.line

/-- What a text is read as stands behind its beginning. -/
theorem behind_of_classify {source : Text} {c : Cursor} {d : Declaration}
    (h : o.line ≤ c.line) (hd : classify source c = .ok d) : d.Behind o := by
  cases htokens : tokenize source c with
  | error e => simp [classify, htokens] at hd
  | ok ts =>
    obtain ⟨-, horigin⟩ := of_classify hd
    refine ⟨horigin ▸ h, fun name aliased hshape => ?_⟩
    obtain ⟨before, first, middle, after, rfl, hfirst, -⟩ :=
      (outline?_of_classify htokens hd).2 name aliased hshape
    rw [hfirst]
    exact h.trans (line_le_of_tokenize htokens first (by simp))

/-- A declaration gets a convention in the same way at both places. -/
theorem setAbi_rebase {d : Declaration} (h : d.Behind o) (abi : Text) :
    (d.move (o.rebase o')).setAbi abi =
      mapBoth (EditError.move (o.rebase o')) (move (o.rebase o')) (d.setAbi abi) := by
  unfold setAbi
  by_cases habi : abi = []
  · rw [if_pos habi, if_pos habi]
    rfl
  rw [if_neg habi, if_neg habi]
  obtain ⟨source, origin, shape⟩ := d
  obtain ⟨horigin, halias⟩ := h
  have hsite (site : MarkerSite) := site.apply_edit_rebase o o' abi
  cases shape with
  | typeAlias name aliased =>
    -- The aliased type is changed first, at its own place, and then put back.
    have htype : (ofPointerType (aliased.move (o.rebase o'))).splice
          ((aliased.move (o.rebase o')).site.edit abi) =
        mapBoth (EditError.move (o.rebase o')) (move (o.rebase o'))
          ((ofPointerType aliased).splice (aliased.site.edit abi)) :=
      splice_rebase (d := ofPointerType aliased) o' (halias name aliased rfl)
        (hsite aliased.site aliased.source aliased.origin)
    simp only [move, Shape.move, htype]
    cases (ofPointerType aliased).splice (aliased.site.edit abi) with
    | error e => rfl
    | ok changed =>
      have hoffset := Cursor.offset_rebase_sub o o' aliased.origin origin
      refine splice_rebase (d := ⟨source, origin, .typeAlias name aliased⟩) o' horigin
        (Edit.apply_congr source hoffset ?_ rfl)
      simp only [PointerType.move]
      omega
  | function name site => exact splice_rebase o' horigin (hsite site source origin)
  | pointerType site => exact splice_rebase o' horigin (hsite site source origin)
  | binding name site => exact splice_rebase o' horigin (hsite site source origin)
  | foreignBlock site => exact splice_rebase o' horigin (hsite site source origin)

end Declaration

/-! ## Directives -/

/-- An entry of a table with its position changed. -/
def TableEntry.move (g : Cursor → Cursor) (e : TableEntry) : TableEntry :=
  { e with location := g e.location }

/-- A failure to choose a convention with its position changed. -/
def ResolveError.move (g : Cursor → Cursor) : ResolveError → ResolveError
  | missing location => missing (g location)
  | unknownShortcut name => unknownShortcut name
  | emptyTable => emptyTable

namespace Directive

/-- A directive with its positions changed. -/
def move (g : Cursor → Cursor) : Directive → Directive
  | direct abi location => direct abi (g location)
  | table entries => table (entries.map (TableEntry.move g))

@[simp]
theorem move_id (directive : Directive) : directive.move id = directive := by
  cases directive with
  | direct abi location => rfl
  | table entries => exact congrArg table (List.map_id entries)

theorem firstMatch_map_move (g : Cursor → Cursor) (target : Target) (entries : List TableEntry) :
    firstMatch target (entries.map (TableEntry.move g)) =
      mapBoth (ResolveError.move g) (Option.map (TableEntry.move g))
        (firstMatch target entries) := by
  induction entries with
  | nil => rfl
  | cons entry entries ih =>
    simp only [List.map_cons, firstMatch, TableEntry.move]
    cases target.matches? entry.shortcut with
    | none => rfl
    | some applies =>
      cases applies with
      | true => rfl
      | false => exact ih

/-- What a directive chooses does not depend on where it is written. -/
theorem resolve_move (g : Cursor → Cursor) (directive : Directive) (target : Target)
    (existing : Marker) :
    (directive.move g).resolve target existing =
      mapBoth (ResolveError.move g) id (directive.resolve target existing) := by
  cases directive with
  | direct abi location => rfl
  | table entries =>
    simp only [move, resolve, firstMatch_map_move]
    cases firstMatch target entries with
    | error e => rfl
    | ok entry? =>
      cases entry? with
      | some entry => rfl
      | none => cases existing.name? <;> cases entries <;> rfl

end Directive

/-- A failure to apply a directive, with the positions of the directive and of the declaration
changed. -/
def ApplyError.move (g f : Cursor → Cursor) : ApplyError → ApplyError
  | resolve e => resolve (e.move g)
  | edit e => edit (e.move f)

/-- A directive is applied in the same way wherever it and the declaration stand. -/
theorem Declaration.apply_rebase {o : Cursor} (o' : Cursor) {d : Declaration} (h : d.Behind o)
    (g : Cursor → Cursor) (directive : Directive) (target : Target) :
    (d.move (o.rebase o')).apply (directive.move g) target =
      mapBoth (ApplyError.move g (o.rebase o')) (Prod.map (move (o.rebase o')) id)
        (d.apply directive target) := by
  unfold apply
  rw [marker_move, Directive.resolve_move]
  cases directive.resolve target d.marker with
  | error e => rfl
  | ok r =>
    simp only [mapBoth, id_eq, setAbi_rebase o' h]
    split
    · cases d.setAbi r.abi <;> rfl
    · rfl

end CallConv
