import Mathlib
import CallConv.Proofs.Declaration.Handle
import CallConv.Proofs.Declaration.Moved

/-!
# Changes of a declaration in a row

A declaration can be given conventions and directives one after the other, each in place, and a step
that fails leaves it as it was, although the copy of an aliased type may be changed by then. Since
each single step commutes with moving the declaration, a whole row of them does, and what can be
seen of the declaration on the way depends on its text alone. The position of the text in its file
shows up in one place: a failure to read the text is reported at the end of the same part of the
text, counted from where the text begins.
-/

namespace CallConv

/-- What can be seen of a declaration without its positions. -/
structure View where
  /-- The kind of the declaration. -/
  kind : Kind
  /-- Its name. -/
  name : Text
  /-- Its text. -/
  source : Text
  /-- Its marker. -/
  marker : Marker
  /-- Whether it cannot exist without the marker. -/
  markerRequired : Bool
deriving DecidableEq, Repr

/-- A failure to apply a directive, without the positions in it. -/
def ApplyError.unplaced (e : ApplyError) : ApplyError :=
  e.move (fun _ => Cursor.start) (fun _ => Cursor.start)

namespace ClassifyError

/-- A failure to read a declaration, without the position in it. -/
def unplaced (e : ClassifyError) : ClassifyError := e.move fun _ => Cursor.start

/-- Where a text is refused. -/
def location : ClassifyError → Cursor
  | lex e => e.location
  | unsupportedItem origin => origin
  | unsupportedAlias location _ => location
  | unsupportedBinding location _ => location

theorem location_move (f : Cursor → Cursor) (e : ClassifyError) :
    (e.move f).location = f e.location := by
  cases e <;> rfl

theorem unplaced_move (f : Cursor → Cursor) (e : ClassifyError) :
    (e.move f).unplaced = e.unplaced := by
  cases e <;> rfl

end ClassifyError

theorem ApplyError.unplaced_move (g f : Cursor → Cursor) (e : ApplyError) :
    (e.move g f).unplaced = e.unplaced := by
  rcases e with (_ | _ | _) | (_ | e | _)
  case edit.unreadable => exact congrArg (fun e => edit (.unreadable e)) (e.unplaced_move f)
  all_goals rfl

namespace Declaration

/-- What can be seen of a declaration. -/
def view (d : Declaration) : View := ⟨d.kind, d.name, d.source, d.marker, d.markerRequired⟩

/-- What a step answers: what the directive chose, or why the step fails. -/
def answer (d : Declaration) (step : Step) : Except ApplyError (Option Resolution) :=
  match d.perform step with
  | .ok r _ => .ok r
  | .error e _ => .error e.unplaced

/-- The declaration after a row of steps. -/
def run (d : Declaration) (steps : List Step) : Declaration := steps.foldl after d

theorem view_move (f : Cursor → Cursor) (d : Declaration) : (d.move f).view = d.view := by
  simp only [view, kind_move, name_move, marker_move, markerRequired_move]
  rfl

/-! ## One step -/

/-- The new declaration of a step, and what the directive chose if the step applies one. -/
def attempt (d : Declaration) : Step → Except ApplyError (Declaration × Option Resolution)
  | .setAbi abi => mapBoth .edit (·, none) (d.setAbi abi)
  | .apply directive target => mapBoth id (Prod.map id some) (d.apply directive target)

/-- A step does in place what it does to a new declaration. -/
theorem performs_program (step : Step) (h : Handle) :
    Handle.Performs step.program h (h.owner.attempt step) := by
  cases step with
  | setAbi abi =>
    have hattempt : h.owner.attempt (.setAbi abi) = mapBoth ApplyError.edit
        (Prod.map id fun _ => none) ((h.owner.setAbi abi).map (·, ())) := by
      simp only [attempt]
      cases h.owner.setAbi abi <;> rfl
    rw [hattempt]
    refine (Handle.performs_setAbi abi h).mapBoth _ _ ?_
    simp only [Step.program, EStateM.run_bind, EStateM.run_adaptExcept]
    cases (Handle.setAbi abi).run h <;> rfl
  | apply directive target =>
    refine (Handle.performs_apply directive target h).mapBoth _ _ ?_
    simp only [Step.program, EStateM.run_bind]
    cases (Handle.apply directive target).run h <;> rfl

/-- A step leaves the new declaration, and the old one where it fails. -/
theorem exists_perform_eq (d : Declaration) (step : Step) :
    ∃ copy?, d.perform step =
      match d.attempt step with
      | .ok (d', r) => .ok r ⟨d', copy?⟩
      | .error e => .error e ⟨d, copy?⟩ := by
  have hperforms := performs_program step ⟨d, none⟩
  cases hstep : d.attempt step with
  | error e =>
    simp only [hstep] at hperforms
    exact hperforms
  | ok result =>
    simp only [hstep] at hperforms
    exact hperforms

/-- What a step answers is what it chooses for the new declaration, or why there is none. -/
theorem answer_eq (d : Declaration) (step : Step) :
    d.answer step = mapBoth ApplyError.unplaced Prod.snd (d.attempt step) := by
  obtain ⟨copy?, hperform⟩ := exists_perform_eq d step
  rw [answer, hperform]
  cases d.attempt step <;> rfl

/-- What a step leaves of a declaration. -/
theorem after_eq (d : Declaration) (step : Step) :
    d.after step =
      match d.attempt step with
      | .ok (d', _) => d'
      | .error _ => d := by
  obtain ⟨copy?, hperform⟩ := exists_perform_eq d step
  rw [after, hperform]
  cases d.attempt step <;> rfl

/-- A step that succeeds sets a convention, or leaves the declaration as it is. -/
theorem attempt_cases {d d' : Declaration} {step : Step} {r : Option Resolution}
    (h : d.attempt step = .ok (d', r)) : d' = d ∨ ∃ abi, d.setAbi abi = .ok d' := by
  cases step with
  | setAbi abi =>
    unfold attempt at h
    cases habi : d.setAbi abi with
    | error e => simp [habi, mapBoth] at h
    | ok changed =>
      obtain ⟨rfl, -⟩ : changed = d' ∧ none = r := by simpa [habi, mapBoth] using h
      exact .inr ⟨abi, habi⟩
  | apply directive target =>
    unfold attempt at h
    cases happly : d.apply directive target with
    | error e => simp [happly, mapBoth] at h
    | ok result =>
      obtain ⟨changed, chosen⟩ := result
      obtain ⟨rfl, -⟩ : changed = d' ∧ some chosen = r := by simpa [happly, mapBoth] using h
      obtain ⟨-, ⟨-, rfl⟩ | ⟨-, hset⟩⟩ := apply_cases happly
      · exact .inl rfl
      · exact .inr ⟨chosen.abi, hset⟩

/-- A declaration that is what its text is read as stays one, at the same place. -/
theorem classify_after {d : Declaration} (h : classify d.source d.origin = .ok d) (step : Step) :
    (d.after step).origin = d.origin ∧
      classify (d.after step).source d.origin = .ok (d.after step) := by
  rw [after_eq]
  split
  · next d' r hstep =>
    obtain rfl | ⟨abi, hset⟩ := attempt_cases hstep
    · exact ⟨rfl, h⟩
    · cases htokens : tokenize d.source d.origin with
      | error e => simp [classify, htokens] at h
      | ok ts => exact (source_of_setAbi htokens h hset).2
  · exact ⟨rfl, h⟩

section Moved

variable {o : Cursor} (o' : Cursor) {d : Declaration}

/-- A step does the same to a declaration wherever it stands. -/
theorem attempt_rebase (h : d.Behind o) (step : Step) :
    (d.move (o.rebase o')).attempt step =
      mapBoth (ApplyError.move id (o.rebase o')) (Prod.map (move (o.rebase o')) id)
        (d.attempt step) := by
  cases step with
  | setAbi abi =>
    simp only [attempt, setAbi_rebase o' h]
    cases d.setAbi abi <;> rfl
  | apply directive target =>
    have happly := apply_rebase o' h id directive target
    rw [Directive.move_id] at happly
    simp only [attempt, happly]
    cases d.apply directive target <;> rfl

theorem answer_rebase (h : d.Behind o) (step : Step) :
    (d.move (o.rebase o')).answer step = d.answer step := by
  rw [answer_eq, answer_eq, attempt_rebase o' h]
  cases d.attempt step with
  | ok result => rfl
  | error e => exact congrArg Except.error (e.unplaced_move id (o.rebase o'))

theorem after_rebase (h : d.Behind o) (step : Step) :
    (d.move (o.rebase o')).after step = (d.after step).move (o.rebase o') := by
  rw [after_eq, after_eq, attempt_rebase o' h]
  cases d.attempt step <;> rfl

/-! ## A row of steps -/

/-- A row of steps does the same to a declaration wherever it stands. -/
theorem run_rebase (hline : o.line ≤ d.origin.line) (h : classify d.source d.origin = .ok d)
    (steps : List Step) :
    (d.run steps).Behind o ∧
      (d.move (o.rebase o')).run steps = (d.run steps).move (o.rebase o') := by
  -- Each step leaves a declaration at the same place that is what its text is read as.
  induction steps generalizing d with
  | nil => exact ⟨behind_of_classify hline h, rfl⟩
  | cons step steps ih =>
    obtain ⟨horigin, hafter⟩ := classify_after h step
    obtain ⟨hbehind, hrun⟩ := ih (horigin ▸ hline) (by rw [horigin]; exact hafter)
    refine ⟨hbehind, ?_⟩
    simp only [run, List.foldl_cons] at hrun ⊢
    rw [after_rebase o' (behind_of_classify hline h), hrun]

end Moved

/-- A step that fails leaves the declaration as it was. -/
theorem run_concat_of_error {d : Declaration} {steps : List Step} {step : Step} {e : ApplyError}
    (h : (d.run steps).answer step = .error e) : d.run (steps ++ [step]) = d.run steps := by
  rw [answer_eq] at h
  simp only [run, List.foldl_append, List.foldl_cons, List.foldl_nil] at h ⊢
  rw [after_eq]
  cases hstep : (steps.foldl after d).attempt step with
  | ok result => simp [hstep, mapBoth] at h
  | error e' => rfl

/-! ## Where a text is refused -/

/-- An alias of a type that is no function pointer type is refused where the type begins. -/
theorem location_of_typeAlias? {source : Text} {origin : Cursor} {ts : List Token}
    {e : ClassifyError} (htokens : tokenize source origin = .ok ts)
    (h : Shape.typeAlias? source origin (significant ts) = some (.error e)) :
    ∃ t ∈ significant ts, e.location = t.location := by
  cases halias : Shape.aliasParts? (significant ts) with
  | none => simp [Shape.typeAlias?, halias] at h
  | some parts =>
    obtain ⟨name, inner⟩ := parts
    obtain ⟨first, more, rfl⟩ := List.exists_cons_of_ne_nil (Shape.ne_nil_of_aliasParts? halias)
    obtain ⟨text, location, hread, -⟩ := Shape.typeAlias?_spec htokens halias
    obtain ⟨lead, tail, hsplit, -⟩ := Shape.frames_aliasParts? halias
    refine ⟨first, by simp [hsplit], ?_⟩
    -- The type falls into tokens, so that the reader has only one failure left.
    have hlex : ∀ cause, e ≠ .lex cause := by
      rintro cause rfl
      rw [hread, Option.some.injEq] at h
      split at h <;> simp at h
    simp only [Shape.typeAlias?, halias, Shape.readPointerType, Option.some.injEq] at h
    split at h
    · next cause hcause => exact absurd (Except.error.inj h).symm (hlex cause)
    · split at h
      · simp [Except.map] at h
      · obtain rfl := Except.error.inj h
        rfl

/-- A constant or static of another type is refused where the type begins. -/
theorem location_of_binding? {ts : List Token} {e : ClassifyError}
    (h : Shape.binding? ts = some (.error e)) : ∃ t ∈ ts, e.location = t.location := by
  unfold Shape.binding? at h
  split at h
  · next name first more hparts =>
    obtain ⟨lead, tail, rfl, -⟩ := Shape.frames_bindingParts? hparts
    refine ⟨first, by simp, ?_⟩
    split at h
    · simp at h
    · obtain rfl := Except.error.inj (Option.some.inj h)
      rfl
  · simp at h

/-- A refused type is reported at one of the tokens. -/
theorem location_of_read? {source : Text} {origin : Cursor} {ts : List Token}
    {e : ClassifyError} (htokens : tokenize source origin = .ok ts)
    (h : Shape.read? source origin (significant ts) = some (.error e)) :
    ∃ t ∈ significant ts, e.location = t.location := by
  -- The first reader that answers decides, and three of them refuse nothing.
  cases hfunction : Shape.function? (significant ts) with
  | some shape => simp [Shape.read?, hfunction] at h
  | none =>
  cases hpointer : Shape.pointerType? (significant ts) with
  | some shape => simp [Shape.read?, hfunction, hpointer] at h
  | none =>
  cases halias : Shape.typeAlias? source origin (significant ts) with
  | some result =>
    obtain rfl : result = .error e := by simpa [Shape.read?, hfunction, hpointer, halias] using h
    exact location_of_typeAlias? htokens halias
  | none =>
  cases hbinding : Shape.binding? (significant ts) with
  | some result =>
    obtain rfl : result = .error e := by
      simpa [Shape.read?, hfunction, hpointer, halias, hbinding] using h
    exact location_of_binding? hbinding
  | none => simp [Shape.read?, hfunction, hpointer, halias, hbinding] at h

/-- A text is refused behind a part of it. -/
theorem exists_prefix_of_classify {source : Text} {origin : Cursor} {e : ClassifyError}
    (h : classify source origin = .error e) :
    ∃ p, p <+: source ∧ e.location = origin.advance p := by
  unfold classify at h
  split at h
  · next cause htokens =>
    obtain rfl := Except.error.inj h
    exact exists_prefix_of_tokenize htokens
  · next ts htokens =>
    unfold ofTokens at h
    split at h
    · next result hread =>
      cases result with
      | ok shape => simp [Except.map] at h
      | error cause =>
        obtain rfl := Except.error.inj h
        obtain ⟨t, ht, hlocation⟩ := location_of_read? htokens hread
        rw [hlocation]
        exact exists_prefix_of_mem htokens (List.mem_of_mem_filter ht)
    · obtain rfl := Except.error.inj h
      exact ⟨[], List.nil_prefix, (origin.advance_nil).symm⟩

/-- What becomes of a declaration depends on its text and not on where the text begins. Read at two
places, a text is a declaration at both or at none. In the first case every row of steps succeeds
and fails at the same steps, in the same way and with the same choices of convention, after each
step the two declarations have the same kind, name, text and marker, and a step that fails changes
nothing. In the second case both fail in the same way, behind the same part of the text. -/
theorem classify_anywhere (source : Text) (o o' : Cursor) :
    match classify source o, classify source o' with
    | .ok d, .ok d' => ∀ steps : List Step,
        (d.run steps).view = (d'.run steps).view ∧
          ∀ step : Step, (d.run steps).answer step = (d'.run steps).answer step ∧
            ∀ e, (d.run steps).answer step = .error e →
              d.run (steps ++ [step]) = d.run steps ∧ d'.run (steps ++ [step]) = d'.run steps
    | .error e, .error e' => e.unplaced = e'.unplaced ∧
        ∃ p, p <+: source ∧ e.location = o.advance p ∧ e'.location = o'.advance p
    | _, _ => False := by
  have hmoved := classify_rebase o' (le_refl o.line) source
  rw [Cursor.rebase_self] at hmoved
  rw [hmoved]
  cases h : classify source o with
  | error e =>
    obtain ⟨p, hp, hlocation⟩ := exists_prefix_of_classify h
    refine ⟨(e.unplaced_move _).symm, p, hp, hlocation, ?_⟩
    rw [e.location_move, hlocation, Cursor.rebase_advance o o' (le_refl _), Cursor.rebase_self]
  | ok d =>
    intro steps
    obtain ⟨rfl, rfl⟩ := of_classify h
    obtain ⟨hbehind, hrun⟩ := run_rebase o' (le_refl _) h steps
    rw [hrun]
    refine ⟨(view_move _ _).symm,
      fun step => ⟨(answer_rebase o' hbehind step).symm, fun e he => ?_⟩⟩
    have he' := answer_rebase o' hbehind step
    rw [he, ← hrun] at he'
    refine ⟨run_concat_of_error he, ?_⟩
    rw [run_concat_of_error he', hrun]

/-- An alias behind an attribute with an apostrophe before a backslash. -/
def strayAlias : Declaration where
  source := utf8 "#[x('\\)] type T = fn();"
  origin := Cursor.start
  shape := .typeAlias (utf8 "T") ⟨utf8 "fn()", ⟨1, 19, 18⟩,
    .absent ⟨.identifier, ⟨1, 19, 18⟩, utf8 "fn"⟩⟩

/-- A convention that holds an apostrophe is taken by the type of the alias and not by the alias, in
which the apostrophe ends a character literal. The copy of the type is changed by then. The alias is
not, and neither is the one that its text is read as elsewhere. -/
theorem classify_anywhere_stray :
    (∃ e h, strayAlias.perform (.setAbi (utf8 "'")) = .error e h ∧
      h.detached?.map source = some (utf8 "extern \"'\" fn()") ∧ h.owner = strayAlias) ∧
    ∃ d, classify strayAlias.source ⟨3, 5, 40⟩ = .ok d ∧
      d.answer (.setAbi (utf8 "'")) = strayAlias.answer (.setAbi (utf8 "'")) ∧
      d.run [.setAbi (utf8 "'")] = d := by
  have hclassify : classify strayAlias.source Cursor.start = .ok strayAlias := by decide +kernel
  have hcopy : (match strayAlias.perform (.setAbi (utf8 "'")) with
      | .ok .. => none
      | .error _ h => h.detached?.map source) = some (utf8 "extern \"'\" fn()") := by
    decide +kernel
  cases hperform : strayAlias.perform (.setAbi (utf8 "'")) with
  | ok r h => simp [hperform] at hcopy
  | error e h =>
    simp only [hperform] at hcopy
    have hanswer : strayAlias.answer (.setAbi (utf8 "'")) = .error e.unplaced := by
      rw [answer, hperform]
    have hmoved := classify_anywhere strayAlias.source Cursor.start ⟨3, 5, 40⟩
    rw [hclassify] at hmoved
    cases hd : classify strayAlias.source ⟨3, 5, 40⟩ with
    | error e' => simp [hd] at hmoved
    | ok d =>
      simp only [hd] at hmoved
      obtain ⟨hsame, hkept⟩ := (hmoved []).2 (.setAbi (utf8 "'"))
      obtain ⟨hrun, hrun'⟩ := hkept _ hanswer
      have howner : h.owner = strayAlias := by simpa [run, after, hperform] using hrun
      exact ⟨⟨e, h, rfl, hcopy, howner⟩, d, rfl, hsame.symm, hrun'⟩

end Declaration

end CallConv
