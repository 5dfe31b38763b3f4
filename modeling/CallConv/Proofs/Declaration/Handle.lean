import Mathlib
import CallConv.Declaration.Handle
import CallConv.Proofs.Token.Moved

/-!
# What a change in place leaves

Setting a convention and applying a directive are each written twice: as a function that gives a new
declaration, and as a program that changes the one at hand through a handle to its marker. The
program does what the function says (`Handle.performs_setAbi`, `Handle.performs_apply`), and where
it fails the declaration is the old one. The copy of an aliased type need not be: it may be changed
already when the alias turns out not to take it.
-/

namespace CallConv

namespace Declaration

/-- A declaration is replaced by the one after the edit, if there is one. -/
theorem run_replace (e : Edit) (d : Declaration) :
    (replace e).run d =
      match d.splice e with
      | .ok d' => .ok () d'
      | .error cause => .error cause d := by
  simp only [replace, EStateM.run_bind, EStateM.run_get]
  cases d.splice e <;> rfl

/-- A marker is changed where it stands, if it can be. -/
theorem run_writeMarker (abi : Text) (d : Declaration) :
    (writeMarker abi).run d =
      match d.splice (d.shape.site.edit abi) with
      | .ok d' => .ok () d'
      | .error cause => .error cause d :=
  run_replace (d.shape.site.edit abi) d

end Declaration

namespace Handle

variable {ε ε' α β : Type} {abi : Text}

/-- A program does in place what a result says: it leaves the new declaration, and where it fails
the old one, whatever has become of the copy. -/
def Performs (x : EStateM ε Handle α) (h : Handle) : Except ε (Declaration × α) → Prop
  | .ok (d, a) => ∃ copy?, x.run h = .ok a ⟨d, copy?⟩
  | .error e => ∃ copy?, x.run h = .error e ⟨h.owner, copy?⟩

/-- A program that does what another one does, but for what it answers, does what the result of the
other says, but for the answer. -/
theorem Performs.mapBoth (f : ε → ε') (g : α → β) {x : EStateM ε Handle α} {y : EStateM ε' Handle β}
    {h : Handle} {result : Except ε (Declaration × α)} (hperforms : Performs x h result)
    (hrun : y.run h =
      match x.run h with
      | .ok a h' => .ok (g a) h'
      | .error e h' => .error (f e) h') :
    Performs y h (mapBoth f (Prod.map id g) result) := by
  cases result with
  | error e =>
    obtain ⟨copy?, hx⟩ := hperforms
    exact ⟨copy?, by rw [hrun, hx]⟩
  | ok result =>
    obtain ⟨copy?, hx⟩ := hperforms
    refine ⟨copy?, ?_⟩
    rw [hrun, hx]
    rfl

/-- Work on the declaration leaves the copy. -/
theorem run_onOwner (x : EStateM ε Declaration α) (h : Handle) :
    (onOwner x).run h =
      match x.run h.owner with
      | .ok a d => .ok a ⟨d, h.detached?⟩
      | .error e d => .error e ⟨d, h.detached?⟩ := rfl

/-- Work on the copy leaves the declaration. -/
theorem run_onHolder (x : EStateM ε Declaration α) (d copy : Declaration) :
    (onHolder x).run ⟨d, some copy⟩ =
      match x.run copy with
      | .ok a copy' => .ok a ⟨d, some copy'⟩
      | .error e copy' => .error e ⟨d, some copy'⟩ := rfl

/-- Without a copy the declaration itself is worked on. -/
theorem run_onHolder_none (x : EStateM ε Declaration α) (d : Declaration) :
    (onHolder x).run ⟨d, none⟩ = (onOwner x).run ⟨d, none⟩ := rfl

/-- Without a copy there is nothing to write back. -/
theorem run_commit_none (d : Declaration) : commit.run ⟨d, none⟩ = .ok () ⟨d, none⟩ := by
  simp only [commit, EStateM.run_bind, EStateM.run_get]
  cases d.shape <;> rfl

/-- A convention that is not empty is set through a new handle: first in the declaration that holds
the marker, and then in the owner. -/
theorem run_setAbi_of_ne_nil (habi : abi ≠ []) (h : Handle) :
    (setAbi abi).run h =
      match (onHolder (Declaration.writeMarker abi)).run (ofDeclaration h.owner) with
      | .ok _ h' => commit.run h'
      | .error e h' => .error e h' := by
  simp only [setAbi, EStateM.run_bind, EStateM.run_get, if_neg habi, EStateM.run_set]
  cases (onHolder (Declaration.writeMarker abi)).run (ofDeclaration h.owner) <;> rfl

/-- A convention is set in place as it is in a new declaration. -/
theorem performs_setAbi (abi : Text) (h : Handle) :
    Performs (setAbi abi) h ((h.owner.setAbi abi).map (·, ())) := by
  by_cases habi : abi = []
  · subst habi
    exact ⟨h.detached?, rfl⟩
  obtain ⟨⟨source, origin, shape⟩, detached?⟩ := h
  rw [Declaration.setAbi, if_neg habi]
  unfold Performs
  rw [run_setAbi_of_ne_nil habi]
  cases shape with
  | typeAlias name aliased =>
    have hwrite := Declaration.run_writeMarker abi (.ofPointerType aliased)
    have hsite : (Declaration.ofPointerType aliased).shape.site = aliased.site := rfl
    rw [hsite] at hwrite
    simp only [ofDeclaration, run_onHolder, hwrite]
    cases (Declaration.ofPointerType aliased).splice (aliased.site.edit abi) with
    | error e => exact ⟨_, rfl⟩
    | ok copy =>
      -- The copy is written back.
      simp only [commit, EStateM.run_bind, EStateM.run_get, run_onOwner, Declaration.run_replace]
      cases Declaration.splice ⟨source, origin, .typeAlias name aliased⟩
        ⟨aliased.origin.offset, aliased.origin.offset + aliased.source.length, copy.source⟩ <;>
        exact ⟨_, rfl⟩
  | _ =>
    -- The marker is changed in the declaration itself.
    simp only [ofDeclaration, run_onHolder_none, run_onOwner, Declaration.run_writeMarker]
    generalize Declaration.splice _ _ = changed
    cases changed with
    | error e => exact ⟨_, rfl⟩
    | ok d => exact ⟨_, run_commit_none d⟩

/-- A directive is applied in place as it is to a new declaration. -/
theorem performs_apply (directive : Directive) (target : Target) (h : Handle) :
    Performs (apply directive target) h (h.owner.apply directive target) := by
  cases hresolve : directive.resolve target h.owner.marker with
  | error e =>
    rw [Declaration.apply, hresolve]
    refine ⟨h.detached?, ?_⟩
    simp only [apply, EStateM.run_bind, EStateM.run_get, hresolve]
    rfl
  | ok r =>
    cases hchanged : r.changed with
    | false =>
      simp only [Declaration.apply, hresolve, hchanged, Bool.false_eq_true, if_false]
      exact ⟨h.detached?, by simp [apply, hresolve, hchanged]⟩
    | true =>
      have happly : h.owner.apply directive target = mapBoth ApplyError.edit
          (Prod.map id fun _ => r) ((h.owner.setAbi r.abi).map (·, ())) := by
        simp only [Declaration.apply, hresolve, hchanged, if_true]
        cases h.owner.setAbi r.abi <;> rfl
      rw [happly]
      refine (performs_setAbi r.abi h).mapBoth _ _ ?_
      simp only [apply, EStateM.run_bind, EStateM.run_get, hresolve, hchanged, if_true,
        EStateM.run_adaptExcept]
      cases (setAbi r.abi).run h <;> rfl

end Handle
end CallConv
