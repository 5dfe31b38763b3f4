import CallConv.Declaration.Apply

/-!
# Changing a declaration in place

A declaration that is kept is changed through a handle to its marker. The marker of an alias is
changed in a copy of the aliased type, which is written back into the alias afterwards. Each program
goes as far as it can, and what it has changed by then stays changed when it fails.
-/

namespace CallConv

namespace Declaration

/-- Puts the declaration after an edit in the place of the one before it. -/
def replace (e : Edit) : EStateM EditError Declaration Unit := do
  let d ← get
  match d.splice e with
  | .error e => throw e
  | .ok d' => set d'

/-- Changes the marker of a declaration that holds it. -/
def writeMarker (abi : Text) : EStateM EditError Declaration Unit := do
  let d ← get
  replace (d.shape.site.edit abi)

end Declaration

/-- A declaration with the copy of a part of it in which its marker is changed. -/
structure Handle where
  /-- The declaration. -/
  owner : Declaration
  /-- The copy of the type that an alias is one of. -/
  detached? : Option Declaration
deriving DecidableEq, Repr

namespace Handle

/-- A handle to the marker of a declaration. -/
def ofDeclaration (d : Declaration) : Handle :=
  match d.shape with
  | .typeAlias _ aliased => ⟨d, some (.ofPointerType aliased)⟩
  | _ => ⟨d, none⟩

/-- Works on the declaration. -/
def onOwner {ε α : Type} (x : EStateM ε Declaration α) : EStateM ε Handle α := fun h =>
  match x.run h.owner with
  | .ok a d => .ok a { h with owner := d }
  | .error e d => .error e { h with owner := d }

/-- Works on the declaration that holds the marker: the copy, if there is one. -/
def onHolder {ε α : Type} (x : EStateM ε Declaration α) : EStateM ε Handle α := fun h =>
  match h.detached? with
  | none => (onOwner x).run h
  | some copy =>
    match x.run copy with
    | .ok a d => .ok a { h with detached? := some d }
    | .error e d => .error e { h with detached? := some d }

/-- Writes the copy back into the declaration. -/
def commit : EStateM EditError Handle Unit := do
  let h ← get
  match h.owner.shape, h.detached? with
  | .typeAlias _ aliased, some copy =>
    onOwner (Declaration.replace ⟨aliased.origin.offset,
      aliased.origin.offset + aliased.source.length, copy.source⟩)
  | _, _ => pure ()

/-- Gives the declaration a convention. -/
def setAbi (abi : Text) : EStateM EditError Handle Unit := do
  let h ← get
  if abi = [] then throw (.emptyName h.owner.origin)
  set (ofDeclaration h.owner)
  onHolder (Declaration.writeMarker abi)
  commit

/-- Gives the declaration the convention that a directive chooses on a target, unless its marker
names that one already. -/
def apply (directive : Directive) (target : Target) : EStateM ApplyError Handle Resolution := do
  let h ← get
  match directive.resolve target h.owner.marker with
  | .error e => throw (.resolve e)
  | .ok r =>
    if r.changed then (setAbi r.abi).adaptExcept .edit
    return r

end Handle

/-- A change of a declaration. -/
inductive Step where
  /-- The declaration gets a convention. -/
  | setAbi (abi : Text)
  /-- A directive is applied on a target. -/
  | apply (directive : Directive) (target : Target)

/-- What a step does, and what the directive chose if the step applies one. -/
def Step.program : Step → EStateM ApplyError Handle (Option Resolution)
  | .setAbi abi => do
    (Handle.setAbi abi).adaptExcept .edit
    return none
  | .apply directive target => do
    let r ← Handle.apply directive target
    return some r

/-- Takes a step with a declaration. -/
def Declaration.perform (d : Declaration) (step : Step) :
    EStateM.Result ApplyError Handle (Option Resolution) :=
  step.program.run ⟨d, none⟩

/-- The declaration that a step leaves, also where it fails. -/
def Declaration.after (d : Declaration) (step : Step) : Declaration :=
  match d.perform step with
  | .ok _ h => h.owner
  | .error _ h => h.owner

end CallConv
