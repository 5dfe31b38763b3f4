import CallConv.Declaration.Classify
import CallConv.Text.Quoted

/-!
# Changing a marker

Giving a declaration a convention replaces the literal of its marker, or adds one to it, or puts a
marker in front of `fn`. The new text is read as a declaration again, which keeps all positions
true. An alias is changed in the aliased type first, and the changed type is put into the alias.
-/

namespace CallConv

/-- Why a marker cannot be changed. -/
inductive EditError where
  /-- A convention's name cannot be empty. -/
  | emptyName (origin : Cursor)
  /-- The changed text is no declaration. -/
  | unreadable (e : ClassifyError)
  /-- The changed text is a declaration of another kind. -/
  | kindChanged (before after : Kind) (source : Text)
deriving DecidableEq, Repr

/-- The message of a failure. -/
def EditError.message : EditError → Text
  | emptyName origin => origin.text ++ utf8 ": cannot set an empty ABI name"
  | unreadable e => e.message
  | kindChanged before after source =>
    utf8 "rewriting the ABI marker changed " ++ before.name ++ utf8 " into " ++ after.name ++
      utf8 ": " ++ Text.quoted source

/-- Whether a failure breaks off the work instead of being reported: a change of a marker is meant
to keep the kind. -/
def EditError.isFatal : EditError → Bool
  | emptyName _ | unreadable _ => false
  | kindChanged .. => true

/-- A replacement of the text between two offsets of the enclosing file. -/
structure Edit where
  /-- The offset of the first replaced byte. -/
  first : Int
  /-- The offset after the last replaced byte. -/
  last : Int
  /-- The text put in place. -/
  text : Text
deriving DecidableEq, Repr

/-- The text after an edit, when it begins at `origin` in the enclosing file. -/
def Edit.apply (e : Edit) (source : Text) (origin : Cursor) : Text :=
  source.take (e.first - origin.offset).toNat ++ e.text ++
    source.drop (e.last - origin.offset).toNat

/-- The edit that makes a marker name a convention. -/
def MarkerSite.edit (site : MarkerSite) (abi : Text) : Edit :=
  match site with
  | named _ literal => ⟨literal.location.offset, literal.endOffset, Abi.quoted abi⟩
  | bare keyword => ⟨keyword.endOffset, keyword.endOffset, utf8 " " ++ Abi.quoted abi⟩
  | absent fn =>
    ⟨fn.location.offset, fn.location.offset, utf8 "extern " ++ Abi.quoted abi ++ utf8 " "⟩

namespace Declaration

/-- The declaration after an edit, which has to be of the same kind. -/
def splice (d : Declaration) (e : Edit) : Except EditError Declaration :=
  let source := e.apply d.source d.origin
  match classify source d.origin with
  | .error e => .error (.unreadable e)
  | .ok d' => if d'.kind = d.kind then .ok d' else .error (.kindChanged d.kind d'.kind source)

/-- The aliased type as a declaration of its own. -/
def ofPointerType (p : PointerType) : Declaration := ⟨p.source, p.origin, .pointerType p.site⟩

/-- The declaration with the given convention. -/
def setAbi (d : Declaration) (abi : Text) : Except EditError Declaration :=
  if abi = [] then .error (.emptyName d.origin)
  else
    match d.shape with
    | .typeAlias _ aliased =>
      match (ofPointerType aliased).splice (aliased.site.edit abi) with
      | .error e => .error e
      | .ok changed =>
        d.splice ⟨aliased.origin.offset, aliased.origin.offset + aliased.source.length,
          changed.source⟩
    | shape => d.splice (shape.site.edit abi)

end Declaration

end CallConv
