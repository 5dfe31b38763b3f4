import CallConv.Declaration.Edit
import CallConv.Directive.Basic

/-!
# Applying a directive

A directive is resolved against the marker that a declaration has, and the declaration is changed
only if it does not name the chosen convention yet.
-/

namespace CallConv

/-- Why a directive cannot be applied. -/
inductive ApplyError where
  | resolve (e : ResolveError)
  | edit (e : EditError)
deriving DecidableEq, Repr

/-- The message of a failure; a failure that no read directive can cause may have none. -/
def ApplyError.message? : ApplyError → Option Text
  | resolve e => e.message?
  | edit e => some e.message

/-- Whether a failure breaks off the work instead of being reported. -/
def ApplyError.isFatal : ApplyError → Bool
  | resolve e => e.isFatal
  | edit e => e.isFatal

/-- The declaration with the convention that a directive chooses on a target, and the choice. -/
def Declaration.apply (d : Declaration) (directive : Directive) (target : Target) :
    Except ApplyError (Declaration × Resolution) :=
  match directive.resolve target d.marker with
  | .error e => .error (.resolve e)
  | .ok resolution =>
    if resolution.changed then
      match d.setAbi resolution.abi with
      | .error e => .error (.edit e)
      | .ok changed => .ok (changed, resolution)
    else .ok (d, resolution)

end CallConv
