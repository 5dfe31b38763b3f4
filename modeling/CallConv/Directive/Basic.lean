import CallConv.Marker
import CallConv.Platform.Target

/-!
# Directives

A directive says which calling convention a declaration gets: the same one on every target, or
that of the first entry of a table whose shortcut denotes the target. When no entry does, a
declaration that already names a convention keeps it.
-/

namespace CallConv

/-- An entry of a table of conventions. -/
structure TableEntry where
  /-- The shortcut of the targets it applies to. -/
  shortcut : Text
  /-- The convention. -/
  abi : Text
  /-- Where the shortcut stands. -/
  location : Cursor
deriving DecidableEq, Repr

/-- Which convention a declaration gets. -/
inductive Directive where
  /-- The same convention on every target. -/
  | direct (abi : Text) (location : Cursor)
  /-- The convention of the first entry whose shortcut denotes the target. -/
  | table (entries : List TableEntry)
deriving DecidableEq, Repr

/-- How an entry is written. -/
def TableEntry.text (e : TableEntry) : Text := e.shortcut ++ utf8 " = " ++ Abi.quoted e.abi

/-- How a directive is written. -/
def Directive.text : Directive → Text
  | direct abi _ => Abi.quoted abi
  | table entries => Text.join (utf8 ", ") (entries.map TableEntry.text)

/-- A convention that a directive chose, and whether the declaration does not name it yet. -/
structure Resolution where
  /-- The convention. -/
  abi : Text
  /-- Whether the declaration has to change. -/
  changed : Bool
deriving DecidableEq, Repr

/-- Why a directive chooses no convention. -/
inductive ResolveError where
  /-- No entry applies, and the declaration names no convention. -/
  | missing (location : Cursor)
  /-- An entry's shortcut is unknown, which reading a directive rules out. -/
  | unknownShortcut (name : Text)
  /-- The table is empty, which reading a directive rules out. -/
  | emptyTable
deriving DecidableEq, Repr

/-- The message of a failure; an empty table has none. -/
def ResolveError.message? : ResolveError → Option Text
  | missing location =>
    some (location.text ++ utf8 ": missing ABI for this target, and no default was specified " ++
      utf8 "(e.g. `extern \"Rust\"`)")
  | unknownShortcut name => some (Target.unknownShortcut name)
  | emptyTable => none

/-- Whether a failure breaks off the work instead of being reported: reading a directive is meant to
rule it out. -/
def ResolveError.isFatal : ResolveError → Bool
  | missing _ => false
  | unknownShortcut _ | emptyTable => true

namespace Directive

/-- The choice of a convention for a declaration with the given marker. -/
def choose (abi : Text) (existing : Marker) : Resolution := ⟨abi, existing.name? != some abi⟩

/-- The choice of the first of some entries whose shortcut denotes the target, if one does. -/
def firstMatch (target : Target) : List TableEntry → Except ResolveError (Option TableEntry)
  | [] => .ok none
  | e :: es =>
    match target.matches? e.shortcut with
    | none => .error (.unknownShortcut e.shortcut)
    | some true => .ok (some e)
    | some false => firstMatch target es

/-- The convention that a directive chooses on a target for a declaration with the given marker. -/
def resolve (d : Directive) (target : Target) (existing : Marker) :
    Except ResolveError Resolution :=
  match d with
  | direct abi _ => .ok (choose abi existing)
  | table entries =>
    match firstMatch target entries with
    | .error e => .error e
    | .ok (some entry) => .ok (choose entry.abi existing)
    | .ok none =>
      match existing.name?, entries with
      | some name, _ => .ok ⟨name, false⟩
      | none, first :: _ => .error (.missing first.location)
      | none, [] => .error .emptyTable

end Directive

end CallConv
