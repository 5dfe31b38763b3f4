import CallConv.Collection.Distinct
import CallConv.Config.Basic
import CallConv.File.Tree

/-!
# Collecting source files

Paths are expanded into the files that they stand for: a file stands for itself, selected or not,
and a directory for the files below it that an included pattern finds and the filter selects, by
their paths from there. The files come in the order of their paths, and each path comes once. What
stands under a path and which files a pattern finds is asked of a `FileSearch`.
-/

namespace CallConv

/-- Why paths cannot be expanded, where a path that cannot be used gives an `ε`. -/
inductive CollectError (ε : Type := FileError) where
  | file (e : ε)
  /-- A directory cannot be searched with a pattern that is not well formed where it matters. -/
  | pattern (directory pattern : Text)
deriving DecidableEq, Repr

/-- The message of a failure. -/
def CollectError.message : CollectError → Text
  | file e => e.message
  | pattern directory p =>
    utf8 "searching " ++ directory ++ utf8 " for " ++ Text.quoted p ++
      utf8 ": syntax error in pattern"

/-- What can be asked about files by paths and patterns. -/
structure FileSearch (ε : Type) where
  /-- Whether a path leads to a directory. -/
  isDirectory : Text → Except ε Bool
  /-- The paths of the files below a directory that a pattern finds, from there; none if the pattern
  is not well formed where it matters. -/
  find? : (directory pattern : Text) → Option (List Text)
  /-- Whether a pattern selects a path. -/
  accepts : (pattern path : Text) → Bool

/-- The files of a workspace, where `find?` finds files by patterns and `accepts` says which
patterns select a path. -/
def Workspace.fileSearch (w : Workspace) (find? : (directory pattern : Text) → Option (List Text))
    (accepts : (pattern path : Text) → Bool) : FileSearch FileError where
  isDirectory path := (w.stat path).map (· == .directory)
  find? := find?
  accepts := accepts

namespace SourceFilter

section Search

variable {ε : Type} (f : SourceFilter) (files : FileSearch ε)

/-- The paths that a pattern finds below a directory, from there. -/
def find (directory pattern : Text) : Except (CollectError ε) (List Text) :=
  match files.find? directory pattern with
  | some paths => .ok paths
  | none => .error (.pattern directory pattern)

/-- The selected files below a directory. -/
def search (directory : Text) : Except (CollectError ε) (List Text) :=
  (f.included.mapM (find files directory)).map fun found =>
    let selected := found.flatten.filter (f.selectsBy files.accepts)
    ((selected.map (Path.join directory)).mergeSort Text.le).eraseReps

/-- The files that a path stands for. -/
def expand (path : Text) : Except (CollectError ε) (List Text) :=
  match files.isDirectory path with
  | .error e => .error (.file e)
  | .ok false => .ok [path]
  | .ok true => f.search files path

/-- The files that some paths stand for. -/
def collectBy (paths : List Text) : Except (CollectError ε) (List Text) :=
  (paths.mapM (f.expand files)).map fun found => (Distinct.ofList found.flatten).sorted Text.le

end Search

end SourceFilter

end CallConv
