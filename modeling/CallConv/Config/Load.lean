import CallConv.Config.Basic
import CallConv.File.Climb
import CallConv.File.Tree

/-!
# Configuration files

The configuration of a project is the file `fnabi.toml` in its directory. For a place inside the
project it is found by going up: the nearest directory that has something of that name decides. What
stands under a path and what a file holds is asked of a `FileAccess`, of which a workspace is one,
and what configurations look like of a `ConfigFormat`.
-/

namespace CallConv

/-- Why a configuration file cannot be loaded, where a file that cannot be used gives an `ε`. -/
inductive LoadError (ε : Type := FileError) where
  /-- There is nothing under the path. -/
  | missing (e : ε)
  /-- The file cannot be read. -/
  | unreadable (path : Text) (e : ε)
  /-- The file holds no configuration. -/
  | invalid (path : Text) (e : ConfigError)
deriving DecidableEq, Repr

/-- The message of a failure. -/
def LoadError.message : LoadError → Text
  | missing e => e.message
  | unreadable path e => utf8 "cannot read " ++ path ++ utf8 ": " ++ e.message
  | invalid path e => utf8 "parse error in " ++ path ++ utf8 ": " ++ e.message

/-- What can be asked about files. -/
structure FileAccess (ε : Type) where
  /-- Whether something stands under a path. -/
  exists? : Text → Bool
  /-- What the file under a path holds. -/
  read : Text → Except ε Text
  /-- The absolute path from which relative ones begin. -/
  workingDirectory : Text

/-- The files of a workspace. -/
def Workspace.access (w : Workspace) : FileAccess FileError :=
  ⟨w.exists?, w.read, w.workingDirectory⟩

namespace Config

/-- The name of configuration files. -/
def fileName : Text := utf8 "fnabi.toml"

section Access

variable {ε : Type} (format : ConfigFormat) (files : FileAccess ε)

/-- The configuration in one of some files; the directory of the file is that of the project. -/
def loadFileBy (path : Text) : Except (LoadError ε) Config :=
  match files.read path with
  | .error e => .error (.unreadable path e)
  | .ok content =>
    match parseBy format content with
    | .error e => .error (.invalid path e)
    | .ok c =>
      .ok { c with directory := Path.absolute files.workingDirectory (Path.directory path) }

/-- The configuration of the project in a directory of some files. -/
def loadDirectoryBy (directory : Text) : Except (LoadError ε) Config :=
  loadFileBy format files (Path.join directory fileName)

/-- Whether a directory has something with the name of configuration files. -/
def hasEntry (directory : Text) : Bool := files.exists? (Path.join directory fileName)

/-- The configuration of the project that a place among some files belongs to, if it belongs to
one. -/
def findBy (start : Text) : Except (LoadError ε) (Option Config) :=
  match Path.nearest? (hasEntry files) (Path.absolute files.workingDirectory start) with
  | none => .ok none
  | some directory => (loadDirectoryBy format files directory).map some

end Access

/-- The configuration of a project that has no configuration file. -/
def forDirectory (directory : Text) : Config := { directory }

end Config

end CallConv
