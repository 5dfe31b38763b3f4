import CallConv.File.Path

/-!
# Files

The files that a run sees are a value: the directories and regular files of a tree, each under the
components of its absolute path, the links, and the places that cannot be got at although something
stands there. Opening a path follows its components through directories and links one by one, so a
component that is missing or no directory is noticed even if `..` follows it.
-/

namespace CallConv

/-- Why a path cannot be used. -/
inductive FileFault where
  | notFound
  | notDirectory
  | isDirectory
  | invalid
  /-- A link leads back to itself. -/
  | loop
  /-- It is not permitted to open a file, or to go through a directory. -/
  | permission
  /-- The device fails while a file is read. -/
  | device
deriving DecidableEq, Repr

/-- How messages name a fault. -/
def FileFault.text : FileFault → Text
  | notFound => utf8 "no such file or directory"
  | notDirectory => utf8 "not a directory"
  | isDirectory => utf8 "is a directory"
  | invalid => utf8 "invalid argument"
  | loop => utf8 "too many levels of symbolic links"
  | permission => utf8 "permission denied"
  | device => utf8 "input/output error"

/-- What was being done to a path. -/
inductive FileAction where
  | stat
  | opening
  | reading
deriving DecidableEq, Repr

/-- What fails when a file with a fault is read. -/
def FileFault.action : FileFault → FileAction
  | isDirectory | device => .reading
  | notFound | notDirectory | invalid | loop | permission => .opening

/-- How messages name an action. -/
def FileAction.text : FileAction → Text
  | stat => utf8 "stat"
  | opening => utf8 "open"
  | reading => utf8 "read"

/-- An action on a path that failed. -/
structure FileError where
  /-- What was being done. -/
  action : FileAction
  /-- The path as it was given. -/
  path : Text
  /-- Why it failed. -/
  fault : FileFault
deriving DecidableEq, Repr

/-- The message of a failure. -/
def FileError.message (e : FileError) : Text :=
  e.action.text ++ utf8 " " ++ e.path ++ utf8 ": " ++ e.fault.text

/-- What stands under a path. -/
inductive FileNode where
  | directory
  | file (content : Text)
deriving DecidableEq, Repr

/-- A tree of files: what stands under each absolute path, given by its components. -/
structure FileTree where
  /-- The nodes; the first one under a path counts. -/
  nodes : List (List Text × FileNode)
  /-- Where links lead in the end. A further name of a file is a link too. -/
  links : List (List Text × List Text) := []
  /-- Why other links lead nowhere. -/
  broken : List (List Text × FileFault) := []
  /-- Why some files cannot be read, and some directories not gone through. -/
  faults : List (List Text × FileFault) := []
deriving DecidableEq, Repr

namespace FileTree

/-- The tree that has only its root. -/
def empty : FileTree := { nodes := [] }

/-- What stands under an absolute path. The root is always a directory. -/
def node? (tree : FileTree) (path : List Text) : Option FileNode :=
  if path = [] then some .directory else tree.nodes.lookup path

/-- Why what stands under an absolute path cannot be read or gone through, if it cannot. -/
def fault? (tree : FileTree) (path : List Text) : Option FileFault := tree.faults.lookup path

/-- Where an absolute path leads, which is to itself unless it is a link. -/
def follow (tree : FileTree) (path : List Text) : Except FileFault (List Text) :=
  match tree.broken.lookup path with
  | some fault => .error fault
  | none => .ok ((tree.links.lookup path).getD path)

/-- The tree with a directory and the directories above it. -/
def addDirectory (tree : FileTree) (path : List Text) : FileTree :=
  -- What stands under one of the paths already is kept.
  { tree with
    nodes := tree.nodes ++
      ((Path.starts path).filter fun p => (tree.node? p).isNone).map (·, .directory) }

/-- The tree with a file, which replaces the one that was there, and the directories above it. -/
def write (tree : FileTree) (path : List Text) (content : Text) : FileTree :=
  addDirectory { tree with nodes := (path, .file content) :: tree.nodes.filter (·.1 ≠ path) }
    path.dropLast

/-- The tree in which what stands under a path cannot be read or gone through. -/
def withFault (tree : FileTree) (path : List Text) (fault : FileFault) : FileTree :=
  { tree with faults := (path, fault) :: tree.faults }

/-- All files with their absolute paths. -/
def files (tree : FileTree) : List (List Text × Text) :=
  tree.nodes.filterMap fun (path, node) =>
    match node with
    | .file content => some (path, content)
    | .directory => none

/-- The path reached by one component from what stands under `path`. An empty component, as behind
a slash at the end, does not go through the directory. -/
def step (tree : FileTree) (path : List Text) (component : Text) : Except FileFault (List Text) :=
  match tree.node? path with
  | none => .error .notFound
  | some (.file _) => .error .notDirectory
  | some .directory =>
    if component = [] then .ok path
    else
      match tree.fault? path with
      | some fault => .error fault
      | none =>
        if component = Path.current then .ok path
        else if component = Path.parent then .ok path.dropLast
        else
          match tree.follow (path ++ [component]) with
          | .error fault => .error fault
          | .ok next => if (tree.node? next).isSome then .ok next else .error .notFound

end FileTree

/-- A tree of files with a working directory, from which relative paths begin. -/
structure Workspace where
  /-- The files. -/
  tree : FileTree
  /-- The components of the absolute path of the working directory. -/
  cwd : List Text
deriving DecidableEq, Repr

namespace Workspace

/-- The absolute path of the working directory. -/
def workingDirectory (w : Workspace) : Text := Path.ofComponents true w.cwd

/-- The absolute path that a path leads to. -/
def locate (w : Workspace) (p : Text) : Except FileFault (List Text) :=
  if p = [] then .error .notFound
  else if p.contains 0 then .error .invalid
  else
    (p.splitAt Byte.slash).foldlM w.tree.step (if Path.isAbsolute p then [] else w.cwd)

/-- What stands under a path. -/
def stat (w : Workspace) (p : Text) : Except FileError FileNode :=
  match w.locate p with
  | .error fault => .error ⟨.stat, p, fault⟩
  | .ok path => .ok ((w.tree.node? path).getD .directory)

/-- Whether something stands under a path. -/
def exists? (w : Workspace) (p : Text) : Bool :=
  match w.stat p with
  | .ok _ => true
  | .error _ => false

/-- The content of the file under a path. -/
def read (w : Workspace) (p : Text) : Except FileError Text :=
  match w.locate p with
  | .error fault => .error ⟨.opening, p, fault⟩
  | .ok path =>
    match w.tree.fault? path with
    | some fault => .error ⟨fault.action, p, fault⟩
    | none =>
      match w.tree.node? path with
      | some (.file content) => .ok content
      | _ => .error ⟨.reading, p, .isDirectory⟩

/-- The workspace in which the file under a path has the given content. -/
def write (w : Workspace) (p content : Text) : Workspace :=
  match w.locate p with
  | .error _ => w
  | .ok path => { w with tree := w.tree.write path content }

end Workspace

end CallConv
