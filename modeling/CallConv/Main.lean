import CallConv.CommandLine.Standard

/-!
# The program

The files that a run may look at are read into a workspace, the run is computed, and what it prints
and writes is carried out. What a link leads to is taken to stand under each of its names, since all
of it is read before the run. Everything that is decided is decided by `CallConv.run`.
-/

namespace CallConv.Console

/-- The string with the bytes of a text, which a path or an argument always has. -/
def string (t : Text) : String := (String.fromUTF8? ⟨t.toArray⟩).getD ""

/-- The bytes of a text. -/
def bytes (t : Text) : ByteArray := ⟨t.toArray⟩

/-- The ways to a path that its text goes along, the path itself last. -/
def waysTo (path : Text) : List Text :=
  (Path.starts (path.splitAt Byte.slash)).reverse.map (Text.join [Byte.slash])

/-- What the program runs in: it is built for this system. -/
def environment : Environment := Environment.standard ⟨utf8 "linux", utf8 "amd64"⟩

/-- Why a file cannot be read, by what the system says. -/
def faultOf : IO.Error → FileFault
  | .permissionDenied .. => .permission
  | _ => .device

/-- A depth that no directory exceeds, since paths of systems are bounded. -/
def maxDepth : Nat := 4096

/-- The workspace with what stands under a path, and below it up to a depth. -/
def look (w : Workspace) (path : Text) : (depth : Nat) → IO Workspace
  | 0 => return w
  | depth + 1 => do
    let place := (← IO.currentDir) / string path
    let parts := Path.cleanComponents (Path.absolute w.workingDirectory path)
    match ← place.metadata.toBaseIO with
    | .error (.permissionDenied ..) =>
      -- The directory around it must not be gone through.
      return { w with tree := w.tree.withFault parts.dropLast .permission }
    | .error _ => return w
    | .ok info =>
      match info.type with
      | .dir =>
        let mut w : Workspace := { w with tree := w.tree.addDirectory parts }
        if depth = 0 then return w
        match ← place.readDir.toBaseIO with
        | .error _ => return w
        | .ok entries =>
          for entry in entries do
            w ← look w (Path.join path (utf8 entry.fileName)) depth
          return w
      | _ =>
        match ← (IO.FS.readBinFile place).toBaseIO with
        | .error e =>
          return { w with tree := (w.tree.write parts []).withFault parts (faultOf e) }
        | .ok content => return { w with tree := w.tree.write parts content.toList }

/-- The workspace with what stands on the way to a path, and with all that is below it if `deep`. -/
def addPath (deep : Bool) (w : Workspace) (path : Text) : IO Workspace := do
  let w ← (waysTo path).foldlM (fun w way => look w way 1) w
  if deep then look w path maxDepth else return w

/-- The paths at which the configuration of a run may stand. -/
def configPaths (w : Workspace) (o : Options) : List Text :=
  if o.config = [] then
    (Path.ancestors w.workingDirectory).map (Path.join · Config.fileName)
  else [o.config, Path.join o.config Config.fileName]

/-- The paths of the BUILD files of a run whose configuration is in the workspace. -/
def buildPaths (w : Workspace) (o : Options) : List Text :=
  match Run.loadConfig environment w o with
  | .ok c => [o.buildFile, c.buildFile]
  | .error _ => [o.buildFile]

/-- The workspace of all that a run may look at. -/
def workspace (o : Options) : IO Workspace := do
  let cwd := Path.cleanComponents (utf8 (← IO.currentDir).toString)
  let w : Workspace := ⟨FileTree.empty.addDirectory cwd, cwd⟩
  let w ← (configPaths w o).foldlM (addPath false) w
  let w ← (buildPaths w o).foldlM (addPath false) w
  o.paths.foldlM (addPath true) w

/-- Carries out what a run shows and does. -/
def perform (r : Outcome) : IO UInt32 := do
  let stdout ← IO.getStdout
  let stderr ← IO.getStderr
  for (path, content) in r.written do
    IO.FS.writeBinFile (string path) (bytes content)
  stdout.write (bytes r.stdout)
  stdout.flush
  stderr.write (bytes r.stderr)
  stderr.flush
  return r.code.toUInt32

end CallConv.Console

/-- Runs the command line. -/
def main (arguments : List String) : IO UInt32 := do
  let arguments := arguments.map CallConv.utf8
  let options := (CallConv.Options.parse arguments).toOption.getD {}
  let w ← CallConv.Console.workspace options
  CallConv.Console.perform (CallConv.run CallConv.Console.environment w arguments)
