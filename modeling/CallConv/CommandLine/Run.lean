import CallConv.CommandLine.Options
import CallConv.Config.Collect
import CallConv.Config.Load
import CallConv.Config.Resolve
import CallConv.SourceFile.Expand

/-!
# Running the command line

A run finds the configuration, the target and the files, reads and expands every file, and only
then reports, lists, prints or writes, file by file in the order of their paths. A file with a
failure is reported and otherwise left alone, and the other files are handled as if it were not
there. What a run takes from the system and from the languages of other files is its `Environment`.
-/

namespace CallConv

/-- What a run is given besides the files and its arguments. -/
structure Environment where
  /-- The system that the program runs on. -/
  host : Host
  /-- How configuration files are written. -/
  config : ConfigFormat
  /-- How BUILD files are written. -/
  build : BuildFormat
  /-- The paths of the files below a directory that a pattern finds, from there; none if the pattern
  is not well formed where it matters. -/
  find? : Workspace → (directory pattern : Text) → Option (List Text)
  /-- Whether a pattern selects a path. -/
  accepts : (pattern path : Text) → Bool

/-- The search for files in a workspace. -/
def Environment.fileSearch (env : Environment) (w : Workspace) : FileSearch FileError :=
  w.fileSearch (env.find? w) env.accepts

/-- What a run shows and does. -/
structure Outcome where
  /-- The exit status. -/
  code : Nat := 0
  /-- What is printed. -/
  stdout : Text := []
  /-- What is reported. -/
  stderr : Text := []
  /-- The files that are written, in order, with their content. -/
  written : List (Text × Text) := []
deriving DecidableEq, Repr

/-- The files after a run. -/
def Outcome.apply (r : Outcome) (w : Workspace) : Workspace :=
  r.written.foldl (fun w (path, content) => w.write path content) w

namespace Run

/-- A line of a report, ended by a line break unless it has one. -/
def logLine (message : Text) : Text :=
  if message.getLast? = some Byte.newline then message else message ++ [Byte.newline]

/-- A run that ends with a failure before any file is handled. -/
def fail (what message : Text) : Outcome := { code := 1, stderr := logLine (what ++ message) }

/-- What is said when no file is named. -/
def noPaths : Text :=
  utf8 "Program requires at least 1 argument - files or directories to rewrite. " ++
    utf8 "Flags needs to be defined before arguments"

/-- The run for arguments that are no command line: the usage, after what is wrong with them. -/
def misuse (e : OptionError) : Outcome :=
  match e.message? with
  | none => { stderr := Options.usage }
  | some message => { code := 2, stderr := message ++ Byte.newline :: Options.usage }

/-- The configuration of a run: the one that is asked for, or the one of the working directory. -/
def loadConfig (env : Environment) (w : Workspace) (o : Options) : Except LoadError Config :=
  if o.config ≠ [] then
    match w.stat o.config with
    | .error e => .error (.missing e)
    | .ok .directory => Config.loadDirectoryBy env.config w.access o.config
    | .ok (.file _) => Config.loadFileBy env.config w.access o.config
  else
    (Config.findBy env.config w.access w.workingDirectory).map fun found =>
      found.getD (Config.forDirectory w.workingDirectory)

/-- The settings of a run that concern the platform. -/
def platformSettings (o : Options) : PlatformSettings :=
  ⟨o.platform, ⟨o.buildFile, o.buildRule⟩⟩

/-- Why a file was not handled. -/
inductive FileFailure where
  | file (e : FileError)
  | expand (errors : List ExpandError)
deriving DecidableEq, Repr

/-- The message of a failure. -/
def FileFailure.message : FileFailure → Text
  | file e => e.message
  | expand errors => Expansion.messages errors

/-- A file that was read and expanded. -/
structure ExpandedFile where
  /-- The path of the file. -/
  path : Text
  /-- The content that was read. -/
  content : Text
  /-- The items that were expanded. -/
  items : List ExpandedItem
  /-- The content after the expansion. -/
  output : Text
deriving DecidableEq, Repr

/-- The file under a path, read and expanded. -/
def expandFile (w : Workspace) (target : Target) (path : Text) :
    Except FileFailure ExpandedFile :=
  match w.stat path with
  | .error e => .error (.file e)
  | .ok _ =>
    match w.read path with
    | .error e => .error (.file e)
    | .ok content =>
      let expansion := expandSource content target
      match expansion.result with
      | .error errors => .error (.expand errors)
      | .ok output => .ok ⟨path, content, expansion.items, output⟩

/-- Whether the expansion changes a file. -/
def ExpandedFile.isChanged (f : ExpandedFile) : Bool := f.content != f.output

/-- What is reported on an expanded file. -/
def ExpandedFile.log (o : Options) (f : ExpandedFile) : Text :=
  if o.verbose then f.items.flatMap fun i => logLine (f.path ++ Byte.colon :: i.text) else []

/-- What is printed for an expanded file: its path if files are listed, and its content unless it
is written. -/
def ExpandedFile.print (o : Options) (f : ExpandedFile) : Text :=
  if o.list then if f.isChanged then f.path ++ [Byte.newline] else []
  else if o.write then []
  else f.output

/-- What is written for an expanded file. -/
def ExpandedFile.writes (o : Options) (f : ExpandedFile) : List (Text × Text) :=
  if !o.list && o.write && f.isChanged then [(f.path, f.output)] else []

/-- What a run shows and does for one file. -/
def handle (o : Options) (path : Text) : Except FileFailure ExpandedFile → Outcome
  | .error e => { code := 1, stderr := path ++ utf8 ": " ++ e.message ++ [Byte.newline] }
  | .ok f => { stdout := f.print o, stderr := f.log o, written := f.writes o }

/-- One outcome after another; the exit status is that of a failure if there is one. -/
def andThen (r s : Outcome) : Outcome :=
  ⟨max r.code s.code, r.stdout ++ s.stdout, r.stderr ++ s.stderr, r.written ++ s.written⟩

/-- The last line of a report, if files failed. -/
def summary (failed total : Nat) : Outcome :=
  if failed = 0 then {}
  else
    { code := 1
      stderr := logLine (utf8 "Failed to rewrite " ++ Text.ofNat failed ++ utf8 " of " ++
        Text.ofNat total ++ utf8 " files") }

/-- Whether a file failed. -/
def isFailure (r : Except FileFailure ExpandedFile) : Bool :=
  match r with
  | .error _ => true
  | .ok _ => false

/-- What a run shows and does for the collected files. -/
def expandFiles (w : Workspace) (o : Options) (target : Target) (paths : List Text) : Outcome :=
  -- Every file is read from the workspace before the run, also one that is named twice.
  let results := paths.map fun path => (path, expandFile w target path)
  let handled := results.foldr (fun (path, r) rest => andThen (handle o path r) rest) {}
  andThen handled (summary (results.countP fun (_, r) => isFailure r) results.length)

/-- The run for some options. -/
def ofOptions (env : Environment) (w : Workspace) (o : Options) : Outcome :=
  if o.paths = [] then { code := 1, stderr := Options.usage ++ logLine noPaths }
  else
    match loadConfig env w o with
    | .error e => fail (utf8 "Failed to load configuration: ") e.message
    | .ok config =>
      match config.resolveTargetBy env.host env.build w (platformSettings o) with
      | .error e => fail (utf8 "Failed to resolve target platform: ") e.message
      | .ok target =>
        let start : Outcome :=
          if o.verbose then
            { stderr := logLine (utf8 "Rewriting for " ++ target.platform.text) }
          else {}
        match config.sources.collectBy (env.fileSearch w) o.paths with
        | .error e => andThen start (fail (utf8 "Failed to collect source files: ") e.message)
        | .ok paths => andThen start (expandFiles w o target paths)

end Run

/-- The run of a command line in a workspace. -/
def run (env : Environment) (w : Workspace) (arguments : List Text) : Outcome :=
  match Options.parse arguments with
  | .error e => Run.misuse e
  | .ok o => Run.ofOptions env w o

end CallConv
