import CallConv.File.Path
import CallConv.Platform.Basic
import CallConv.Text.Quoted

/-!
# Configurations

A configuration selects the files of a project by patterns and names the target platform, either by
its name or by a rule in a BUILD file. Empty texts stand for settings that are not made. How a text
is taken apart into settings and which patterns are well formed is asked of a `ConfigFormat`.
-/

namespace CallConv

/-- Which files of a project are selected, by patterns for their paths. -/
structure SourceFilter where
  /-- The patterns of which one has to select a file. -/
  included : List Text
  /-- The patterns of which none may select a file. -/
  excluded : List Text
deriving DecidableEq, Repr

namespace SourceFilter

/-- The included patterns when none are given. -/
def defaultIncluded : List Text := [utf8 "**/*.rs"]

/-- The excluded patterns when they are not given. -/
def defaultExcluded : List Text := [utf8 "target/**", utf8 ".git/**"]

/-- The filter of a project that sets none. -/
def default : SourceFilter := ⟨defaultIncluded, defaultExcluded⟩

/-- Whether a filter selects the path of a file, where `accepts` says which patterns select it. -/
def selectsBy (f : SourceFilter) (accepts : (pattern path : Text) → Bool) (path : Text) : Bool :=
  f.included.any (accepts · path) && !f.excluded.any (accepts · path)

/-- The first pattern that is not well formed, where `isPattern` says which ones are. -/
def invalidBy? (f : SourceFilter) (isPattern : Text → Bool) : Option Text :=
  (f.included ++ f.excluded).find? fun pattern => !isPattern pattern

end SourceFilter

/-- A rule in a BUILD file that gives the platform. -/
structure BuildPlatform where
  /-- The path of the BUILD file. -/
  file : Text
  /-- The label of the rule. -/
  rule : Text
deriving DecidableEq, Repr

/-- The configuration of a project. -/
structure Config where
  /-- The name of the platform. -/
  platform : Text := []
  /-- The files that are selected. -/
  sources : SourceFilter := SourceFilter.default
  /-- The rule that gives the platform. -/
  build : BuildPlatform := ⟨[], []⟩
  /-- The directory of the project. -/
  directory : Text := []
deriving DecidableEq, Repr

/-- The settings that a text makes. -/
structure ConfigSettings where
  /-- The name of the platform. -/
  platform : Text := []
  /-- The included patterns. -/
  included : List Text := []
  /-- The excluded patterns, if they are given. -/
  excluded? : Option (List Text) := none
  /-- The rule that gives the platform. -/
  build : BuildPlatform := ⟨[], []⟩
  /-- The keys that have no meaning, as messages show them. -/
  unknown : List Text := []
deriving DecidableEq, Repr

/-- How configurations are written. -/
structure ConfigFormat where
  /-- The settings that a text makes, or why it makes none. -/
  decode : Text → Except Text ConfigSettings
  /-- Whether a text is a pattern. -/
  isPattern : Text → Bool

/-- Why a text is no configuration. -/
inductive ConfigError where
  /-- The text makes no settings. -/
  | malformed (message : Text)
  /-- Some keys have no meaning. -/
  | unknownKeys (keys : List Text)
  /-- A pattern is not well formed. -/
  | pattern (pattern : Text)
  /-- The name of the platform is none. -/
  | platform (e : Platform.NameError)
  /-- A rule is given without its BUILD file. -/
  | noBuildFile (rule : Text)
deriving DecidableEq, Repr

/-- The message of a failure. -/
def ConfigError.message : ConfigError → Text
  | malformed message => message
  | unknownKeys keys => utf8 "unknown keys " ++ Text.bracketed keys
  | pattern p => utf8 "invalid source pattern " ++ Text.quoted p
  | platform e => e.message
  | noBuildFile rule => utf8 "bazel.platform " ++ rule ++ utf8 " requires bazel.build_file"

namespace Config

/-- The configuration that some settings make. Included patterns count if there are any, and
excluded ones if they are given, even if there are none. -/
def ofSettings (s : ConfigSettings) : Config :=
  { platform := s.platform
    sources :=
      { included := if s.included = [] then SourceFilter.defaultIncluded else s.included
        excluded := s.excluded?.getD SourceFilter.defaultExcluded }
    build := s.build }

/-- Whether the settings of a configuration can be used together: patterns first, then the name of
the platform, then the rule. -/
def validateBy (isPattern : Text → Bool) (c : Config) : Except ConfigError Unit :=
  match c.sources.invalidBy? isPattern with
  | some p => .error (.pattern p)
  | none =>
    match if c.platform = [] then .ok () else (Platform.parse c.platform).map fun _ => () with
    | .error e => .error (.platform e)
    | .ok () =>
      if c.build.rule ≠ [] ∧ c.build.file = [] then .error (.noBuildFile c.build.rule) else .ok ()

/-- The configuration of a text in a format, with an empty directory. -/
def parseBy (format : ConfigFormat) (content : Text) : Except ConfigError Config :=
  match format.decode content with
  | .error message => .error (.malformed message)
  | .ok settings =>
    if settings.unknown ≠ [] then .error (.unknownKeys settings.unknown)
    else
      let c := ofSettings settings
      (c.validateBy format.isPattern).map fun () => c

/-- The path of the BUILD file; a relative one begins at the directory of the project. -/
def buildFile (c : Config) : Text :=
  if c.build.file = [] ∨ Path.isAbsolute c.build.file then c.build.file
  else Path.join c.directory c.build.file

end Config

end CallConv
