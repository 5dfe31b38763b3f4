import CallConv.Bazel.PlatformRule
import CallConv.Config.Basic
import CallConv.Platform.Target

/-!
# The platform of a project

The settings of a run come before those of the configuration, and at each of the two levels the
name of a platform comes before a rule. Without any setting the platform is the one that the
program runs on.
-/

namespace CallConv

/-- The settings of a run, which come before those of the configuration. -/
structure PlatformSettings where
  /-- The name of the platform. -/
  platform : Text := []
  /-- The rule that gives the platform. -/
  build : BuildPlatform := ⟨[], []⟩
deriving DecidableEq, Repr

/-- Why settings give no platform. -/
inductive ResolvePlatformError where
  | name (e : Platform.NameError)
  | build (e : BuildError)
  /-- A rule is given without a BUILD file. -/
  | noBuildFile (rule : Text)
  /-- The platform is no target. -/
  | target (e : TargetError)
deriving DecidableEq, Repr

/-- The message of a failure. -/
def ResolvePlatformError.message : ResolvePlatformError → Text
  | name e => e.message
  | build e => e.message
  | noBuildFile rule => utf8 "bazel platform " ++ rule ++ utf8 " requires a BUILD file"
  | target e => e.message

namespace Config

section Format

variable (host : Host) (format : BuildFormat)

/-- The platform for a run in a project. -/
def resolvePlatformBy (w : Workspace) (c : Config) (settings : PlatformSettings) :
    Except ResolvePlatformError Platform :=
  if settings.platform ≠ [] then (Platform.parse settings.platform).mapError .name
  else if settings.build.rule ≠ [] then
    let file := if settings.build.file = [] then c.buildFile else settings.build.file
    if file = [] then .error (.noBuildFile settings.build.rule)
    else (PlatformRule.loadBy format w file settings.build.rule).mapError .build
  else if c.platform ≠ [] then (Platform.parse c.platform).mapError .name
  else if c.build.rule ≠ [] then
    (PlatformRule.loadBy format w c.buildFile c.build.rule).mapError .build
  else host.platform.mapError .name

/-- The target for a run in a project. -/
def resolveTargetBy (w : Workspace) (c : Config) (settings : PlatformSettings) :
    Except ResolvePlatformError Target :=
  match resolvePlatformBy host format w c settings with
  | .error e => .error e
  | .ok p => (Target.ofPlatform p).mapError .target

end Format

end Config

end CallConv
