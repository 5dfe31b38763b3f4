import CallConv.Bazel.Constraint
import CallConv.File.Tree

/-!
# Platform rules of BUILD files

A platform rule of a BUILD file gives a platform under its name by its constraint values. Which
rules a file has and what a label is is asked of a `BuildFormat`.
-/

namespace CallConv

/-- A rule of a BUILD file. -/
structure BuildRule where
  /-- The name of the rule. -/
  name : Text
  /-- The texts in the list that is the value of a field; any other value has none. -/
  strings : (field : Text) → List Text

/-- How BUILD files are written. -/
structure BuildFormat where
  /-- The rules of a kind in a file, in the order of the text, or why the text is no BUILD file. -/
  rules : (filename content kind : Text) → Except Text (List BuildRule)
  /-- The label that a text is. -/
  label : Text → Except LabelError Label

/-- Why a BUILD file gives no platforms, or not the one asked for. -/
inductive BuildError where
  | file (e : FileError)
  /-- The text is no BUILD file. -/
  | malformed (message : Text)
  /-- The constraint values of a rule give no platform. -/
  | rule (path name : Text) (e : ConstraintError)
  /-- The file has no rule with the name. -/
  | noRule (path name : Text)
deriving DecidableEq, Repr

/-- The message of a failure. -/
def BuildError.message : BuildError → Text
  | file e => e.message
  | malformed message => message
  | rule path name e =>
    path ++ utf8 ": platform " ++ Text.quoted name ++ utf8 ": " ++ e.message
  | noRule path name => path ++ utf8 ": no platform() rule named " ++ Text.quoted name

namespace PlatformRule

/-- The kind of the rules. -/
def kind : Text := utf8 "platform"

/-- The field with the constraint values. -/
def constraints : Text := utf8 "constraint_values"

section Format

variable (format : BuildFormat)

/-- The platform of a rule, under the name of the rule. -/
def platformBy (filename : Text) (rule : BuildRule) : Except BuildError (Text × Platform) :=
  match Platform.ofConstraintsBy format.label (rule.strings constraints) with
  | .ok p => .ok (rule.name, p)
  | .error e => .error (.rule filename rule.name e)

/-- The platforms of a BUILD file by name, in the order of the text. -/
def platformsBy (filename content : Text) : Except BuildError (List (Text × Platform)) :=
  match format.rules filename content kind with
  | .error message => .error (.malformed message)
  | .ok rules => rules.mapM (platformBy format filename)

/-- The platform with a name; of several rules with one name the last counts. -/
def find? (ps : List (Text × Platform)) (name : Text) : Option Platform := ps.reverse.lookup name

/-- The name of the rule that a target names: that of its label, or the target itself if it is no
label. -/
def targetName (target : Text) : Text :=
  match format.label target with
  | .ok l => l.name
  | .error _ => target

/-- The platform of a rule in a BUILD file. -/
def loadBy (w : Workspace) (file target : Text) : Except BuildError Platform :=
  match w.read file with
  | .error e => .error (.file e)
  | .ok content =>
    match platformsBy format file content with
    | .error e => .error e
    | .ok ps =>
      match find? ps (targetName format target) with
      | some p => .ok p
      | none => .error (.noRule file (targetName format target))

end Format

end PlatformRule

end CallConv
