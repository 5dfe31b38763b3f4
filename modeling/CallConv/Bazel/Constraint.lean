import CallConv.Bazel.Label
import CallConv.Platform.Basic

/-!
# Platforms from constraint values

A platform rule lists constraint values, which are labels. The values of the two settings
`@platforms//os` and `@platforms//cpu` give the platform, and each has to be there exactly once.
-/

namespace CallConv

/-- Why constraint values give no platform. -/
inductive ConstraintError where
  | label (value : Text) (e : LabelError)
  | conflictingOs (first second : Text)
  | conflictingCpu (first second : Text)
  /-- One of the two settings is missing. -/
  | incomplete (values : List Text)
  | name (e : Platform.NameError)
deriving DecidableEq, Repr

/-- The message of a failure. -/
def ConstraintError.message : ConstraintError → Text
  | label value e => utf8 "invalid constraint value " ++ Text.quoted value ++ utf8 ": " ++ e.message
  | conflictingOs first second =>
    utf8 "conflicting OS constraints: " ++ first ++ utf8 " and " ++ second
  | conflictingCpu first second =>
    utf8 "conflicting CPU constraints: " ++ first ++ utf8 " and " ++ second
  | incomplete values =>
    utf8 "constraint values " ++ Text.bracketed values ++
      utf8 " must define both @platforms//os and @platforms//cpu"
  | name e => e.message

namespace Constraint

/-- The settings met so far. One that was not met yet is empty, as the name of no label is. -/
structure Settings where
  /-- The operating system. -/
  os : Text
  /-- The architecture. -/
  cpu : Text
deriving DecidableEq, Repr

/-- The settings with one more constraint value, of which `read` gives the label. Values of other
settings do not count. -/
def Settings.add (read : Text → Except LabelError Label) (s : Settings) (value : Text) :
    Except ConstraintError Settings :=
  match read value with
  | .error e => .error (.label value e)
  | .ok l =>
    if l.repo ≠ utf8 "platforms" then .ok s
    else if l.pkg = utf8 "os" then
      if s.os ≠ [] then .error (.conflictingOs s.os l.name) else .ok { s with os := l.name }
    else if l.pkg = utf8 "cpu" then
      if s.cpu ≠ [] then .error (.conflictingCpu s.cpu l.name) else .ok { s with cpu := l.name }
    else .ok s

/-- The settings of some constraint values, of which `read` gives the labels. -/
def settings (read : Text → Except LabelError Label) (values : List Text) :
    Except ConstraintError Settings :=
  values.foldlM (Settings.add read) ⟨[], []⟩

end Constraint

/-- The platform that constraint values give, of which `read` gives the labels. -/
def Platform.ofConstraintsBy (read : Text → Except LabelError Label) (values : List Text) :
    Except ConstraintError Platform :=
  match Constraint.settings read values with
  | .error e => .error e
  | .ok s =>
    if s.os = [] ∨ s.cpu = [] then .error (.incomplete values)
    else (Platform.ofNames s.os s.cpu).mapError .name

/-- The platform that constraint values give. -/
def Platform.ofConstraints (values : List Text) : Except ConstraintError Platform :=
  Platform.ofConstraintsBy Label.parse values

end CallConv
