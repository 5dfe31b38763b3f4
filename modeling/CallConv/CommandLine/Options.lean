import CallConv.Text.Quoted

/-!
# Options of the command line

Options begin with one or two hyphens and come before the paths. An option with a text takes it
after an equals sign or from the next argument, and a switch takes a truth value only after an
equals sign. Two hyphens alone end the options.
-/

namespace CallConv

/-- What a command line asks for. -/
structure Options where
  /-- The path of the configuration file or of its directory. -/
  config : Text := []
  /-- The name of the platform. -/
  platform : Text := []
  /-- The path of the BUILD file. -/
  buildFile : Text := []
  /-- The label of the rule that gives the platform. -/
  buildRule : Text := []
  /-- Whether results are written back to the files. -/
  write : Bool := false
  /-- Whether the files that would change are listed. -/
  list : Bool := false
  /-- Whether what is done is logged. -/
  verbose : Bool := false
  /-- The files and directories. -/
  paths : List Text := []
deriving DecidableEq, Repr

/-- Why arguments are no command line. -/
inductive OptionError where
  /-- The usage is asked for. -/
  | help
  | malformed (argument : Text)
  | unknown (name : Text)
  | missingValue (name : Text)
  /-- The value of a switch is no truth value. -/
  | notBool (name value : Text)
deriving DecidableEq, Repr

/-- The message of a failure; a request for the usage has none. -/
def OptionError.message? : OptionError → Option Text
  | help => none
  | malformed argument => some (utf8 "bad flag syntax: " ++ argument)
  | unknown name => some (utf8 "flag provided but not defined: -" ++ name)
  | missingValue name => some (utf8 "flag needs an argument: -" ++ name)
  | notBool name value =>
    some (utf8 "invalid boolean value " ++ Text.quoted value ++ utf8 " for -" ++ name ++
      utf8 ": parse error")

/-- The description of all options. -/
def Options.usage : Text :=
  (["Usage of fnabi:",
    "  -bazel_build_file string",
    "    \tBUILD file defining the platform() rule given by -bazel_platform",
    "  -bazel_platform string",
    "    \tLabel of a platform() rule to take the target platform from",
    "  -config string",
    "    \tPath to fnabi.toml, by default it is searched for in the working directory and its parents",
    "  -l\tList files whose content would change, instead of printing them",
    "  -platform string",
    "    \tTarget platform as <os>/<arch>, e.g. linux/x86_64 (default: configuration file, then host)",
    "  -verbose",
    "    \tEnable verbose logging",
    "  -w\tWrite the result to the source files instead of stdout"].flatMap fun line =>
      utf8 line ++ [Byte.newline])

namespace Options

/-- How an option is set. -/
inductive Setter where
  /-- The option takes a text. -/
  | text (set : Text → Options → Options)
  /-- The option takes a truth value. -/
  | switch (set : Bool → Options → Options)

/-- The options by name. -/
def setters : List (Text × Setter) :=
  [(utf8 "config", .text fun t o => { o with config := t }),
    (utf8 "platform", .text fun t o => { o with platform := t }),
    (utf8 "bazel_build_file", .text fun t o => { o with buildFile := t }),
    (utf8 "bazel_platform", .text fun t o => { o with buildRule := t }),
    (utf8 "w", .switch fun b o => { o with write := b }),
    (utf8 "l", .switch fun b o => { o with list := b }),
    (utf8 "verbose", .switch fun b o => { o with verbose := b })]

/-- The truth value that a text stands for. -/
def bool? (t : Text) : Option Bool :=
  if (["1", "t", "T", "true", "TRUE", "True"].map utf8).contains t then some true
  else if (["0", "f", "F", "false", "FALSE", "False"].map utf8).contains t then some false
  else none

/-- An argument by its role. -/
inductive Argument where
  /-- The first path. -/
  | path
  /-- The end of the options. -/
  | terminator
  /-- An option with its name, and its value if one follows an equals sign. -/
  | option (name : Text) (value? : Option Text)
  /-- Hyphens without a name after them. -/
  | malformed
deriving DecidableEq, Repr

/-- The option written after the hyphens of an argument. -/
def Argument.ofName (name : Text) : Argument :=
  match name with
  | [] => .malformed
  | b :: t =>
    if b = Byte.hyphen ∨ b = Byte.equals then .malformed
    else
      match Text.cut? Byte.equals t with
      | none => .option name none
      | some (rest, value) => .option (b :: rest) (some value)

/-- The role of an argument. -/
def Argument.of : Text → Argument
  | 0x2D :: 0x2D :: [] => .terminator
  | 0x2D :: 0x2D :: name => .ofName name
  | 0x2D :: b :: name => .ofName (b :: name)
  | _ => .path

/-- The options with those of some arguments. -/
def parseFrom (o : Options) : List Text → Except OptionError Options
  | [] => .ok o
  | a :: rest =>
    match Argument.of a with
    | .path => .ok { o with paths := a :: rest }
    | .terminator => .ok { o with paths := rest }
    | .malformed => .error (.malformed a)
    | .option name value? =>
      match setters.lookup name with
      | none =>
        if name = utf8 "help" ∨ name = utf8 "h" then .error .help else .error (.unknown name)
      | some (.switch set) =>
        -- A switch never takes the next argument.
        match bool? (value?.getD (utf8 "true")) with
        | none => .error (.notBool name (value?.getD []))
        | some b => parseFrom (set b o) rest
      | some (.text set) =>
        match value?, rest with
        | some value, rest => parseFrom (set value o) rest
        | none, value :: rest => parseFrom (set value o) rest
        | none, [] => .error (.missingValue name)

/-- The options of a command line. -/
def parse (arguments : List Text) : Except OptionError Options := parseFrom {} arguments

end Options

end CallConv
