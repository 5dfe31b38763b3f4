import CallConv.Config.Basic
import CallConv.Glob.Match
import CallConv.Toml.Document

/-!
# Settings from TOML documents

A document has a text `platform`, a table `sources` with the lists `include` and `exclude`, and a
table `bazel` with the texts `build_file` and `platform`, all of them optional. A key also counts
when it differs from these names in case only, and the tables of several such keys count together.
Values of a wrong type are noticed before keys that have no meaning.
-/

namespace CallConv.Toml

/-- A code point such that two have the same one exactly when they are the same letter of ASCII in
either case. The long s and the sign for kelvin are letters too. -/
def foldCase (code : Nat) : Nat :=
  if 0x41 ≤ code ∧ code ≤ 0x5A then code + 0x20
  else if code = 0x17F then 0x73
  else if code = 0x212A then 0x6B
  else code

/-- Whether a key of a table means the field with a name, of which all letters are small. -/
def isField (field : String) (key : Text) : Bool :=
  (Text.runes key).map (fun r => foldCase r.code) == (Text.runes (utf8 field)).map (·.code)

/-- The value of the last key of a table that means a field. -/
def field? (field : String) (table : Table) : Option Node :=
  (table.reverse.find? fun (key, _) => isField field key).map Prod.snd

/-- The text of a node, if it is one. -/
def text? : Node → Option Text
  | .text t => some t
  | _ => none

/-- The texts of a node, if it is an array of them. -/
def texts? : Node → Option (List Text)
  | .array items => items.mapM text?
  | _ => none

/-- The table of a node, if it is one. -/
def table? : Node → Option Table
  | .table entries => some entries
  | _ => none

/-- The values of all keys of a table that mean a field have the right type. -/
def hasType (field : String) (type? : Node → Bool) (table : Table) : Bool :=
  table.all fun (key, node) => !isField field key || type? node

/-- Whether the values in the table `sources` have the right types. -/
def isSources (node : Node) : Bool :=
  (table? node).any fun table =>
    hasType "include" (fun n => (texts? n).isSome) table &&
    hasType "exclude" (fun n => (texts? n).isSome) table

/-- Whether the values in the table `bazel` have the right types. -/
def isBazel (node : Node) : Bool :=
  (table? node).any fun table =>
    hasType "build_file" (fun n => (text? n).isSome) table &&
    hasType "platform" (fun n => (text? n).isSome) table

/-- Whether the values of all keys that have a meaning have the right types. -/
def isTyped (root : Table) : Bool :=
  hasType "platform" (fun n => (text? n).isSome) root && hasType "sources" isSources root &&
  hasType "bazel" isBazel root

/-- The text of a field of a table; one that is missing is empty. -/
def textField (field : String) (table : Table) : Text :=
  ((field? field table).bind text?).getD []

/-- The entries of all tables under keys that mean a field. -/
def tableField (field : String) (root : Table) : Table :=
  (root.filter fun (key, _) => isField field key).flatMap fun (_, node) => (table? node).getD []

/-- The settings of a table whose values have the right types, among keys of which some have no
meaning. -/
def settings (root : Table) (unknown : List Key) : ConfigSettings :=
  let sources := tableField "sources" root
  let bazel := tableField "bazel" root
  { platform := textField "platform" root
    included := ((field? "include" sources).bind texts?).getD []
    excluded? := (field? "exclude" sources).bind texts?
    build := ⟨textField "build_file" bazel, textField "platform" bazel⟩
    unknown := unknown.map keyText }

/-- The keys in a table, each after `above`, that mean one of some fields. -/
def knownIn (above : Key) (fields : List String) (table : Table) : List Key :=
  (table.filter fun (key, _) => fields.any (isField · key)).map fun (key, _) => above ++ [key]

/-- The keys in the tables of a table that mean a field, which have a meaning themselves if they
mean one of some fields. -/
def knownBelow (field : String) (fields : List String) (root : Table) : List Key :=
  (root.filter fun (key, _) => isField field key).flatMap fun (key, node) =>
    knownIn [key] fields ((table? node).getD [])

/-- The keys of a document that have a meaning. -/
def knownKeys (root : Table) : List Key :=
  knownIn [] ["platform", "sources", "bazel"] root ++
  knownBelow "sources" ["include", "exclude"] root ++
  knownBelow "bazel" ["build_file", "platform"] root

/-- The settings that a document makes. -/
def decode (content : Text) : Except Text ConfigSettings :=
  match Document.parse? content with
  | none => .error (utf8 "malformed TOML document")
  | some d =>
    -- A wrong type comes before a key without meaning, wherever the two stand.
    if !isTyped d.root then .error (utf8 "malformed TOML document")
    else .ok (settings d.root (d.keys.filter fun key => !(knownKeys d.root).contains key))

/-- Configurations in documents. -/
def format : ConfigFormat := ⟨decode, Glob.isValid⟩

end CallConv.Toml
