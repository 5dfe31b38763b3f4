import CallConv.Bazel.BuildExpr
import CallConv.Bazel.PlatformRule

/-!
# Rules of BUILD files

A rule is a call that stands inside no other call. Its name and the lists of texts in its fields are
read off literals.
-/

namespace CallConv

namespace BuildExpr

/-- The calls in an expression that stand inside no other call, in the order of the text. -/
def outerCalls : BuildExpr → List (BuildExpr × List (Option Text × BuildExpr))
  | name _ => []
  | string _ => []
  | list items => items.attach.flatMap fun ⟨e, _⟩ => outerCalls e
  | selection e _ => outerCalls e
  -- Calls among the arguments belong to this call.
  | call callee arguments => [(callee, arguments)]
  | compound parts => parts.attach.flatMap fun ⟨e, _⟩ => outerCalls e

/-- The value of the first argument with a keyword. -/
def argument (arguments : List (Option Text × BuildExpr)) (keyword : Text) : Option BuildExpr :=
  (arguments.find? (·.1 = some keyword)).map Prod.snd

/-- The value of a string literal. -/
def string? : BuildExpr → Option Text
  | string value => some value
  | _ => none

/-- The values of a list of string literals; anything else has none. -/
def stringList : BuildExpr → List Text
  | list items => (items.mapM string?).getD []
  | _ => []

/-- The name that a call gives by a literal, which may be empty or missing. -/
def ruleName (arguments : List (Option Text × BuildExpr)) : Text :=
  ((argument arguments (utf8 "name")).bind string?).getD []

/-- Whether an expression is a given identifier. -/
def isName (e : BuildExpr) (n : Text) : Bool :=
  match e with
  | name m => m == n
  | _ => false

/-- Whether an expression is an identifier, or a member of one, or a member of such a member: the
callees that make a call a rule. -/
def isQualifiedName : BuildExpr → Bool
  | name _ => true
  | selection e _ => isQualifiedName e
  | _ => false

/-- The statements of a file that are calls: whether the callee is a qualified name, and the name
that the call gives. -/
def topLevelCalls (statements : List BuildExpr) : List (Bool × Text) :=
  statements.filterMap fun e =>
    match e with
    | .call callee arguments => some (callee.isQualifiedName, ruleName arguments)
    | _ => none

/-- The name of the rules without one: the directory of the file, if exactly one statement calls a
qualified name without giving a name, and no statement gives the name of the directory. -/
def defaultName (filename : Text) (statements : List BuildExpr) : Text :=
  let directory := Path.directory filename
  let calls := topLevelCalls statements
  let candidate := Path.base directory
  let unnamed := calls.countP fun (qualified, given) => qualified && given.isEmpty
  if directory ≠ Path.current ∧ unnamed = 1 ∧ candidate ∉ calls.map Prod.snd then candidate else []

/-- The rules of a kind in a file, in the order of the text. A rule without a name has that of the
directory of the file, if it is plain which rule that is. -/
def rules (filename content kind : Text) : Except Text (List BuildRule) :=
  match parse? content with
  | none => .error (utf8 "malformed BUILD file")
  | some statements =>
    .ok ((statements.flatMap outerCalls).filterMap fun (callee, arguments) =>
      if callee.isName kind then
        let explicit := ruleName arguments
        some
          { name := if explicit = [] then defaultName filename statements else explicit
            strings := fun field => ((argument arguments field).map stringList).getD [] }
      else none)

/-- BUILD files with such rules. -/
def format : BuildFormat := ⟨rules, Label.parse⟩

end BuildExpr

end CallConv
