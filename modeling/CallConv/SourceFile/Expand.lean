import CallConv.Declaration.Apply
import CallConv.Directive.Parse
import CallConv.SourceFile.Attribute

/-!
# Expanding the attributes of a file

Every item with an `abi` attribute gets the convention that the attribute chooses on a target, and
the attribute goes away together with the white space after it. The rest of the file stays as it
is. A file is expanded only if all of its attributes can be, and all failures are reported.
-/

namespace CallConv

/-- Why an attribute of a file cannot be expanded. -/
inductive ExpandError where
  | lex (e : LexError)
  | attr (e : AttributeError)
  | directive (e : DirectiveError)
  | classify (e : ClassifyError)
  | apply (e : ApplyError)
deriving DecidableEq, Repr

/-- The message of a failure. -/
def ExpandError.message : ExpandError → Text
  | lex e => e.message
  | attr e => e.message
  | directive e => e.message
  | classify e => e.message
  | apply e => e.message?.getD []

/-- Whether a failure ends the expansion of the file instead of being reported with the others. -/
def ExpandError.isFatal : ExpandError → Bool
  | apply e => e.isFatal
  | _ => false

/-- An item whose attribute was expanded. -/
structure ExpandedItem where
  /-- Where the attribute stood. -/
  location : Cursor
  /-- The kind of the item. -/
  kind : Kind
  /-- The name of the item. -/
  name : Text
  /-- The convention that was chosen. -/
  abi : Text
  /-- Whether the marker of the item was changed. -/
  changed : Bool
deriving DecidableEq, Repr

/-- How messages show an expanded item. -/
def ExpandedItem.text (i : ExpandedItem) : Text :=
  i.location.text ++ utf8 ": " ++ i.kind.name ++ utf8 " " ++
    (if i.name = [] then utf8 "<anonymous>" else i.name) ++ utf8 ": extern " ++
    Text.quoted i.abi ++ (if i.changed then utf8 " (rewritten)" else utf8 " (unchanged)")

/-- The item of an attribute with the convention that the attribute chooses, and its new text, where
the item is read as a text from an origin on. Its kind and name are read off the new text. -/
def AnnotatedItem.expandText (a : AnnotatedItem) (text : Text) (origin : Cursor) (target : Target) :
    Except ExpandError (ExpandedItem × Text) :=
  match Directive.ofTokens a.finish a.arguments with
  | .error e => .error (.directive e)
  | .ok directive =>
    match Declaration.classify text origin with
    | .error e => .error (.classify e)
    | .ok d =>
      match d.apply directive target with
      | .error e => .error (.apply e)
      | .ok (d', r) => .ok (⟨a.location, d'.kind, d'.name, r.abi, r.changed⟩, d'.source)

/-- Where the item of an attribute begins. -/
def AnnotatedItem.origin (a : AnnotatedItem) : Cursor :=
  (a.item.head?.map Token.location).getD a.location

/-- The item of an attribute with the convention that the attribute chooses, and its new text. -/
def AnnotatedItem.expand (a : AnnotatedItem) (target : Target) :
    Except ExpandError (ExpandedItem × Text) :=
  a.expandText (Token.join a.item) a.origin target

/-- What expanding the attributes of a file gives. -/
structure Expansion where
  /-- The items that were expanded, in order. -/
  items : List ExpandedItem
  /-- The failures, in order. -/
  errors : List ExpandError
  /-- The text of the file, which is complete only if there was no failure. -/
  output : Text
deriving DecidableEq, Repr

namespace Expansion

/-- An expansion with some text in front. -/
def prepend (text : Text) (x : Expansion) : Expansion := { x with output := text ++ x.output }

/-- An expansion with a failure in front. -/
def fail (e : ExpandError) (x : Expansion) : Expansion := { x with errors := e :: x.errors }

/-- An expansion with an expanded item in front. -/
def add (i : ExpandedItem) (x : Expansion) : Expansion := { x with items := i :: x.items }

/-- The text of the file if there was no failure. -/
def result (x : Expansion) : Except (List ExpandError) Text :=
  if x.errors = [] then .ok x.output else .error x.errors

/-- The first failure that ends the expansion, if there is one: nothing else of the expansion is
reported then. -/
def fatal? (x : Expansion) : Option ExpandError := x.errors.find? ExpandError.isFatal

/-- The messages of some failures, one a line. -/
def messages (errors : List ExpandError) : Text :=
  Text.join (utf8 "\n") (errors.map ExpandError.message)

end Expansion

/-- The expansion of the attributes among some tokens. -/
def expandTokens (target : Target) (ts : List Token) : Expansion :=
  match _h : Attribute.search ts with
  | .finished => ⟨[], [], Token.join ts⟩
  | .passed none rest => (expandTokens target rest).prepend (Token.join (before ts rest))
  | .passed (some e) rest => (expandTokens target rest).fail (.attr e)
  | .found annotated rest =>
    match annotated.expand target with
    | .error e => (expandTokens target rest).fail e
    | .ok (i, text) =>
      ((expandTokens target rest).prepend
        (Token.join (ts.takeWhile Token.isTrivia) ++ text)).add i
termination_by ts.length
decreasing_by all_goals exact Attribute.length_lt_of_search (by rw [_h]; rfl)

/-- The expansion of the attributes of a file. A file that falls into no tokens has no items. -/
def expandSource (source : Text) (target : Target) : Expansion :=
  match tokenize source Cursor.start with
  | .error e => ⟨[], [.lex e], []⟩
  | .ok ts => expandTokens target ts

end CallConv
