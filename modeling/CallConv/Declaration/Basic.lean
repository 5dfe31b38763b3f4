import CallConv.Marker
import CallConv.Token.Lexer

/-!
# Declarations

A declaration is an item of Rust that states a calling convention: a function, a function pointer
type, an alias of one, a constant or static of one, or a block of foreign items. Its text is kept
as it is, so that changing the marker changes nothing else.
-/

namespace CallConv

/-- The kinds of declarations. -/
inductive Kind where
  | function
  | pointerType
  | typeAlias
  | binding
  | foreignBlock
deriving DecidableEq, Repr

namespace Kind

/-- All kinds, each at the position of its number. -/
def all : List Kind := [function, pointerType, typeAlias, binding, foreignBlock]

/-- The kind with a given number. -/
def ofCode? : Int → Option Kind
  | .ofNat n => all[n]?
  | .negSucc _ => none

/-- How messages name a kind. -/
def name : Kind → Text
  | function => utf8 "function"
  | pointerType => utf8 "function pointer type"
  | typeAlias => utf8 "type alias"
  | binding => utf8 "const or static"
  | foreignBlock => utf8 "extern block"

/-- How messages name a kind that may be unknown. -/
def nameOf? (kind : Option Kind) : Text := (kind.map name).getD (utf8 "unknown kind")

end Kind

/-- A function pointer type inside a declaration: its text, where it begins, and its marker. -/
structure PointerType where
  /-- The text of the type. -/
  source : Text
  /-- Where the type begins. -/
  origin : Cursor
  /-- The marker of the type. -/
  site : MarkerSite
deriving DecidableEq, Repr

/-- What a declaration is, with the place of its marker. An alias has its marker in the aliased
type, which is read as a text of its own. -/
inductive Shape where
  | function (name : Text) (site : MarkerSite)
  | pointerType (site : MarkerSite)
  | typeAlias (name : Text) (aliased : PointerType)
  | binding (name : Text) (site : MarkerSite)
  | foreignBlock (site : MarkerSite)
deriving DecidableEq, Repr

namespace Shape

/-- The kind of a declaration. -/
def kind : Shape → Kind
  | function .. => .function
  | pointerType .. => .pointerType
  | typeAlias .. => .typeAlias
  | binding .. => .binding
  | foreignBlock .. => .foreignBlock

/-- The name of the item; a function pointer type and a foreign block have none. -/
def name : Shape → Text
  | function name _ => name
  | typeAlias name _ => name
  | binding name _ => name
  | _ => []

/-- The place of the marker. -/
def site : Shape → MarkerSite
  | function _ site => site
  | pointerType site => site
  | typeAlias _ aliased => aliased.site
  | binding _ site => site
  | foreignBlock site => site

end Shape

/-- An item that states a calling convention. -/
structure Declaration where
  /-- The text of the item. -/
  source : Text
  /-- Where the item begins in the enclosing file. -/
  origin : Cursor
  /-- What the item is. -/
  shape : Shape
deriving DecidableEq, Repr

namespace Declaration

/-- The kind of a declaration. -/
def kind (d : Declaration) : Kind := d.shape.kind

/-- The name of a declaration. -/
def name (d : Declaration) : Text := d.shape.name

/-- The marker of a declaration. -/
def marker (d : Declaration) : Marker := d.shape.site.marker

/-- Whether a declaration cannot exist without its marker. -/
def markerRequired (d : Declaration) : Bool := d.kind == .foreignBlock

end Declaration

/-- Why a text is no declaration. -/
inductive ClassifyError where
  /-- The text falls into no tokens. -/
  | lex (e : LexError)
  /-- The text has the shape of no kind. -/
  | unsupportedItem (origin : Cursor)
  /-- The alias is one of a type that is no function pointer type. -/
  | unsupportedAlias (location : Cursor) (name : Text)
  /-- The constant or static is of a type that is no function pointer type. -/
  | unsupportedBinding (location : Cursor) (name : Text)
deriving DecidableEq, Repr

namespace ClassifyError

/-- The common part of the messages on types. -/
def unsupportedType : Text :=
  utf8 "not a supported type, only bare function pointer types are supported"

/-- The message of a failure. -/
def message : ClassifyError → Text
  | lex e => e.message
  | unsupportedItem origin =>
    origin.text ++ utf8 ": unsupported item kind, expected a function, a function pointer type, " ++
      utf8 "a type alias, a const or static of a function pointer type, or an extern block"
  | unsupportedAlias location name =>
    location.text ++ utf8 ": " ++ unsupportedType ++ utf8 ": type alias " ++ name ++
      utf8 " does not alias a function pointer type such as `extern \"C\" fn()`"
  | unsupportedBinding location name =>
    location.text ++ utf8 ": " ++ unsupportedType ++ utf8 ": " ++ name ++
      utf8 " is not of a function pointer type, use a type alias instead"

end ClassifyError

end CallConv
