import CallConv.File.Path
import CallConv.Text.Quoted

/-!
# Labels

A label names a target of a build: a repository, a package in it, and a name in the package, as in
`@platforms//os:linux`. Each of the three may be left out.
-/

namespace CallConv

/-- A target of a build. -/
structure Label where
  /-- The repository; empty for the one at hand. -/
  repo : Text
  /-- The package. -/
  pkg : Text
  /-- The name in the package. -/
  name : Text
deriving DecidableEq, Repr

/-- What is wrong with a label. -/
inductive LabelFault where
  | repository
  | package
  | emptyName
  | name
  | emptyBoth
deriving DecidableEq, Repr

/-- How messages name a fault. -/
def LabelFault.text : LabelFault → Text
  | repository => utf8 "repository has invalid characters"
  | package => utf8 "package has invalid characters"
  | emptyName => utf8 "empty name"
  | name => utf8 "name has invalid characters"
  | emptyBoth => utf8 "empty package and name"

/-- A text that is no label. -/
structure LabelError where
  /-- What is wrong. -/
  fault : LabelFault
  /-- The text. -/
  value : Text
deriving DecidableEq, Repr

/-- The message of a failure. -/
def LabelError.message (e : LabelError) : Text :=
  utf8 "label parse error: " ++ e.fault.text ++ utf8 ": " ++ Text.quoted e.value

namespace Label

/-- Whether a repository has a valid name: `@`, or letters, digits and some signs. -/
def isRepo (t : Text) : Bool :=
  t == [Byte.commercialAt] ||
    t.all fun b => Byte.isLetter b || Byte.isDigit b || (utf8 "_.~+-").contains b

/-- Whether a package or a name is made of printable ASCII without colons and backslashes. -/
def isPlain (t : Text) : Bool :=
  t.all fun b => 0x20 ≤ b && b ≤ 0x7E && b != Byte.colon && b != Byte.backslash

/-- The repository of a label and what follows it, if the label names one. After a repository
alone, the name of the target is that of the repository. -/
def splitRepo (t : Text) : Option Text × Text :=
  let t := if (utf8 "@@").isPrefixOf t then t.drop 1 else t
  match t with
  | [] => (none, [])
  | b :: rest =>
    if b = Byte.commercialAt then
      match Text.indexOf? (utf8 "//") rest with
      | some 0 => (some [Byte.commercialAt], rest)
      | some n => (some (rest.take n), rest.drop n)
      | none => (some rest, utf8 "//:" ++ rest)
    else (none, b :: rest)

/-- The package of a label without a repository and what follows it from the colon on. -/
def splitPackage (t : Text) : Option Text × Text :=
  if (utf8 "//").isPrefixOf t then
    let inside := t.drop 2
    let pkg := inside.takeWhile (· != Byte.colon)
    (some pkg, inside.drop pkg.length)
  else (none, t)

/-- The label that a text is. -/
def parse (value : Text) : Except LabelError Label :=
  let (repo?, rest) := splitRepo value
  let (pkg?, rest) := splitPackage rest
  let pkg := pkg?.getD []
  let name := if rest.head? = some Byte.colon then rest.drop 1 else rest
  if !(repo?.all isRepo) then .error ⟨.repository, value⟩
  else if !isPlain pkg then .error ⟨.package, value⟩
  else if rest = [Byte.colon] then .error ⟨.emptyName, value⟩
  else if !isPlain name then .error ⟨.name, value⟩
  else if pkg = [] ∧ name = [] then .error ⟨.emptyBoth, value⟩
  else .ok ⟨repo?.getD [], pkg, if name = [] then Path.base pkg else name⟩

end Label

end CallConv
