import CallConv.Directive.Basic
import CallConv.Token.Lexer

/-!
# Reading directives

The arguments of an `abi` attribute are a string literal, or entries `shortcut = "name"` with
commas between them and none after the last. All of them are read before any is used, so a
malformed entry is reported even behind one that applies.
-/

namespace CallConv

/-- What should have stood where something else does. -/
inductive Expected where
  | shortcut
  | knownShortcut
  | equalSign
  | literal
  | nonemptyName
  | comma
deriving DecidableEq, Repr

/-- How messages name what should have stood there. -/
def Expected.text : Expected → Text
  | shortcut => utf8 "target shortcut"
  | knownShortcut => utf8 "one of target shortcuts " ++ Text.join (utf8 ", ") Shortcut.names
  | equalSign => utf8 "`=`"
  | literal => utf8 "ABI string literal"
  | nonemptyName => utf8 "non-empty ABI name"
  | comma => utf8 "`,`"

/-- Why arguments are no directive. -/
inductive DirectiveError where
  /-- The arguments fall into no tokens. -/
  | lex (e : LexError)
  /-- There are no arguments. -/
  | empty (location : Cursor)
  /-- The arguments begin with, or go on with, something that no directive has there. -/
  | invalid (location : Cursor)
  /-- A token stands where another one is expected. -/
  | argument (expected : Expected) (found : Token)
deriving DecidableEq, Repr

/-- The message of a failure. -/
def DirectiveError.message : DirectiveError → Text
  | lex e => e.message
  | empty location =>
    location.text ++
      utf8 ": expected an ABI or target shortcut table (no ABI or target table found)"
  | invalid location =>
    location.text ++ utf8 ": expected an ABI or target shortcut table (invalid argument found)"
  | argument expected found =>
    found.location.text ++ utf8 ": expected " ++ expected.text ++ utf8 " but found " ++
      found.describe

namespace Directive

/-- The token that stands for the end of the arguments. -/
def endToken (finish : Cursor) : Token := ⟨.eof, finish, []⟩

/-- Whether a token can be a shortcut by its kind. -/
def isShortcutToken (t : Token) : Bool := t.kind == .identifier || t.kind == .number

/-- The nonempty name that a literal token gives. -/
def readAbi (t : Token) : Except DirectiveError Text :=
  if !Abi.isLiteral t then .error (.argument .literal t)
  else if Abi.ofLiteral t = [] then .error (.argument .nonemptyName t)
  else .ok (Abi.ofLiteral t)

/-- The shortcut that a token gives. -/
def readShortcut (t : Token) : Except DirectiveError Text :=
  if !isShortcutToken t then .error (.argument .shortcut t)
  else if !Shortcut.isKnown t.content then .error (.argument .knownShortcut t)
  else .ok t.content

/-- The sign between a shortcut and its convention. -/
def readEqual (t : Token) : Except DirectiveError Unit :=
  if t.kind = .equal then .ok () else .error (.argument .equalSign t)

/-- The entries of a table: each is a shortcut, a sign and a literal, and a comma stands between
two of them. Arguments that end early are met by the end token. -/
def readEntries (finish : Cursor) : List Token → Except DirectiveError (List TableEntry)
  | shortcut :: sign :: literal :: rest => do
    let name ← readShortcut shortcut
    readEqual sign
    let abi ← readAbi literal
    let entry : TableEntry := ⟨name, abi, shortcut.location⟩
    match rest with
    | [] => .ok [entry]
    | separator :: rest =>
      if separator.kind = .comma then
        let entries ← readEntries finish rest
        .ok (entry :: entries)
      else .error (.argument .comma separator)
  | [shortcut, sign] => do
    let _ ← readShortcut shortcut
    readEqual sign
    .error (.argument .literal (endToken finish))
  | [shortcut] => do
    let _ ← readShortcut shortcut
    .error (.argument .equalSign (endToken finish))
  | [] => .error (.argument .shortcut (endToken finish))

/-- The directive given by the significant tokens of some arguments, which end at `finish`. -/
def ofSignificant (finish : Cursor) : List Token → Except DirectiveError Directive
  | [] => .error (.empty finish)
  | first :: rest =>
    if first.kind.isStringLiteral then do
      let abi ← readAbi first
      match rest with
      | [] => .ok (.direct abi first.location)
      | extra :: _ => .error (.invalid extra.location)
    else if isShortcutToken first then (readEntries finish (first :: rest)).map .table
    else .error (.invalid first.location)

/-- The directive given by the tokens of some arguments, which end at `finish`. -/
def ofTokens (finish : Cursor) (ts : List Token) : Except DirectiveError Directive :=
  ofSignificant finish (significant ts)

/-- The position after the last of some tokens, or `start` if there is none. -/
def endOf (start : Cursor) (ts : List Token) : Cursor :=
  match ts.getLast? with
  | some last => last.location.advance last.content
  | none => start

/-- The directive written as `arguments`, without the parentheses around them. -/
def parse (arguments : Text) : Except DirectiveError Directive :=
  match tokenize arguments Cursor.start with
  | .error e => .error (.lex e)
  | .ok ts => ofTokens (endOf Cursor.start ts) ts

end Directive

end CallConv
