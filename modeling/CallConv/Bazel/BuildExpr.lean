import CallConv.Bazel.BuildToken

/-!
# Expressions and statements of BUILD files

Of the expressions only names, strings, lists, selections and calls are told apart; every other
expression, and every statement that is not an expression, is a compound of the expressions in it,
in the order of the text. Operators therefore need no precedence.

Between brackets, items are separated by one or more commas, and commas may follow the last item.
Outside of brackets a single comma separates, and none may be left over.
-/

namespace CallConv

/-- An expression or statement of a BUILD file. -/
inductive BuildExpr where
  /-- An identifier. -/
  | name (n : Text)
  /-- A string literal with its value. -/
  | string (value : Text)
  /-- A list of expressions in brackets. -/
  | list (items : List BuildExpr)
  /-- A member of the value of an expression. -/
  | selection (e : BuildExpr) (member : Text)
  /-- A call with its arguments, some of which have a keyword. -/
  | call (callee : BuildExpr) (arguments : List (Option Text × BuildExpr))
  /-- Anything else, with the expressions in it. -/
  | compound (parts : List BuildExpr)
deriving Repr, Inhabited

namespace BuildExpr

/-- What a reader of tokens gives: what was read and the tokens after it. -/
abbrev Reader (α : Type) := List BuildToken → Option (α × List BuildToken)

/-- Words that cannot be identifiers. -/
def keywords : List Text :=
  ["and", "for", "if", "else", "elif", "in", "is", "lambda", "load", "not", "or", "def", "return",
    "pass", "break", "continue"].map utf8

/-- The tokens after a given sign. -/
def sign? (s : String) : List BuildToken → Option (List BuildToken)
  | .sign t :: ts => if t = utf8 s then some ts else none
  | _ => none

/-- The tokens after a given keyword. -/
def word? (w : String) : List BuildToken → Option (List BuildToken)
  | .word t :: ts => if t = utf8 w then some ts else none
  | _ => none

/-- An identifier and the tokens after it. -/
def identifier? : Reader Text
  | .word t :: ts => if keywords.contains t then none else some (t, ts)
  | _ => none

/-- The tokens after a line break. -/
def newline? : List BuildToken → Option (List BuildToken)
  | .newline :: ts => some ts
  | _ => none

/-- The signs that stand between two operands. -/
def binarySigns : List Text :=
  ["+", "-", "*", "/", "//", "%", "==", "!=", "<", ">", "<=", ">=", "|", "&", "^", "<<",
    ">>"].map utf8

/-- The keywords that stand between two operands. -/
def binaryWords : List Text := ["and", "or", "in", "is"].map utf8

/-- The tokens after an operator between two operands. -/
def binary? : List BuildToken → Option (List BuildToken)
  | .sign s :: ts => if binarySigns.contains s then some ts else none
  | .word w :: ts =>
    if binaryWords.contains w then some ts
    else if w = utf8 "not" then word? "in" ts
    else none
  | _ => none

/-- The tokens after an operator before an operand. -/
def unary? : List BuildToken → Option (List BuildToken)
  | .sign s :: ts => if [utf8 "-", utf8 "+", utf8 "~"].contains s then some ts else none
  | .word w :: ts => if w = utf8 "not" then some ts else none
  | _ => none

/-- The signs that change what stands before them. -/
def augmentedSigns : List Text :=
  ["+=", "-=", "*=", "/=", "//=", "%=", "|=", "&=", "^=", "<<=", ">>="].map utf8

/-- The tokens after a sign of assignment. -/
def assignment? : List BuildToken → Option (List BuildToken)
  | .sign s :: ts => if s = utf8 "=" ∨ augmentedSigns.contains s then some ts else none
  | _ => none

/-- One expression as it is, and several as a compound. -/
def ofParts : List BuildExpr → BuildExpr
  | [e] => e
  | parts => compound parts

/-! ## Separators -/

/-- The tokens after any number of commas. -/
def commas : List BuildToken → List BuildToken
  | .sign s :: ts => if s = utf8 "," then commas ts else .sign s :: ts
  | ts => ts

/-- The items of a group after its first one, up to the closing sign, which is taken too. -/
def moreItems? {α : Type} (item : Reader α) (closing : String) : (fuel : Nat) → Reader (List α)
  | 0, _ => none
  | fuel + 1, ts =>
    match sign? closing ts with
    | some rest => some ([], rest)
    | none => do
      let ts := commas (← sign? "," ts)
      match sign? closing ts with
      | some rest => some ([], rest)
      | none => do
        let (next, ts) ← item ts
        let (more, rest) ← moreItems? item closing fuel ts
        some (next :: more, rest)

/-- The items of a group, up to the closing sign, which is taken too. -/
def items? {α : Type} (item : Reader α) (closing : String) (fuel : Nat) :
    Reader (List α) := fun ts =>
  match sign? closing ts with
  | some rest => some ([], rest)
  | none => do
    let (first, ts) ← item ts
    let (more, rest) ← moreItems? item closing fuel ts
    some (first :: more, rest)

/-- One or more items with single commas between them. -/
def sequence? {α : Type} (item : Reader α) : (fuel : Nat) → Reader (List α)
  | 0, _ => none
  | fuel + 1, ts => do
    let (first, ts) ← item ts
    match sign? "," ts with
    | none => some ([first], ts)
    | some ts => do
      let (more, rest) ← sequence? item fuel ts
      some (first :: more, rest)

/-! ## Expressions -/

/-- The tokens after a string literal. -/
def literal? : List BuildToken → Option (List BuildToken)
  | .string _ :: ts => some ts
  | _ => none

/-- A number: digits, which may have a point before or after them, or between two runs of them. -/
def number? : List BuildToken → Option (List BuildToken)
  | .number :: ts =>
    match sign? "." ts with
    | some (.number :: rest) => some rest
    | some rest => some rest
    | none => some ts
  | ts =>
    match sign? "." ts with
    | some (.number :: rest) => some rest
    | _ => none

/-- A symbol that a file is loaded for: a string, which may be given a name of its own. -/
def loaded? : Reader BuildExpr := fun ts => do
  let ts ← literal? ts <|> (identifier? ts).bind fun (_, ts) => (sign? "=" ts).bind literal?
  some (compound [], ts)

/-- The arguments of a load: the file and at least one symbol. -/
def load? (fuel : Nat) : Reader BuildExpr := fun ts => do
  let ts ← sign? "(" ts
  let ts ← literal? (commas ts)
  let ts ← sign? "," ts
  let (_, ts) ← loaded? (commas ts)
  let (_, rest) ← moreItems? loaded? ")" fuel ts
  some (compound [], rest)

mutual

/-- An expression: operands with operators between them, or a choice of two expressions. -/
def test? : (fuel : Nat) → Reader BuildExpr
  | 0, _ => none
  | fuel + 1, ts => do
    let (first, ts) ← operation? fuel ts
    match word? "if" ts with
    | none => some (first, ts)
    | some ts => do
      let (condition, ts) ← test? fuel ts
      let ts ← word? "else" ts
      let (second, ts) ← test? fuel ts
      some (compound [first, condition, second], ts)

/-- Operands with operators between them. -/
def operation? : (fuel : Nat) → Reader BuildExpr
  | 0, _ => none
  | fuel + 1, ts => do
    let (first, ts) ← operand? fuel ts
    match binary? ts with
    | none => some (first, ts)
    | some ts => do
      let (rest, ts) ← operation? fuel ts
      some (compound [first, rest], ts)

/-- An operand with the operators before it, or a function, whose body is an operation. -/
def operand? : (fuel : Nat) → Reader BuildExpr
  | 0, _ => none
  | fuel + 1, ts =>
    match unary? ts with
    | some ts => (operand? fuel ts).map fun (e, ts) => (compound [e], ts)
    | none =>
      match word? "lambda" ts with
      | some ts => do
        let (parameters, ts) ← items? (parameter? fuel false) ":" fuel ts
        let (body, ts) ← operation? fuel ts
        some (compound (parameters ++ [body]), ts)
      | none => primary? fuel ts

/-- An expression that binds tighter than every operator. -/
def primary? : (fuel : Nat) → Reader BuildExpr
  | 0, _ => none
  | fuel + 1, ts => do
    let (e, ts) ← atom? fuel ts
    trailers? fuel e ts

/-- What follows an expression directly: selections, calls and subscripts. -/
def trailers? : (fuel : Nat) → BuildExpr → Reader BuildExpr
  | 0, _, _ => none
  | fuel + 1, e, ts =>
    match ts with
    | .sign s :: rest =>
      if s = utf8 "." then do
        let (member, rest) ← identifier? rest
        trailers? fuel (selection e member) rest
      else if s = utf8 "(" then do
        let (arguments, rest) ← items? (argument? fuel) ")" fuel rest
        trailers? fuel (call e arguments) rest
      else if s = utf8 "[" then do
        let (parts, rest) ← subscript? fuel rest
        trailers? fuel (compound (e :: parts)) rest
      else some (e, ts)
    | _ => some (e, ts)

/-- A name, a string, a number, a load, or a group in brackets. -/
def atom? : (fuel : Nat) → Reader BuildExpr
  | 0, _ => none
  | fuel + 1, ts =>
    match ts with
    | .string v :: rest => some (string v, rest)
    | .word w :: rest =>
      if w = utf8 "load" then load? fuel rest
      else (identifier? ts).map fun (n, rest) => (name n, rest)
    | .sign s :: rest =>
      if s = utf8 "(" then do
        let (parts, rest) ← items? (test? fuel) ")" fuel rest
        some (compound parts, rest)
      else if s = utf8 "[" then bracketed? fuel rest
      else if s = utf8 "\x7b" then braced? fuel rest
      else (number? ts).map (compound [], ·)
    | _ => (number? ts).map (compound [], ·)

/-- A list or its comprehension, after the opening bracket. -/
def bracketed? : (fuel : Nat) → Reader BuildExpr
  | 0, _ => none
  | fuel + 1, ts =>
    match sign? "]" ts with
    | some rest => some (list [], rest)
    | none => do
      let (first, ts) ← test? fuel ts
      match word? "for" ts with
      | some _ => do
        let (clauses, ts) ← clauses? fuel ts
        let rest ← sign? "]" ts
        some (compound (first :: clauses), rest)
      | none => do
        let (more, rest) ← moreItems? (test? fuel) "]" fuel ts
        some (list (first :: more), rest)

/-- A set, or a dictionary or its comprehension, after the opening brace. -/
def braced? : (fuel : Nat) → Reader BuildExpr
  | 0, _ => none
  | fuel + 1, ts =>
    match sign? "\x7d" ts with
    | some rest => some (compound [], rest)
    | none => do
      let (first, ts) ← test? fuel ts
      match sign? ":" ts with
      | none => do
        let (more, rest) ← moreItems? (test? fuel) "\x7d" fuel ts
        some (compound (first :: more), rest)
      | some ts => do
        let (value, ts) ← test? fuel ts
        match word? "for" ts with
        | some _ => do
          let (clauses, ts) ← clauses? fuel ts
          let rest ← sign? "\x7d" ts
          some (compound (first :: value :: clauses), rest)
        | none => do
          let (more, rest) ← moreItems? (pair? fuel) "\x7d" fuel ts
          some (compound (first :: value :: more), rest)

/-- A key of a dictionary with its value. -/
def pair? : (fuel : Nat) → Reader BuildExpr
  | 0, _ => none
  | fuel + 1, ts => do
    let (key, ts) ← test? fuel ts
    let ts ← sign? ":" ts
    let (value, ts) ← test? fuel ts
    some (compound [key, value], ts)

/-- The clauses of a comprehension, of which the first is a loop. -/
def clauses? : (fuel : Nat) → Reader (List BuildExpr)
  | 0, _ => none
  | fuel + 1, ts => do
    let ts ← word? "for" ts
    let (bound, ts) ← sequence? (primary? fuel) fuel ts
    let ts ← word? "in" ts
    let (source, ts) ← operation? fuel ts
    let (more, ts) ← moreClauses? fuel ts
    some (bound ++ source :: more, ts)

/-- Further clauses of a comprehension: conditions and loops. -/
def moreClauses? : (fuel : Nat) → Reader (List BuildExpr)
  | 0, _ => none
  | fuel + 1, ts =>
    match word? "if" ts with
    | some ts => do
      let (condition, ts) ← operation? fuel ts
      let (more, ts) ← moreClauses? fuel ts
      some (condition :: more, ts)
    | none =>
      match word? "for" ts with
      | some _ => clauses? fuel ts
      | none => some ([], ts)

/-- One argument of a call, which may have a keyword or be spread. -/
def argument? : (fuel : Nat) → Reader (Option Text × BuildExpr)
  | 0, _ => none
  | fuel + 1, ts =>
    match sign? "*" ts <|> sign? "**" ts with
    | some ts => (test? fuel ts).map fun (e, ts) => ((none, compound [e]), ts)
    | none =>
      match (identifier? ts).bind fun (keyword, ts) => (sign? "=" ts).map (keyword, ·) with
      | some (keyword, ts) => (test? fuel ts).map fun (e, ts) => ((some keyword, e), ts)
      | none => (test? fuel ts).map fun (e, ts) => ((none, e), ts)

/-- A subscript up to its closing bracket: an index, or the bounds of a slice. -/
def subscript? : (fuel : Nat) → Reader (List BuildExpr)
  | 0, _ => none
  | fuel + 1, ts =>
    match sign? ":" ts with
    | some ts => bounds? fuel ts
    | none => do
      let (start, ts) ← sequence? (test? fuel) fuel ts
      match sign? ":" ts with
      | none => (sign? "]" ts).map (start, ·)
      | some ts => (bounds? fuel ts).map fun (bounds, rest) => (start ++ bounds, rest)

/-- The end of a slice, and its step after a second colon. -/
def bounds? : (fuel : Nat) → Reader (List BuildExpr)
  | 0, _ => none
  | fuel + 1, ts => do
    let (stop, ts) ← bound? fuel ts
    match sign? ":" ts with
    | none => (sign? "]" ts).map (stop, ·)
    | some ts => do
      let (step, ts) ← bound? fuel ts
      (sign? "]" ts).map (stop ++ step, ·)

/-- A bound of a slice, which may be missing. -/
def bound? : (fuel : Nat) → Reader (List BuildExpr)
  | 0, _ => none
  | fuel + 1, ts =>
    match sign? ":" ts <|> sign? "]" ts with
    | some _ => some ([], ts)
    | none => (test? fuel ts).map fun (e, ts) => ([e], ts)

/-- One parameter of a function: a name, which may have a default, or a spread one. A single star
may stand alone. -/
def parameter? : (fuel : Nat) → (typed : Bool) → Reader BuildExpr
  | 0, _, _ => none
  | fuel + 1, typed, ts =>
    match sign? "**" ts with
    | some ts => parameterName? fuel typed ts
    | none =>
      match sign? "*" ts with
      | some ts =>
        if (identifier? ts).isSome then parameterName? fuel typed ts else some (compound [], ts)
      | none => do
        let (named, ts) ← parameterName? fuel typed ts
        match sign? "=" ts with
        | none => some (named, ts)
        | some ts => do
          let (value, ts) ← test? fuel ts
          some (compound [named, value], ts)

/-- The name of a parameter, with its type where types are allowed. -/
def parameterName? : (fuel : Nat) → (typed : Bool) → Reader BuildExpr
  | 0, _, _ => none
  | fuel + 1, typed, ts => do
    let (_, ts) ← identifier? ts
    match (if typed then sign? ":" ts else none) with
    | none => some (compound [], ts)
    | some ts => (test? fuel ts).map fun (e, ts) => (compound [e], ts)

end

/-! ## Statements -/

/-- Expressions with commas between them, which together are one compound. -/
def tuple? (fuel : Nat) : Reader BuildExpr := fun ts => do
  let (parts, ts) ← sequence? (test? fuel) fuel ts
  some (ofParts parts, ts)

/-- A statement without a block: an expression, an assignment, or a keyword. -/
def small? (fuel : Nat) : Reader BuildExpr := fun ts =>
  match word? "pass" ts <|> word? "break" ts <|> word? "continue" ts with
  | some ts => some (compound [], ts)
  | none =>
    match word? "return" ts with
    | some ts =>
      match newline? ts <|> sign? ";" ts with
      | some _ => some (compound [], ts)
      | none => (tuple? fuel ts).map fun (e, ts) => (compound [e], ts)
    | none => do
      let (left, ts) ← tuple? fuel ts
      match assignment? ts with
      | none => some (left, ts)
      | some ts => do
        let (right, ts) ← tuple? fuel ts
        some (compound [left, right], ts)

/-- The type of the result of a function, which may be missing. -/
def result? (fuel : Nat) : Reader (List BuildExpr) := fun ts =>
  match sign? "->" ts with
  | none => some ([], ts)
  | some ts => (test? fuel ts).map fun (e, ts) => ([e], ts)

/-- Statements without blocks on one line. -/
def line? : (fuel : Nat) → Reader (List BuildExpr)
  | 0, _ => none
  | fuel + 1, ts => do
    let (first, ts) ← small? fuel ts
    match newline? ts with
    | some rest => some ([first], rest)
    | none => do
      let ts ← sign? ";" ts
      match newline? ts with
      | some rest => some ([first], rest)
      | none => do
        let (more, rest) ← line? fuel ts
        some (first :: more, rest)

mutual

/-- The statements up to the end of the tokens or of the block. -/
def statements? : (fuel : Nat) → Reader (List BuildExpr)
  | 0, _ => none
  | fuel + 1, ts =>
    match ts with
    | [] => some ([], [])
    | .dedent :: _ => some ([], ts)
    | .newline :: rest => statements? fuel rest
    | _ => do
      let (first, ts) ← statement? fuel ts
      let (more, rest) ← statements? fuel ts
      some (first ++ more, rest)

/-- A statement with its blocks, or the statements of one line. -/
def statement? : (fuel : Nat) → Reader (List BuildExpr)
  | 0, _ => none
  | fuel + 1, ts =>
    match word? "def" ts with
    | some ts => do
      let (_, ts) ← identifier? ts
      let ts ← sign? "(" ts
      let (parameters, ts) ← items? (parameter? fuel true) ")" fuel ts
      let (result, ts) ← result? fuel ts
      let (body, ts) ← suite? fuel ts
      some ([compound (parameters ++ result ++ body)], ts)
    | none =>
      match word? "for" ts with
      | some ts => do
        let (bound, ts) ← sequence? (primary? fuel) fuel ts
        let ts ← word? "in" ts
        let (source, ts) ← tuple? fuel ts
        let (body, ts) ← suite? fuel ts
        some ([compound (bound ++ source :: body)], ts)
      | none =>
        match word? "if" ts with
        | some ts => do
          let (parts, ts) ← branches? fuel ts
          some ([compound parts], ts)
        | none => line? fuel ts

/-- A condition with its block, and the branches after it. -/
def branches? : (fuel : Nat) → Reader (List BuildExpr)
  | 0, _ => none
  | fuel + 1, ts => do
    let (condition, ts) ← tuple? fuel ts
    let (body, ts) ← suite? fuel ts
    match word? "elif" ts <|> (word? "else" ts).bind (word? "if") with
    | some ts => do
      let (more, ts) ← branches? fuel ts
      some (condition :: body ++ more, ts)
    | none =>
      match word? "else" ts with
      | some ts => do
        let (more, ts) ← suite? fuel ts
        some (condition :: body ++ more, ts)
      | none => some (condition :: body, ts)

/-- A colon and the block after it: indented statements, or the rest of the line. -/
def suite? : (fuel : Nat) → Reader (List BuildExpr)
  | 0, _ => none
  | fuel + 1, ts => do
    let ts ← sign? ":" ts
    match ts with
    | .newline :: .indent :: ts => do
      let (body, ts) ← statements? fuel ts
      match ts with
      | .dedent :: rest => some (body, rest)
      | _ => none
    | _ => line? fuel ts

end

/-- The statements of a BUILD file. -/
def parse? (t : Text) : Option (List BuildExpr) := do
  let ts ← BuildToken.tokenize? t
  let (statements, rest) ← statements? (8 * ts.length + 16) ts
  if rest.isEmpty then some statements else none

end BuildExpr

end CallConv
