import CallConv.Toml.Reader

/-!
# The tables of a TOML document

The statements of a document build one table. A key may be given a value once, with one exception:
what came about only because a longer key passed through it may still be declared, and then a table
stays what it is and an array is replaced. Which keys were passed through and which were given
arrays is kept by key and not by table, so it carries over from one element of an array of tables
to the next.
-/

namespace CallConv.Toml

/-- What stands under a key of a table. -/
inductive Node where
  /-- A text. -/
  | text (t : Text)
  /-- A number, a truth value, a date or a time. -/
  | scalar
  /-- The values of an array that is written in brackets. -/
  | array (items : List Node)
  /-- A table, by its keys in the order in which they came about. -/
  | table (entries : List (Text × Node))
  /-- The tables of an array of tables; the last one is the current one. -/
  | tables (earlier : List (List (Text × Node))) (last : List (Text × Node))
deriving Repr, Inhabited

/-- A table, by its keys in the order in which they came about. -/
abbrev Table := List (Text × Node)

namespace Table

/-- The table with a node under a key, in place of the one that was there. -/
def set (name : Text) (node : Node) : Table → Table
  | [] => [(name, node)]
  | (n, old) :: rest => if n = name then (n, node) :: rest else (n, old) :: set name node rest

/-- The table to which a key leads; an array of tables leads to its last one. -/
def at? : Key → Table → Option Table
  | [], table => some table
  | name :: key, table =>
    match table.lookup name with
    | some (.table inner) => at? key inner
    | some (.tables _ last) => at? key last
    | _ => none

/-- The table in which `new` takes the place of the table to which a key leads. -/
def replaceAt : Key → (table new : Table) → Table
  | [], _, new => new
  | name :: key, table, new =>
    match table.lookup name with
    | some (.table inner) => set name (.table (replaceAt key inner new)) table
    | some (.tables earlier last) => set name (.tables earlier (replaceAt key last new)) table
    | _ => table

/-- The table with a node under a dotted key, with new tables where parents are missing; a parent
that is no table is an error. -/
def insert? : Key → Node → Table → Option Table
  | [], _, _ => none
  | [name], node, table => some (set name node table)
  | name :: key, node, table =>
    match table.lookup name with
    | none => (insert? key node []).map fun inner => set name (.table inner) table
    | some (.table inner) => (insert? key node inner).map fun inner => set name (.table inner) table
    | some _ => none

end Table

/-- A document as far as it was read. -/
structure Document where
  /-- The table that the document builds. -/
  root : Table := []
  /-- The tables that only longer keys passed through. -/
  passed : List Key := []
  /-- The keys that were last given an array in brackets. -/
  arrays : List Key := []
  /-- The keys in the order of the text: of headers, entries, and members of inline tables. -/
  keys : List Key := []
deriving Repr, Inhabited

namespace Document

/-- The document in which a table was passed through. -/
def pass (d : Document) (key : Key) : Document := { d with passed := key :: d.passed }

/-- The document in which a table is no longer one that was only passed through. -/
def declare (d : Document) (key : Key) : Document :=
  { d with passed := d.passed.filter (· != key) }

/-- The document in which a key was last given an array, or something else. -/
def note (d : Document) (key : Key) (isArray : Bool) : Document :=
  { d with arrays := if isArray then key :: d.arrays else d.arrays.filter (· != key) }

/-- The key under which the type of a value is noted: its own, but that of the table in which it
stands if its last part is empty and there is such a table. -/
def typeKey (key : Key) : Key :=
  if key.getLast? = some [] ∧ 1 < key.length then key.dropLast else key

/-- The document in which the value of a key was an array, or something else. -/
def noteValue (d : Document) (key : Key) (isArray : Bool) : Document := d.note (typeKey key) isArray

/-- The document in which a key comes next. -/
def name (d : Document) (key : Key) : Document := { d with keys := d.keys ++ [key] }

/-- The document with a node under a name in the table of a key. -/
def put? (d : Document) (context : Key) (name : Text) (node : Node) : Option Document := do
  let table ← d.root.at? context
  let key := context ++ [name]
  let write := fun d : Document =>
    { d with root := d.root.replaceAt context (table.set name node) }
  if (table.lookup name).isNone then some (write d)
  else if !d.passed.contains key then none
  -- What was passed through counts as declared from now on; a table keeps what is in it.
  else if d.arrays.contains key then some (write (d.declare key))
  else some (d.declare key)

/-- The document in which the parents of a key are tables, the missing ones being passed through.
`above` is the key of the table in which the parents stand. -/
def openParents? (d : Document) (above : Key) : Key → Option Document
  | [] => some d
  | [_] => some d
  | name :: key => do
    let table ← d.root.at? above
    match table.lookup name with
    | none =>
      let d := d.pass (above ++ [name])
      let d := { d with root := d.root.replaceAt above (table.set name (.table [])) }
      openParents? d (above ++ [name]) key
    | some (.table _) => openParents? d (above ++ [name]) key
    | some (.tables _ _) => openParents? d (above ++ [name]) key
    | some _ => none

/-- The document in which the table of a key is declared. -/
def openTable? (d : Document) (key : Key) : Option Document := do
  let d ← d.openParents? [] key
  let name ← key.getLast?
  d.put? key.dropLast name (.table [])

/-- The document in which the array of tables of a key has one more table. -/
def openElement? (d : Document) (key : Key) : Option Document := do
  let d ← d.openParents? [] key
  let name ← key.getLast?
  let table ← d.root.at? key.dropLast
  let write := fun node : Node =>
    { d with root := d.root.replaceAt key.dropLast (table.set name node) }
  match table.lookup name with
  | none => some (write (.tables [] []))
  | some (.tables earlier last) => some (write (.tables (earlier ++ [last]) []))
  | some _ => none

/-- The document in which the parents of a dotted key in the table of `context` are tables that
were passed through once more. -/
def passParents? (d : Document) (context : Key) : Key → Option Document
  | [] => some d
  | [_] => some d
  | name :: key => do
    let d ← (d.pass (context ++ [name])).openTable? (context ++ [name])
    d.passParents? (context ++ [name]) key

/-- Whether a value is an array. -/
def isArray : Value → Bool
  | .array _ => true
  | _ => false

mutual

/-- The document after the value of a key was read, and the node of the value. `element` tells that
the value stands in an array. -/
def value? (d : Document) (key : Key) (element : Bool) : Value → Option (Document × Node)
  | .text t => some (d, .text t)
  | .scalar => some (d, .scalar)
  | .array items => do
    let (d, nodes) ← items? (d.noteValue key true) key items
    some (d, .array nodes)
  | .table members => do
    let d := d.pass key
    let d ← if element then d.openElement? key else d.openTable? key
    -- The members are put into the document one by one, and collected in a table of their own.
    let (d, table) ← members? d key [] members
    some (d, .table table)

/-- The document after the values of an array were read, and their nodes. -/
def items? (d : Document) (key : Key) : List Value → Option (Document × List Node)
  | [] => some (d, [])
  | v :: vs => do
    let (d, node) ← value? d key true v
    let (d, nodes) ← items? d key vs
    some (d, node :: nodes)

/-- The document after the members of an inline table were read, and the table. -/
def members? (d : Document) (key : Key) (table : Table) :
    List (Key × Value) → Option (Document × Table)
  | [] => some (d, table)
  | (k, v) :: rest => do
    let d ← d.passParents? key k
    let (d, node) ← value? (d.name (key ++ k)) (key ++ k) false v
    let name ← k.getLast?
    let d ← d.put? (key ++ k.dropLast) name node
    let table ← table.insert? k node
    members? (d.noteValue (key ++ k) (isArray v)) key table rest

end

/-- The document after one more statement, with the table to which entries now belong. -/
def add? : Document × Key → Statement → Option (Document × Key)
  | (d, _), .table key => do
    let d ← d.openTable? key
    some ((d.note key false).name key, key)
  | (d, _), .element key => do
    let d ← d.openElement? key
    some ((d.note key false).name key, key)
  | (d, context), .entry key value => do
    let d ← d.passParents? context key
    let (d, node) ← d.name (context ++ key) |>.value? (context ++ key) false value
    let name ← key.getLast?
    let d ← d.put? (context ++ key.dropLast) name node
    some (d.noteValue (context ++ key) (isArray value), context)

/-- The document of a text. -/
def parse? (text : Text) : Option Document := do
  let statements ← Toml.parse? text
  let (d, _) ← statements.foldlM add? ({}, [])
  some d

end Document

end CallConv.Toml
