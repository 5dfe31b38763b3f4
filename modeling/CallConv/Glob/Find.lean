import CallConv.File.Tree
import CallConv.Glob.Match

/-!
# Searching files by pattern

A pattern is searched for segment by segment: the last segment among the names in the directories
that the segments before it lead to, and alternatives in braces one after the other. A part of the
pattern without special bytes is looked up and not matched. The search cuts a pattern at slashes and
braces without regard to classes, so it may find less than matching the paths of all files would, or
come upon a part that is not well formed.
-/

namespace CallConv

namespace FileTree

/-- Whether a place can be got at: none of the directories above it has a fault. -/
def isReachable (tree : FileTree) (path : List Text) : Bool :=
  (Path.starts path.dropLast).all fun directory => (tree.fault? directory).isNone

/-- The tree below a directory, with paths from there, as far as it can be got at. -/
def subtree (tree : FileTree) (path : List Text) : FileTree where
  nodes := tree.nodes.filterMap fun (p, node) =>
    if path.isPrefixOf p ∧ p ≠ path ∧ tree.isReachable p then some (p.drop path.length, node)
    else none

/-- The names in a directory, with what stands under them. -/
def entries (tree : FileTree) (path : List Text) : List (Text × FileNode) :=
  tree.nodes.filterMap fun (p, node) =>
    if p.dropLast = path then p.getLast?.map (·, node) else none

end FileTree

/-- The tree below a directory. -/
def Workspace.treeBelow (w : Workspace) (directory : Text) : FileTree :=
  match w.locate directory with
  | .error _ => .empty
  | .ok path => w.tree.subtree path

end CallConv

namespace CallConv.Glob

/-! ## Cutting patterns -/

/-- Whether a byte gives a pattern more than one path to select. -/
def isSpecial (b : UInt8) : Bool :=
  b == Byte.star || b == question || b == classOpen || b == braceOpen

/-- The number of bytes before the first special one that is not escaped. -/
def plainLength? : Text → Option Nat
  | [] => none
  | b :: t =>
    if isSpecial b then some 0
    else if b = Byte.backslash then
      match t with
      | [] => none
      | _ :: t => (plainLength? t).map (· + 2)
    else (plainLength? t).map (· + 1)

/-- The path that a pattern without special bytes spells: a backslash is left out before a byte that
can have a meaning, and kept before any other. -/
def unescape : Text → Text
  | b :: c :: t =>
    if b = Byte.backslash ∧ (isSpecial c ∨ c = classClose ∨ c = braceClose) then c :: unescape t
    else b :: unescape (c :: t)
  | t => t

/-- The text before and after the last byte that satisfies `p` and has no backslash right before it,
with that byte. `escaped` tells whether a backslash stands right before the text. -/
def cutLast? (p : UInt8 → Bool) : (escaped : Bool) → Text → Option (Text × UInt8 × Text)
  | _, [] => none
  | escaped, b :: t =>
    match cutLast? p (b == Byte.backslash) t with
    | some (before, c, after) => some (b :: before, c, after)
    | none => if p b && !escaped then some ([], b, t) else none

/-- The text before an opening brace and the text after it, up to the closing brace that belongs to
it. The text before the closing brace is given from its end, `depth` braces deep inside. -/
def cutOpening? : (depth : Nat) → (inside reversed : Text) → Option (Text × Text)
  | _, _, [] => none
  | depth, inside, b :: r =>
    if r.head? = some Byte.backslash then cutOpening? depth (b :: inside) r
    else if b = braceClose then cutOpening? (depth + 1) (b :: inside) r
    else if b = braceOpen then
      match depth with
      | 0 => some (r.reverse, inside)
      | depth + 1 => cutOpening? depth (b :: inside) r
    else cutOpening? depth (b :: inside) r

/-- The texts between the commas of a text that stand in no braces of their own, where `depth`
braces are open. -/
def splitCommas : (depth : Int) → Text → List Text
  | _, [] => [[]]
  | depth, b :: t =>
    if b = Byte.backslash then
      match t with
      | [] => [[b]]
      | c :: t => (splitCommas depth t).modifyHead ([b, c] ++ ·)
    else if b = Byte.comma ∧ depth = 0 then [] :: splitCommas depth t
    else
      let depth := if b = braceOpen then depth + 1 else if b = braceClose then depth - 1 else depth
      (splitCommas depth t).modifyHead (b :: ·)

/-- The alternatives that a search tries for the text between two braces: an empty one does not
count if it is the last. -/
def choices (inside : Text) : List Text :=
  let all := splitCommas 0 inside
  if all.getLast? = some [] then all.dropLast else all

/-- Where a pattern is cut. -/
inductive Cut where
  /-- Nowhere. -/
  | whole
  /-- At the last slash. -/
  | segment (directory last : Text)
  /-- Around the last alternatives: the pattern before and after them, and what is between the
  braces. -/
  | alternatives (before inside after : Text)

/-- Whether a byte ends a segment or alternatives. -/
def isBoundary (b : UInt8) : Bool := b == Byte.slash || b == braceClose

/-- Where a pattern is cut: around alternatives that no slash follows, or at the last slash. -/
def Cut.ofPattern (pattern : Text) : Cut :=
  match cutLast? isBoundary false pattern with
  | none => .whole
  | some (before, b, after) =>
    if b = Byte.slash then .segment before after
    else
      match cutOpening? 0 [] before.reverse with
      | some (outer, inside) => .alternatives outer inside after
      -- A brace that closes nothing is part of its segment.
      | none =>
        match cutLast? (· == Byte.slash) false before with
        | some (directory, _, last) => .segment directory (last ++ b :: after)
        | none => .whole

/-! ## Paths that are found -/

/-- What a search looks for: files, or the directories that lead to them. -/
inductive Sought where
  | files
  | directories
deriving DecidableEq, Repr

/-- Whether a node is what a search looks for. -/
def Sought.accepts : Sought → FileNode → Bool
  | files, .file _ => true
  | files, .directory => false
  | directories, .directory => true
  | directories, .file _ => false

/-- The components of a path that a pattern spells. -/
def componentsOf (path : Text) : List Text :=
  if path = Path.current then [] else path.splitAt Byte.slash

/-- A path without a slash at its end. -/
def dropFinalSlash (path : Text) : Text :=
  if 1 < path.length ∧ path.getLast? = some Byte.slash then path.dropLast else path

/-- The path of what stands under a path below a directory. -/
def pathBelow (directory path : Text) : Text :=
  if directory = Path.current then path else directory ++ Byte.slash :: path

/-- What a pattern without special bytes finds. A file may stand for a directory that leads to
files, but nothing will be found in it. -/
def findPlain (tree : FileTree) (pattern : Text) (sought : Sought) : List Text :=
  let path := unescape pattern
  match tree.node? (componentsOf (dropFinalSlash path)) with
  | some node => if sought = .files ∧ node = .directory then [] else [path]
  | none => []

/-- What two stars find: everything below a directory, and the directory. -/
def findBelow (tree : FileTree) (directory : Text) (sought : Sought) : List Text :=
  let below := (tree.subtree (componentsOf directory)).nodes
  let nodes := below.filter fun (_, node) => sought.accepts node
  let found := nodes.map fun (path, _) => pathBelow directory (Text.join [Byte.slash] path)
  if sought = .directories then directory :: found else found

/-- What the last segment of a pattern finds in a directory; `none` when it is not well formed where
it was looked at. -/
def findIn? (tree : FileTree) (directory last : Text) (sought : Sought) : Option (List Text) :=
  -- A pattern that ends in a slash is for directories only.
  if last = [] then
    let node? := tree.node? (componentsOf (dropFinalSlash directory))
    some (if sought = .directories ∧ node? = some .directory then [directory] else [])
  else if tree.node? (componentsOf directory) ≠ some .directory then some []
  else if last = [Byte.star, Byte.star] then some (findBelow tree directory sought)
  else do
    let entries := tree.entries (componentsOf directory)
    let selected ← entries.filterM fun (name, _) => verdict last name
    let found := selected.filter fun (_, node) => sought.accepts node
    some (found.map fun (name, _) => pathBelow directory name)

/-! ## The search -/

/-- The paths that a pattern finds, given a bound on how often it is cut; `none` when a part of it
is not well formed where it was looked at. -/
def findWithin? (tree : FileTree) : (fuel : Nat) → (pattern : Text) → Sought → Option (List Text)
  | 0, _, _ => some []
  | fuel + 1, pattern, sought =>
    match plainLength? pattern, Cut.ofPattern pattern with
    | none, _ => some (findPlain tree pattern sought)
    | some _, .whole => findIn? tree Path.current pattern sought
    | some plain, .segment directory last =>
      if directory.length ≤ plain then findIn? tree (unescape directory) last sought
      else do
        let directories ← findWithin? tree fuel directory .directories
        let found ← directories.mapM fun d => findIn? tree d last sought
        some found.flatten
    | some _, .alternatives before inside after => do
      let (directories, start) ←
        match cutLast? isBoundary false before with
        | some (directory, 0x2F, start) =>
          (findWithin? tree fuel directory .directories).map (·, start)
        | _ => some ([Path.current], before)
      let found ← directories.mapM fun d =>
        -- A directory that was found is part of the pattern that is searched for next.
        (choices inside).mapM fun choice =>
          findWithin? tree fuel (pathBelow d (start ++ choice ++ after)) sought
      some found.flatten.flatten

/-- After how many cuts in a row a search gives up. A cut around alternatives puts the path of a
directory into the pattern and is followed by at most as many cuts at slashes as there are bytes
then, so only directories whose names are patterns themselves can use this up. -/
def cutBound (tree : FileTree) (pattern : Text) : Nat :=
  let size := tree.nodes.foldl
    (fun n (path, _) => n + (Path.ofComponents true path).length) (pattern.length + 1)
  size * size

/-- The files of a tree that a pattern finds, by their paths; `none` when the pattern, or a part of
it that was looked at, is not well formed. -/
def find? (tree : FileTree) (pattern : Text) : Option (List Text) :=
  if isValid pattern then findWithin? tree (cutBound tree pattern) pattern .files else none

/-- The files below a directory that a pattern finds, by their paths from there. -/
def findBelow? (w : Workspace) (directory pattern : Text) : Option (List Text) :=
  find? (w.treeBelow directory) pattern

end CallConv.Glob
