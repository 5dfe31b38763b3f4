import CallConv.Text.Basic

/-!
# Paths

Paths are texts with slashes between their components. The functions here look at the text alone
and never at files: a path is made shorter by leaving out empty components and `.`, and by letting
`..` take away the component before it.
-/

namespace CallConv

namespace Path

/-- The component that stands for the directory itself. -/
def current : Text := utf8 "."

/-- The component that stands for the directory above. -/
def parent : Text := utf8 ".."

/-- Whether a path begins at the root. -/
def isAbsolute (p : Text) : Bool := p.head? == some Byte.slash

/-- The components of a path without the empty ones and `.`. -/
def components (p : Text) : List Text :=
  (p.splitAt Byte.slash).filter fun c => c ≠ [] ∧ c ≠ current

/-- The components so far, the last one first, with one more component. Above the root there is
only the root, and above the start of a relative path `..` has to stay. -/
def push (absolute : Bool) (stack : List Text) (c : Text) : List Text :=
  if c = parent then
    match stack with
    | [] => if absolute then [] else [parent]
    | top :: rest => if top = parent then parent :: top :: rest else rest
  else c :: stack

/-- The text of a path with the given components. -/
def ofComponents (absolute : Bool) (cs : List Text) : Text :=
  if absolute then Byte.slash :: Text.join [Byte.slash] cs
  else if cs = [] then current
  else Text.join [Byte.slash] cs

/-- The components of the shortest equivalent path. -/
def cleanComponents (p : Text) : List Text :=
  ((components p).foldl (push (isAbsolute p)) []).reverse

/-- The shortest equivalent path. -/
def clean (p : Text) : Text := ofComponents (isAbsolute p) (cleanComponents p)

/-- A path followed by another, cleaned; an empty path is left out. -/
def join (p q : Text) : Text :=
  if p = [] then (if q = [] then [] else clean q) else clean (p ++ Byte.slash :: q)

/-- The part of a path up to its last slash, which is included. -/
def untilLastSlash (p : Text) : Text := (p.reverse.dropWhile (· != Byte.slash)).reverse

/-- The directory of a path, cleaned. -/
def directory (p : Text) : Text := clean (untilLastSlash p)

/-- The last component of a path; `.` for the empty path and a slash for the root. -/
def base (p : Text) : Text :=
  if p = [] then current
  else
    let trimmed := p.reverse.dropWhile (· == Byte.slash)
    if trimmed = [] then [Byte.slash] else (trimmed.takeWhile (· != Byte.slash)).reverse

/-- The path from the root, when relative paths begin at the directory `cwd`. -/
def absolute (cwd p : Text) : Text := if isAbsolute p then clean p else join cwd p

/-- The starts of a list, the longest first and the empty one last. -/
def starts (cs : List Text) : List (List Text) :=
  (List.range (cs.length + 1)).reverse.map cs.take

/-- An absolute path and the directories above it, up to the root. -/
def ancestors (p : Text) : List Text := (starts (cleanComponents p)).map (ofComponents true)

end Path

end CallConv
