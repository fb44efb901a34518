import ClassForge.Text.Basic

/-!
# Paths

Slash-separated paths, worked on as text: nothing here looks at a file system.
`clean` gives the shortest path that names the same place when no directory is
a link; `join`, `dir` and `base` take paths apart and put them together.
-/

namespace ClassForge.Path

def slash : UInt8 := 47

def isAbsolute : Text → Bool
  | b :: _ => b = slash
  | [] => false

/-- One step of `cleanParts`: `kept` holds the elements kept so far,
backwards. Empty elements and `.` vanish; `..` takes back the element before
it, stays at the start of a relative path, and vanishes at the root. -/
def cleanStep (rooted : Bool) (kept : List Text) (part : Text) : List Text :=
  if part = [] || part = Text.ofString "." then kept
  else if part = Text.ofString ".." then
    match kept with
    | [] => if rooted then [] else [part]
    | last :: before => if last = part then part :: last :: before else before
  else part :: kept

def cleanParts (rooted : Bool) (parts : List Text) : List Text :=
  (parts.foldl (cleanStep rooted) []).reverse

/-- The shortest equivalent path; `.` for the empty path. -/
def clean (path : Text) : Text :=
  let rooted := isAbsolute path
  let body := Text.join [slash] (cleanParts rooted (Text.splitAt slash path))
  if rooted then slash :: body
  else if body = [] then "."
  else body

/-- Joins elements with slashes and cleans the result. Leading empty elements
are dropped, and nothing joined is the empty path. -/
def join (parts : List Text) : Text :=
  match parts.dropWhile List.isEmpty with
  | [] => []
  | rest => clean (Text.join [slash] rest)

def upToSlash (path : Text) : Text :=
  (path.reverse.dropWhile (· != slash)).reverse

def afterSlash (path : Text) : Text :=
  (path.reverse.takeWhile (· != slash)).reverse

def dir (path : Text) : Text := clean (upToSlash path)

/-- The last element: `.` for the empty path, `/` for slashes alone. -/
def base (path : Text) : Text :=
  if path = [] then "."
  else
    match afterSlash (path.reverse.dropWhile (· = slash)).reverse with
    | [] => [slash]
    | name => name

/-- The ending of the last element from its last dot on, if it has a dot. -/
def ext (path : Text) : Text :=
  let name := (afterSlash path).reverse
  match name.dropWhile (· != 46) with
  | [] => []
  | dot :: _ => dot :: (name.takeWhile (· != 46)).reverse

def endsInSlash (path : Text) : Bool := path.getLast? = some slash

def endsInDot (path : Text) : Bool := afterSlash path = Text.ofString "."

/-- The path without superfluous slashes at its ends; only a path of slashes
alone keeps one. -/
def trim (path : Text) : Text :=
  match (path.reverse.dropWhile (· = slash)).reverse with
  | [] => [slash]
  | name => if isAbsolute name then slash :: name.dropWhile (· = slash) else name

def split (path : Text) : Text × Text :=
  let path := trim path
  match upToSlash path with
  | [] => (".", path)
  | [b] => if path = [b] then (".", path) else ([b], afterSlash path)
  | front => (front.dropLast, afterSlash path)

/-! ## Ancestors -/

def beforeLast (path : Text) : Text :=
  (path.reverse.dropWhile (· = slash)).dropWhile (· != slash)

theorem length_beforeLast_le (path : Text) : (beforeLast path).length ≤ path.length := by
  have h₁ := (List.dropWhile_suffix (· = slash) : List.dropWhile _ path.reverse <:+ _).length_le
  have h₂ := (List.dropWhile_suffix (· != slash) :
    List.dropWhile _ (path.reverse.dropWhile (· = slash)) <:+ _).length_le
  simp only [List.length_reverse] at h₁
  exact Nat.le_trans h₂ h₁

/-- The path without its last element and the slash in front of that, as it is
written; empty if nothing but a slash would be left. -/
def parent (path : Text) : Text :=
  if 1 < (beforeLast path).length then ((beforeLast path).drop 1).reverse else []

theorem length_parent_lt (path : Text) (h : parent path ≠ []) :
    (parent path).length < path.length := by
  have hle := length_beforeLast_le path
  unfold parent at h ⊢
  split at h
  · rename_i hlt
    simp only [hlt, if_true, List.length_reverse, List.length_drop]
    omega
  · exact absurd rfl h

/-- The path and those that it lies in, as they are written, the innermost
first. -/
def lineage (path : Text) : List Text :=
  if _h : parent path = [] then [path] else path :: lineage (parent path)
termination_by path.length
decreasing_by exact length_parent_lt path _h

/-- The directories from `dir`, an absolute path without superfluous parts, up
to the root. -/
def upward (dir : Text) : List Text :=
  let parts := (Text.splitAt slash dir).filter (· != [])
  (List.range (parts.length + 1)).map fun k =>
    slash :: Text.join [slash] (parts.take (parts.length - k))

end ClassForge.Path
