import Std.Data.TreeMap
import ClassForge.Storage

/-!
# File trees

A file system as a value: directories and files by the elements of their
absolute paths. The order of the tree is that of a listing, where a directory
stands in front of what it holds.
-/

namespace ClassForge

inductive FileNode where
  | directory
  /-- A file; `shared` says whether everyone may read it. -/
  | file (data : Text) (shared : Bool)
  deriving DecidableEq, Inhabited

/-- A file system. The root is a directory without an entry. -/
structure FileTree where
  nodes : Std.TreeMap (List Text) FileNode := ∅
  /-- The directory that relative paths start from. -/
  current : List Text := []
  deriving Inhabited

namespace FileTree

def ofCurrent (current : List Text) : FileTree where
  nodes := (List.range current.length).foldl
    (fun nodes k => nodes.insert (current.take (k + 1)) .directory) ∅
  current := current

def get? (t : FileTree) (place : List Text) : Option FileNode :=
  if place = [] then some .directory else t.nodes[place]?

def insert (t : FileTree) (place : List Text) (node : FileNode) : FileTree :=
  { t with nodes := t.nodes.insert place node }

def erase (t : FileTree) (place : List Text) : FileTree :=
  { t with nodes := t.nodes.erase place }

/-! ## Paths -/

def maxName : Nat := 255

def maxPath : Nat := 4096

/-- The place that elements of a path lead to from the place `here`, all of
which are directories. -/
def descend (t : FileTree) : List Text → (here : List Text) → Except FileReason (List Text)
  | parts, here =>
    match t.get? here with
    | none => .error .noEntry
    | some (.file _ _) => .error .notDirectory
    | some .directory =>
      match parts with
      | [] => .ok here
      | part :: rest =>
        if part = Text.ofString "." then t.descend rest here
        else if part = Text.ofString ".." then t.descend rest here.dropLast
        else if maxName < part.length then .error .nameTooLong
        else t.descend rest (here ++ [part])

inductive PathEnd where
  /-- A name in a directory; `slashed` says whether a slash stands behind it. -/
  | child (place : List Text) (slashed : Bool)
  /-- A directory, without a name of its own. -/
  | directory (place : List Text)
  deriving Inhabited

/-- What a path ends in. All that comes before has to be there. -/
def ending (t : FileTree) (path : Text) : Except FileReason PathEnd :=
  if path = [] then .error .noEntry
  else if path.contains 0 then .error .invalid
  else if maxPath ≤ path.length then .error .nameTooLong
  else
    let parts := (Text.splitAt Path.slash path).filter (· != [])
    match t.descend parts.dropLast (if Path.isAbsolute path then [] else t.current) with
    | .error r => .error r
    | .ok here =>
      match parts.getLast? with
      | none => .ok (.directory here)
      | some part =>
        if part = Text.ofString "." then .ok (.directory here)
        else if part = Text.ofString ".." then .ok (.directory here.dropLast)
        else .ok (.child (here ++ [part]) (Path.endsInSlash path))

def tooLong (place : List Text) : Bool := maxName < (place.getLastD []).length

inductive Target where
  | found (place : List Text) (node : FileNode)
  | absent (place : List Text)
  deriving Inhabited

/-- Where a path leads. Only a directory may have a slash behind it. -/
def locate (t : FileTree) (path : Text) : Except FileReason Target :=
  match t.ending path with
  | .error r => .error r
  | .ok (.directory place) => .ok (.found place .directory)
  | .ok (.child place slashed) =>
    if tooLong place then .error .nameTooLong
    else
      match t.get? place with
      | none => .ok (.absent place)
      | some .directory => .ok (.found place .directory)
      | some (.file data shared) =>
        if slashed then .error .notDirectory else .ok (.found place (.file data shared))

/-! ## Operations -/

def kindAt (t : FileTree) (path : Text) : Option FileKind :=
  match t.locate path with
  | .ok (.found _ .directory) => some .directory
  | .ok (.found _ (.file _ _)) => some .file
  | _ => none

def read (t : FileTree) (path : Text) : Except FileFault Text :=
  match t.locate path with
  | .error r => .error ⟨"open", path, r⟩
  | .ok (.absent _) => .error ⟨"open", path, .noEntry⟩
  | .ok (.found _ .directory) => .error ⟨"read", path, .isDirectory⟩
  | .ok (.found _ (.file data _)) => .ok data

/-- Writes a file. A path that ends in a slash is never that of a file. -/
def write (t : FileTree) (path data : Text) : Except FileFault FileTree :=
  match t.ending path with
  | .error r => .error ⟨"open", path, r⟩
  | .ok (.directory _) | .ok (.child _ true) => .error ⟨"open", path, .isDirectory⟩
  | .ok (.child place false) =>
    if tooLong place then .error ⟨"open", path, .nameTooLong⟩
    else
      match t.get? place with
      | some .directory => .error ⟨"open", path, .isDirectory⟩
      | some (.file _ shared) => .ok (t.insert place (.file data shared))
      | none => .ok (t.insert place (.file data true))

def makeDirectory (t : FileTree) (path : Text) : Except FileFault FileTree :=
  match t.ending path with
  | .error r => .error ⟨"mkdir", path, r⟩
  | .ok (.directory _) => .error ⟨"mkdir", path, .alreadyThere⟩
  | .ok (.child place _) =>
    if tooLong place then .error ⟨"mkdir", path, .nameTooLong⟩
    else if (t.get? place).isSome then .error ⟨"mkdir", path, .alreadyThere⟩
    else .ok (t.insert place .directory)

def firstTemp : Nat := 1000000000

/-- Creates a file for passing use under the first free number, of which
`tries` are tried. -/
def createTempFrom (t : FileTree) (dir base : Text) :
    (tries n : Nat) → Except FileFault (Text × FileTree)
  | 0, n => .error ⟨"open", Storage.tempPath dir base n, .alreadyThere⟩
  | tries + 1, n =>
    let path := Storage.tempPath dir base n
    match t.locate path with
    | .error r => .error ⟨"open", path, r⟩
    | .ok (.found _ _) => t.createTempFrom dir base tries (n + 1)
    | .ok (.absent place) => .ok (path, t.insert place (.file [] false))

def createTemp (t : FileTree) (dir base : Text) : Except FileFault (Text × FileTree) :=
  if base.contains Path.slash then
    .error ⟨"createtemp", "." ++ base ++ ".*.tmp", .other "pattern contains path separator"⟩
  else t.createTempFrom dir base (t.nodes.size + 1) firstTemp

def modifyFile (t : FileTree) (operation path : Text) (f : Text → Bool → FileNode) :
    Except FileFault FileTree :=
  match t.locate path with
  | .ok (.found place (.file data shared)) => .ok (t.insert place (f data shared))
  | .ok (.found _ .directory) => .error ⟨operation, path, .isDirectory⟩
  | .ok (.absent _) => .error ⟨operation, path, .noEntry⟩
  | .error r => .error ⟨operation, path, r⟩

/-- Moves a file. A directory is never replaced. -/
def rename (t : FileTree) (source target : Text) : Except FileFault FileTree :=
  let fault (r : FileReason) : FileFault := ⟨"rename", source ++ " " ++ target, r⟩
  match t.locate source with
  | .error r => .error (fault r)
  | .ok (.absent _) => .error (fault .noEntry)
  | .ok (.found place node) =>
    match t.locate target with
    | .error r => .error (fault r)
    | .ok (.found _ .directory) => .error (fault .alreadyThere)
    | .ok (.found goal (.file _ _)) => .ok ((t.erase place).insert goal node)
    | .ok (.absent goal) =>
      if Path.endsInSlash target then .error (fault .notDirectory)
      else .ok ((t.erase place).insert goal node)

def remove (t : FileTree) (path : Text) : FileTree :=
  match t.locate path with
  | .ok (.found place (.file _ _)) => t.erase place
  | _ => t

/-! ### Removing all -/

def prune (t : FileTree) (place : List Text) : FileTree :=
  { t with nodes := t.nodes.filter fun other _ => !place.isPrefixOf other }

def clear (t : FileTree) (place : List Text) : FileTree :=
  { t with nodes := t.nodes.filter fun other _ => !(place.isPrefixOf other && place != other) }

/-- Removes the entry `base` of the directory that `parent` names, with all that
it holds. A directory without a name of its own is emptied, and stays. -/
def removeEntry (t : FileTree) (parent base : Text) : FileTree × Option FileFault :=
  let fault (r : FileReason) : Option FileFault :=
    some ⟨"unlinkat", parent ++ Path.slash :: base, r⟩
  match t.locate parent with
  | .error .noEntry | .ok (.absent _) => (t, none)
  | .error r => (t, some ⟨"open", parent, r⟩)
  | .ok (.found _ (.file _ _)) => (t, fault (if base.contains 0 then .invalid else .notDirectory))
  | .ok (.found here .directory) =>
    if base = Text.ofString "." then (t.clear here, fault .invalid)
    else if base = Text.ofString ".." then (t.clear here.dropLast, fault .notEmpty)
    else if base.contains 0 then (t, fault .invalid)
    else if maxName < base.length then (t, fault .nameTooLong)
    else (t.prune (here ++ [base]), none)

/-- Removes what stands at a path, with all that it holds. Nothing need be there,
but a path whose last element is `.` is refused. -/
def removeAll (t : FileTree) (path : Text) : FileTree × Option FileFault :=
  if path = [] then (t, none)
  else if Path.endsInDot path then (t, some ⟨"RemoveAll", path, .invalid⟩)
  else
    match t.ending path with
    | .error .noEntry => (t, none)
    | _ =>
      let (parent, base) := Path.split path
      t.removeEntry parent base

/-- What lies below the current directory, by its path from there. -/
def entries (t : FileTree) : List (Text × FileNode) :=
  t.nodes.toList.filterMap fun (place, node) =>
    if t.current.isPrefixOf place && t.current.length < place.length then
      some (Text.join [Path.slash] (place.drop t.current.length), node)
    else none

/-! ## Storage -/

def run {α : Type} (op : FileTree → Except FileFault (α × FileTree)) :
    StateM FileTree (Except FileFault α) := fun t =>
  match op t with
  | .ok (a, t) => (.ok a, t)
  | .error f => (.error f, t)

def change (op : FileTree → Except FileFault FileTree) : StateM FileTree (Except FileFault Unit) :=
  run fun t => (op t).map fun t => ((), t)

instance : Storage (StateM FileTree) where
  workingDir := fun t => (Path.slash :: Text.join [Path.slash] t.current, t)
  kindAt path := fun t => (t.kindAt path, t)
  read path := fun t => (t.read path, t)
  write path data := change fun t => t.write path data
  makeDirectory path := change fun t => t.makeDirectory path
  createTemp dir base := run fun t => t.createTemp dir base
  fill path data :=
    change fun t => t.modifyFile "write" path fun old shared => .file (old ++ data) shared
  close path := change fun t => t.modifyFile "close" path .file
  share path := change fun t => t.modifyFile "chmod" path fun data _ => .file data true
  rename source target := change fun t => t.rename source target
  remove path := modify fun t => t.remove path

end FileTree

end ClassForge
