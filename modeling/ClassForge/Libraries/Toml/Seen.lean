import ClassForge.Libraries.Toml

/-!
# Keys that a document has used

A key is given a value once, and a table is opened once. A table comes into
being when a header names it, when a longer header passes through it, or when
a dotted key does; the last kind is closed to dotted keys as soon as another
table is opened.
-/

namespace ClassForge.Toml

inductive SeenKind where
  | value
  | table
  /-- A list of tables. -/
  | elements
  deriving DecidableEq, Inhabited

structure Seen where
  kind : SeenKind := .table
  /-- Whether the table may not be opened or extended any more. -/
  closed : Bool := false
  /-- Whether a dotted key brought the table into being. -/
  dotted : Bool := false
  children : List (Text × Seen) := []
  deriving Inhabited

inductive Clash where
  /-- The key has a value or stands for a table. -/
  | defined (key : Text)
  /-- The key does not stand for a table that others could lie in. -/
  | noTable (key : Text) (found : SeenKind)
  /-- The table was opened by a header, or is closed to dotted keys. -/
  | closed (key : Text)
  /-- The key does not stand for a table that a header could open. -/
  | noHeader (key : Text) (found : SeenKind)
  /-- A header opened the table before. -/
  | opened (key : Text)
  /-- The key does not stand for a list of tables. -/
  | noElements (key : Text) (found : SeenKind)
  deriving DecidableEq, Inhabited

def SeenKind.name : SeenKind → Text
  | value => "value"
  | table => "table"
  | elements => "array table"

/-- The last of the messages names the kind first. -/
def Clash.message : Clash → Text
  | defined key => "key " ++ key ++ " is already defined"
  | noTable key found => "expected " ++ key ++ " to be a table, not a " ++ found.name
  | closed key =>
    "cannot redefine table " ++ key ++ " that has already been explicitly defined"
  | noHeader key found => "key " ++ key ++ " should be a table, not a " ++ found.name
  | opened key => "table " ++ key ++ " already exists"
  | noElements key found =>
    "key " ++ found.name ++ " already exists as a " ++ key ++ ",  but should be an array table"

namespace Seen

def get? (s : Seen) (key : Text) : Option Seen := s.children.lookup key

def setIn (key : Text) (child : Seen) : List (Text × Seen) → List (Text × Seen)
  | [] => [(key, child)]
  | (k, c) :: rest => if k = key then (k, child) :: rest else (k, c) :: setIn key child rest

def set (s : Seen) (key : Text) (child : Seen) : Seen :=
  { s with children := setIn key child s.children }

mutual

/-- Closes what dotted keys brought into being below. -/
def settle : Seen → Seen
  | ⟨kind, closed, dotted, children⟩ => ⟨kind, closed, dotted, settleAll children⟩

def settleAll : List (Text × Seen) → List (Text × Seen)
  | [] => []
  | (key, ⟨kind, closed, dotted, children⟩) :: rest =>
    (key, ⟨kind, closed || dotted, false, settleAll children⟩) :: settleAll rest

end

def modify (f : Seen → Seen) : List Text → Seen → Seen
  | [], s => f s
  | key :: path, s =>
    match s.get? key with
    | some child => s.set key (modify f path child)
    | none => s

/-- Opens the table or the list element of a header; refused if the key stands
for something else, or the table is closed. -/
def openHeader (element : Bool) : List Text → Seen → Except Clash Seen
  | [], s => .ok s
  | [key], s =>
    match s.get? key with
    | none => .ok (s.set key { kind := if element then .elements else .table, closed := true })
    | some child =>
      if element then
        if child.kind = .elements then .ok (s.set key { child with children := [] })
        else .error (.noElements key child.kind)
      else if child.kind != .table then .error (.noHeader key child.kind)
      else if child.closed then .error (.opened key)
      else .ok (s.set key { child with closed := true })
  | key :: path, s =>
    let child := (s.get? key).getD {}
    if child.kind = .value then .error (.noTable key child.kind)
    else (openHeader element path child).map (s.set key)

/-- Gives a key its value; refused if it has one, or if it passes through a
table that is closed. -/
def assign : List Text → Seen → Except Clash Seen
  | [], s => .ok s
  | [key], s =>
    match s.get? key with
    | none => .ok (s.set key { kind := .value, dotted := true })
    | some _ => .error (.defined key)
  | key :: path, s =>
    match s.get? key with
    | none => (assign path { dotted := true }).map (s.set key)
    | some child =>
      if child.kind != .table then .error (.noTable key child.kind)
      else if child.closed then .error (.closed key)
      else (assign path child).map (s.set key)

def tryModify (f : Seen → Except Clash Seen) : List Text → Seen → Except Clash Seen
  | [], s => f s
  | key :: path, s =>
    match s.get? key with
    | some child => (tryModify f path child).map (s.set key)
    | none => .ok s

end Seen

mutual

def Value.clash? : Value → Option Clash
  | .array items => itemsClash? items
  | .table entries => entriesClash? entries {}
  | _ => none

def itemsClash? : List Value → Option Clash
  | [] => none
  | v :: rest =>
    match v.clash? with
    | some c => some c
    | none => itemsClash? rest

def entriesClash? : List (List Text × Value) → Seen → Option Clash
  | [], _ => none
  | (key, v) :: rest, seen =>
    match seen.assign key with
    | .error c => some c
    | .ok seen =>
      match v.clash? with
      | some c => some c
      | none => entriesClash? rest seen

end

structure Used where
  root : Seen := {}
  current : List Text := []
  deriving Inhabited

namespace Used

/-- The keys after one more expression, unless it uses a key again. The key of
a value comes before the keys inside the value. -/
def add (u : Used) : Expression → Except Clash Used
  | .assign key v =>
    match Seen.tryModify (Seen.assign key) u.current u.root with
    | .error c => .error c
    | .ok root =>
      match v.clash? with
      | some c => .error c
      | none => .ok { u with root }
  | .table key =>
    (Seen.openHeader false key (u.root.modify Seen.settle u.current)).map (⟨·, key⟩)
  | .element key =>
    (Seen.openHeader true key (u.root.modify Seen.settle u.current)).map (⟨·, key⟩)

end Used

end ClassForge.Toml
