import ClassForge.Text.Basic

/-!
# Data without types

What a document says before anyone asks whether it fits: the two notations of
documents meet here. Reading goes *into* a value that is there already: what
the data does not mention stays as it is, which is how a key that comes twice
is understood. A list that is read again keeps what lies behind its new end, and
a longer list finds it there.
-/

namespace ClassForge

/-- A list with what was put out of sight behind its end. -/
structure Slots (α : Type) where
  shown : List α := []
  hidden : List α := []
  deriving Inhabited

def Slots.all {α} (s : Slots α) : List α := s.shown ++ s.hidden

inductive Datum where
  /-- Nothing is said. -/
  | null
  /-- Something is there, but it says nothing. -/
  | blank
  | int (n : Int)
  | text (t : Text)
  | list (items : List Datum)
  /-- Members by name, in order; names are in lower case. -/
  | record (members : List (Text × Datum))
  /-- A value that fits nowhere in a document. -/
  | unfit
  deriving Inhabited

namespace Datum

def readText (current : Text) : Datum → Option Text
  | .null | .blank => some current
  | .text t => some t
  | _ => none

def readInt64 (current : Int64) : Datum → Option Int64
  | .null | .blank => some current
  | .int n =>
    if -0x8000000000000000 ≤ n ∧ n < 0x8000000000000000 then some (Int64.ofInt n) else none
  | _ => none

def readInt32 (current : Int32) : Datum → Option Int32
  | .null | .blank => some current
  | .int n => if -0x80000000 ≤ n ∧ n < 0x80000000 then some (Int32.ofInt n) else none
  | _ => none

def readInt32? (current : Option Int32) : Datum → Option (Option Int32)
  | .null => some none
  | d => (readInt32 (current.getD 0) d).map some

/-- Reads items one after the other, each into the one that is in its place;
`done` holds those read so far, backwards. What no item was read into is put out
of sight. -/
def readItems {α} (fresh : α) (read : α → Datum → Option α) :
    (current : List α) → List Datum → (done : List α) → Option (Slots α)
  | current, [], done => some ⟨done.reverse, current⟩
  | current, d :: rest, done =>
    match read (current.headD fresh) d with
    | some a => readItems fresh read current.tail rest (a :: done)
    | none => none

/-- Reads a list. An empty list leaves nothing behind, in sight or not. -/
def readList {α} (fresh : α) (read : α → Datum → Option α) (current : Slots α) :
    Datum → Option (Slots α)
  | .null | .blank | .list [] => some {}
  | .list items => readItems fresh read current.all items []
  | _ => none

def readMembers {α} (readMember : α → Text → Datum → Option α) :
    (current : α) → List (Text × Datum) → Option α
  | current, [] => some current
  | current, (key, d) :: rest =>
    match readMember current key d with
    | some a => readMembers readMember a rest
    | none => none

def readRecord {α} (readMember : α → Text → Datum → Option α) (current : α) : Datum → Option α
  | .null | .blank => some current
  | .record members => readMembers readMember current members
  | _ => none

/-! ## Members -/

/-- A member that is always there. -/
def member (name : Text) (d : Datum) : List (Text × Datum) := [(name, d)]

def textMember (name t : Text) : List (Text × Datum) := if t = [] then [] else [(name, .text t)]

def intMember (name : Text) (n : Int) : List (Text × Datum) :=
  if n = 0 then [] else [(name, .int n)]

def listMember (name : Text) (items : List Datum) : List (Text × Datum) :=
  if items.isEmpty then [] else [(name, .list items)]

end Datum

structure Codec where
  encode : Datum → Text
  decode? : Text → Option Datum

end ClassForge
