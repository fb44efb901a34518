import Std.Data.TreeMap
import ClassForge.Failure

/-!
# Constant pools

A pool is a list of entries numbered from one. Entries are only ever added at
the end, so a number once given stays with its entry; other entries and the
members of a class refer to them by number. `find` gives the first entry of a
text, as a scan from the front would.
-/

namespace ClassForge

inductive Entry where
  | utf8 (text : Text)
  | integer (value : Int32)
  | classRef (name : UInt16)
  | nameAndType (name descriptor : UInt16)
  | fieldref (owner member : UInt16)
  | methodref (owner member : UInt16)
  /-- A number without an entry. It has no tag and cannot be written. -/
  | vacant
  deriving DecidableEq, Inhabited

namespace Entry

def tag? : Entry → Option UInt8
  | utf8 _ => some 1
  | integer _ => some 3
  | classRef _ => some 7
  | fieldref _ _ => some 9
  | methodref _ _ => some 10
  | nameAndType _ _ => some 12
  | vacant => none

def tagText (e : Entry) : Text :=
  match e.tag? with
  | some tag => Text.ofNat tag.toNat
  | none => "-1"

end Entry

structure Pool where
  entries : Array Entry := #[]
  /-- The number of the first entry of each text. -/
  first : Std.TreeMap Text UInt16 := ∅
  frozen : Bool := false
  deriving Inhabited

namespace Pool

/-- The count in front of a pool is two bytes wide and one more than the
number of entries. -/
def capacity : Nat := 65534

inductive Refusal where
  | frozen
  | full
  deriving DecidableEq

def Refusal.failure : Refusal → Failure
  | .frozen => .plain "jvmgen: constant pool is frozen"
  | .full =>
    ({ code := Code.poolFull,
       message := "constant pool exceeds " ++ Text.ofNat capacity ++ " entries" } : Diagnostic)

def next (p : Pool) : UInt16 := UInt16.ofNat (p.entries.size + 1)

/-- The pool with one more entry, whether there is room or not. -/
def push (p : Pool) (e : Entry) : Pool :=
  match p with
  | ⟨entries, first, frozen⟩ =>
    let number := UInt16.ofNat (entries.size + 1)
    { entries := entries.push e,
      first :=
        match e with
        | .utf8 text => first.insertIfNew text number
        | _ => first,
      frozen }

def ofList (es : List Entry) : Pool := es.foldl push {}

def refusal? (p : Pool) : Option Refusal :=
  if p.frozen then some .frozen
  else if capacity ≤ p.entries.size then some .full
  else none

@[inline]
def add (p : Pool) (e : Entry) : Except Refusal (UInt16 × Pool) :=
  match p.refusal? with
  | some r => .error r
  | none => .ok (p.next, p.push e)

/-- The number of the first entry of `text`, or zero. -/
def find (p : Pool) (text : Text) : UInt16 := p.first[text]?.getD 0

def freeze (p : Pool) : Pool := { p with frozen := true }

def size (p : Pool) : Nat := p.entries.size

/-- The count that a class file states: one more than there are entries. -/
def count (p : Pool) : UInt16 := UInt16.ofNat (p.entries.size + 1)

def get? (p : Pool) (index : UInt16) : Option Entry :=
  if index = 0 then none else p.entries[index.toNat - 1]?

/-! ## Resolving references -/

inductive Unresolved where
  | outOfRange (index : UInt16)
  | mismatch (index : UInt16) (wanted : Text) (found : Entry)
  deriving DecidableEq

namespace Unresolved

def message : Unresolved → Text
  | outOfRange index => "constant pool index " ++ Text.ofNat index.toNat ++ " out of range"
  | mismatch index wanted found =>
    "constant pool index " ++ Text.ofNat index.toNat ++ ": expected " ++ wanted ++
      ", got tag " ++ found.tagText

def failure (u : Unresolved) : Failure := .plain u.message

end Unresolved

def entry (p : Pool) (index : UInt16) : Except Unresolved Entry :=
  match p.get? index with
  | some e => .ok e
  | none => .error (.outOfRange index)

def utf8 (p : Pool) (index : UInt16) : Except Unresolved Text := do
  match ← p.entry index with
  | .utf8 text => .ok text
  | e => .error (.mismatch index "Utf8" e)

def className (p : Pool) (index : UInt16) : Except Unresolved Text := do
  match ← p.entry index with
  | .classRef name => p.utf8 name
  | e => .error (.mismatch index "Class" e)

def nameAndType (p : Pool) (index : UInt16) : Except Unresolved (Text × Text) := do
  match ← p.entry index with
  | .nameAndType name descriptor => return (← p.utf8 name, ← p.utf8 descriptor)
  | e => .error (.mismatch index "NameAndType" e)

def memberRef (p : Pool) (index : UInt16) : Except Unresolved (Text × Text × Text) := do
  match ← p.entry index with
  | .fieldref owner member => return (← p.className owner, ← p.nameAndType member)
  | .methodref owner member => return (← p.className owner, ← p.nameAndType member)
  | e => .error (.mismatch index "Fieldref or Methodref" e)

end Pool

end ClassForge
