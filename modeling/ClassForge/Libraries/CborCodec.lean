import ClassForge.Cbor
import ClassForge.Libraries.Cbor
import ClassForge.Text.Rune

/-!
# Data in CBOR

Of the entries of a map the first with a key counts, without regard to case;
entries with a number for a key are passed over. Tags add nothing to what they
tag, apart from those of big numbers.
-/

namespace ClassForge

namespace Datum

def utf8? (chunks : List Text) : Option Text :=
  if chunks.all Text.isUtf8 then some chunks.flatten else none

/-- What the key of an entry is: a name, or something to pass over; `none` is
a key that no map of a document may have. -/
def key? : Cbor → Option (Option Text)
  | .text chunks => (utf8? chunks).map some
  | .uint _ => some none
  | .nint n => if n < 0x8000000000000000 then some none else none
  | _ => none

/-- One more member in front of `done`, unless the name is there already. -/
def addMember (key : Text) (d : Datum) (done : List (Text × Datum)) : List (Text × Datum) :=
  if done.any (·.1 = key) then done else (key, d) :: done

/-- Whether a tag may stand in front of an item. Times are texts or numbers,
big numbers are byte strings. -/
def allows (tag : Nat) (content : Cbor) : Bool :=
  match tag, content with
  | 0, .text _ => true
  | 0, _ => false
  | 1, .uint _ | 1, .nint _ | 1, .float => true
  | 1, _ => false
  | 2, .bytes _ | 3, .bytes _ => true
  | 2, _ | 3, _ => false
  | _, _ => true

/-- Something that is there, whatever it says. -/
def present : Datum → Datum
  | .null => .blank
  | d => d

mutual

def ofCbor : Cbor → Datum
  | .uint n => .int n
  | .nint n => .int (-1 - n)
  | .bytes _ => .unfit
  | .text chunks =>
    match utf8? chunks with
    | some t => .text t
    | none => .unfit
  | .array items => .list (ofCborItems items [])
  | .map entries => ofCborEntries entries []
  | .tag number content =>
    if allows number content then
      match number, content with
      | 2, .bytes data => .int (Cbor.number data)
      | 3, .bytes data => .int (-1 - Cbor.number data)
      | _, content => (ofCbor content).present
    else .unfit
  | .simple n =>
    match n with
    | 20 | 21 => .unfit
    | 22 | 23 => .null
    | n => .int n
  | .float => .unfit

def ofCborItems : List Cbor → (done : List Datum) → List Datum
  | [], done => done.reverse
  | v :: rest, done => ofCborItems rest (ofCbor v :: done)

/-- The record of the entries of a map, behind the members `done`, which are
backwards. -/
def ofCborEntries : List (Cbor × Cbor) → (done : List (Text × Datum)) → Datum
  | [], done => .record done.reverse
  | (k, v) :: rest, done =>
    match key? k with
    | none => .unfit
    | some none => ofCborEntries rest done
    | some (some key) => ofCborEntries rest (addMember key.asciiLower (ofCbor v) done)

end

mutual

def writeTo : Datum → (done : Text) → Text
  | .null, done | .blank, done | .unfit, done => 0xf6 :: done
  | .int (.ofNat n), done => (Cbor.head 0 n).reverse ++ done
  | .int (.negSucc n), done => (Cbor.head 1 n).reverse ++ done
  | .text t, done => t.reverse ++ ((Cbor.head 3 t.length).reverse ++ done)
  | .list items, done => writeItems items ((Cbor.head 4 items.length).reverse ++ done)
  | .record members, done => writeMembers members ((Cbor.head 5 members.length).reverse ++ done)

def writeItems : List Datum → (done : Text) → Text
  | [], done => done
  | d :: rest, done => writeItems rest (writeTo d done)

def writeMembers : List (Text × Datum) → (done : Text) → Text
  | [], done => done
  | (key, d) :: rest, done =>
    writeMembers rest (writeTo d (key.reverse ++ ((Cbor.head 3 key.length).reverse ++ done)))

end

end Datum

def Codec.cbor : Codec where
  encode d := (d.sorted.writeTo []).reverse
  decode? data := (Cbor.parse? data).map Datum.ofCbor

end ClassForge
