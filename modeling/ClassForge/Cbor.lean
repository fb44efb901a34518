import ClassForge.Datum

/-!
# Data in canonical CBOR

Every data item starts with a head: a major type and an argument in the fewest
bytes that hold it. Every length is given ahead of what it counts. A map has
short keys first, and keys of one length in byte order.
-/

namespace ClassForge

namespace Cbor

/-- The last `width` bytes of a number, most significant first. -/
def bigEndian : (width : Nat) → (n : Nat) → Text
  | 0, _ => []
  | width + 1, n => UInt8.ofNat (n >>> (8 * width)) :: bigEndian width n

def head (major n : Nat) : Text :=
  if n < 24 then [UInt8.ofNat (major * 32 + n)]
  else if n < 0x100 then UInt8.ofNat (major * 32 + 24) :: bigEndian 1 n
  else if n < 0x10000 then UInt8.ofNat (major * 32 + 25) :: bigEndian 2 n
  else if n < 0x100000000 then UInt8.ofNat (major * 32 + 26) :: bigEndian 4 n
  else UInt8.ofNat (major * 32 + 27) :: bigEndian 8 n

end Cbor

namespace Datum

mutual

def bytes : Datum → Text
  | .null | .blank | .unfit => [0xf6]
  | .int (.ofNat n) => Cbor.head 0 n
  | .int (.negSucc n) => Cbor.head 1 n
  | .text t => Cbor.head 3 t.length ++ t
  | .list items => Cbor.head 4 items.length ++ itemBytes items
  | .record members => Cbor.head 5 members.length ++ memberBytes members

def itemBytes : List Datum → Text
  | [] => []
  | d :: rest => bytes d ++ itemBytes rest

def memberBytes : List (Text × Datum) → Text
  | [] => []
  | (key, d) :: rest => Cbor.head 3 key.length ++ key ++ bytes d ++ memberBytes rest

end

/-! ## The order of keys -/

def keyBefore (a b : Text) : Bool :=
  a.length < b.length || (a.length == b.length && a ≤ b)

def insertMember (m : Text × Datum) : List (Text × Datum) → List (Text × Datum)
  | [] => [m]
  | n :: rest => if keyBefore m.1 n.1 then m :: n :: rest else n :: insertMember m rest

mutual

/-- The data with the members of all records in the order of their keys. -/
def sorted : Datum → Datum
  | .list items => .list (sortedItems items [])
  | .record members => .record ((sortedMembers members []).foldr insertMember [])
  | d => d

def sortedItems : List Datum → (done : List Datum) → List Datum
  | [], done => done.reverse
  | d :: rest, done => sortedItems rest (sorted d :: done)

def sortedMembers : List (Text × Datum) → (done : List (Text × Datum)) → List (Text × Datum)
  | [], done => done.reverse
  | (key, d) :: rest, done => sortedMembers rest ((key, sorted d) :: done)

end

end Datum

end ClassForge
