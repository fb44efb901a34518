import ClassForge.ByteWriter
import ClassForge.Pool

/-!
# Class files

A class file as a value, and its bytes. Counts are two bytes wide and are
written modulo 65536. A class file can be written unless a text or a code array
is too long for its length field, or the pool has a vacant number.
-/

namespace ClassForge

structure LineEntry where
  startPc : UInt16
  line : UInt16
  deriving DecidableEq, Inhabited

structure LineTable where
  name : UInt16
  entries : List LineEntry
  deriving DecidableEq, Inhabited

namespace LineTable

def length (t : LineTable) : UInt32 := 2 + 4 * UInt32.ofNat t.entries.length

def bytes (t : LineTable) : Text :=
  Text.u2 t.name ++ Text.u4 t.length ++ Text.u2 (UInt16.ofNat t.entries.length) ++
    t.entries.flatMap fun e => Text.u2 e.startPc ++ Text.u2 e.line

end LineTable

structure CodeAttribute where
  name : UInt16
  maxStack : UInt16
  maxLocals : UInt16
  code : Text
  /-- The tables inside; none while it is pending whether there are any. -/
  tables : Option (List LineTable) := none
  deriving DecidableEq, Inhabited

namespace CodeAttribute

def written (c : CodeAttribute) : List LineTable := c.tables.getD []

def pending (c : CodeAttribute) : Bool := c.tables.isNone

def count (c : CodeAttribute) : UInt16 := UInt16.ofNat c.written.length

def length (c : CodeAttribute) : UInt32 :=
  c.written.foldr (fun t n => 6 + t.length + n) (12 + UInt32.ofNat c.code.length)

def bytes (c : CodeAttribute) : Text :=
  Text.u2 c.name ++ Text.u4 c.length ++ Text.u2 c.maxStack ++ Text.u2 c.maxLocals ++
    Text.u4 (UInt32.ofNat c.code.length) ++ c.code ++ Text.u2 0 ++ Text.u2 c.count ++
    c.written.flatMap LineTable.bytes

end CodeAttribute

structure ConstantAttribute where
  name : UInt16
  value : UInt16
  deriving DecidableEq, Inhabited

structure FieldInfo where
  access : UInt16
  name : UInt16
  descriptor : UInt16
  constant : Option ConstantAttribute := none
  deriving DecidableEq, Inhabited

namespace FieldInfo

def bytes (f : FieldInfo) : Text :=
  Text.u2 f.access ++ Text.u2 f.name ++ Text.u2 f.descriptor ++
    match f.constant with
    | none => Text.u2 0
    | some c => Text.u2 1 ++ Text.u2 c.name ++ Text.u4 2 ++ Text.u2 c.value

end FieldInfo

structure MethodInfo where
  access : UInt16
  name : UInt16
  descriptor : UInt16
  code : Option CodeAttribute := none
  deriving DecidableEq, Inhabited

namespace MethodInfo

def bytes (m : MethodInfo) : Text :=
  Text.u2 m.access ++ Text.u2 m.name ++ Text.u2 m.descriptor ++
    match m.code with
    | none => Text.u2 0
    | some c => Text.u2 1 ++ c.bytes

end MethodInfo

structure SourceAttribute where
  name : UInt16
  file : UInt16
  deriving DecidableEq, Inhabited

def Access.package : UInt16 := 0x0000
def Access.isPublic : UInt16 := 0x0001
def Access.isFinal : UInt16 := 0x0010

structure ClassFile where
  magic : UInt32 := 0xCAFEBABE
  minor : UInt16 := 0
  major : UInt16 := 52
  pool : Pool
  access : UInt16 := Access.isPublic
  thisClass : UInt16 := 0
  superClass : UInt16 := 0
  fields : List FieldInfo := []
  methods : List MethodInfo := []
  source : SourceAttribute := ⟨0, 0⟩
  deriving Inhabited

/-- The bytes of a pool entry; a vacant number has none. -/
def Entry.bytes (e : Entry) : Text :=
  e.tag?.toList ++
    match e with
    | .utf8 text => Text.u2 (UInt16.ofNat text.length) ++ text
    | .integer value => Text.u4 value.toUInt32
    | .classRef name => Text.u2 name
    | .nameAndType name descriptor => Text.u2 name ++ Text.u2 descriptor
    | .fieldref owner member => Text.u2 owner ++ Text.u2 member
    | .methodref owner member => Text.u2 owner ++ Text.u2 member
    | .vacant => []

namespace ClassFile

inductive Obstacle where
  | vacantEntry
  | longText (length : Nat)
  | longCode (length : Nat)
  deriving DecidableEq

def Obstacle.diagnostic : Obstacle → Diagnostic
  | .vacantEntry =>
    { code := Code.unknownTag, message := "unknown constant pool tag -1 (<nil>)" }
  | .longText n =>
    { code := Code.textTooLong,
      message := "utf8 constant of " ++ Text.ofNat n ++ " bytes exceeds 65535" }
  | .longCode n => ByteWriter.tooLong n ByteWriter.codeLimit

def entryObstacle? : Entry → Option Obstacle
  | .utf8 text => if 65535 < text.length then some (.longText text.length) else none
  | .vacant => some .vacantEntry
  | _ => none

def methodObstacle? (m : MethodInfo) : Option Obstacle :=
  match m.code with
  | some c =>
    if ByteWriter.codeLimit < c.code.length then some (.longCode c.code.length) else none
  | none => none

def obstacle? (c : ClassFile) : Option Obstacle :=
  (c.pool.entries.toList.findSome? entryObstacle?).orElse fun _ =>
    c.methods.findSome? methodObstacle?

/-- The bytes of the file, as they are when there is no obstacle. -/
def bytes (c : ClassFile) : Text := List.flatten [
  Text.u4 c.magic, Text.u2 c.minor, Text.u2 c.major,
  Text.u2 c.pool.count, c.pool.entries.toList.flatMap Entry.bytes,
  Text.u2 c.access, Text.u2 c.thisClass, Text.u2 c.superClass,
  Text.u2 0,
  Text.u2 (UInt16.ofNat c.fields.length), c.fields.flatMap FieldInfo.bytes,
  Text.u2 (UInt16.ofNat c.methods.length), c.methods.flatMap MethodInfo.bytes,
  Text.u2 1, Text.u2 c.source.name, Text.u4 2, Text.u2 c.source.file]

def write (c : ClassFile) : Except Obstacle Text :=
  match c.obstacle? with
  | some o => .error o
  | none => .ok c.bytes

end ClassFile

end ClassForge
