import ClassForge.ByteReader
import ClassForge.Pool

/-!
# Class files read back

Reads the class files that this library writes, and any other that keeps to the
same kinds of pool entries. Attributes stay as bytes, but for the code of a
method.
-/

namespace ClassForge

structure Attribute where
  name : Text
  data : Text
  deriving DecidableEq, Inhabited

namespace Attribute

def constantValue : Text := "ConstantValue"
def code : Text := "Code"
def lineNumberTable : Text := "LineNumberTable"
def stackMapTable : Text := "StackMapTable"
def sourceFile : Text := "SourceFile"

end Attribute

structure ParsedCode where
  maxStack : UInt16
  maxLocals : UInt16
  code : Text
  attributes : List Attribute
  deriving DecidableEq, Inhabited

structure ParsedMember where
  access : UInt16
  name : Text
  descriptor : Text
  attributes : List Attribute
  code : Option ParsedCode := none
  deriving DecidableEq, Inhabited

structure ParsedClass where
  minor : UInt16
  major : UInt16
  pool : Pool
  access : UInt16
  thisClass : UInt16
  superClass : UInt16
  fields : List ParsedMember
  methods : List ParsedMember
  attributes : List Attribute
  deriving Inhabited

namespace ParsedClass

open ByteReader

def numeral (n : Nat) : Text := Text.ofNat n

def readEntry (i : Nat) : ByteReader Entry := do
  let here : Text := "#" ++ numeral i
  let tag ← doing ("reading tag of " ++ here) u1
  match tag with
  | 1 =>
    let n ← doing ("reading length of " ++ here) u2
    return .utf8 (← doing ("reading utf8 " ++ here) (bytes n.toNat ended))
  | 3 => return .integer (← doing ("reading integer " ++ here) u4).toInt32
  | 7 => return .classRef (← doing ("reading class " ++ here) u2)
  | 12 =>
    let what : Text := "reading name_and_type " ++ here
    return .nameAndType (← doing what u2) (← doing what u2)
  | 9 =>
    let what : Text := "reading member ref " ++ here
    return .fieldref (← doing what u2) (← doing what u2)
  | 10 =>
    let what : Text := "reading member ref " ++ here
    return .methodref (← doing what u2) (← doing what u2)
  | tag =>
    fail ({ code := Code.unknownTag,
            message := "unknown constant pool tag " ++ numeral tag.toNat ++ " at " ++ here } :
      Diagnostic)

def poolLoop : (left i : Nat) → Pool → ByteReader Pool
  | 0, _, pool => fun t => .ok (pool, t)
  | left + 1, i, pool => fun t =>
    match readEntry i t with
    | .error e => .error e
    | .ok (e, rest) =>
      match pool.add e with
      | .ok (_, pool) => poolLoop left (i + 1) pool rest
      | .error r => .error r.failure

def readPool (count : UInt16) : ByteReader Pool := poolLoop (count.toNat - 1) 1 {}

/-- The text of a number, read without taking bytes. -/
def resolveText (pool : Pool) (index : UInt16) : ByteReader Text :=
  match pool.utf8 index with
  | .ok text => pure text
  | .error u => fail u.failure

def readAttribute (pool : Pool) (i : Nat) : ByteReader Attribute := do
  let here : Text := "attribute " ++ numeral i
  let index ← doing ("reading " ++ here ++ " name") u2
  let length ← doing ("reading " ++ here ++ " length") u4
  let name ← doing ("resolving " ++ here ++ " name") (resolveText pool index)
  let data ← bytes length.toNat fun rest =>
    .plain ("attribute " ++ name ++ " length " ++ numeral length.toNat ++
      " exceeds remaining " ++ numeral rest.length ++ " bytes")
  return ⟨name, data⟩

def readAttributes (pool : Pool) : ByteReader (List Attribute) := do
  let count ← doing "reading attributes count" u2
  times count.toNat 0 (readAttribute pool)

/-- Reads the contents of a `Code` attribute; bytes after them are ignored. -/
def readCode (pool : Pool) : ByteReader ParsedCode := do
  let maxStack ← doing "reading max_stack" u2
  let maxLocals ← doing "reading max_locals" u2
  let length ← doing "reading code_length" u4
  let code ← bytes length.toNat fun _ =>
    .plain ("code_length " ++ numeral length.toNat ++ " exceeds attribute size")
  let handlers ← doing "reading exception_table_length" u2
  skip (handlers.toNat * 8)
  let attributes ← readAttributes pool
  return { maxStack, maxLocals, code, attributes }

/-- The code of a member: the contents of its first `Code` attribute. -/
def codeOf (pool : Pool) (name : Text) (attributes : List Attribute) :
    Except Failure (Option ParsedCode) :=
  match attributes.find? (·.name = Attribute.code) with
  | none => .ok none
  | some a =>
    match readCode pool a.data with
    | .ok (code, _) => .ok (some code)
    | .error e => .error (.context ("parsing Code attribute for " ++ name) e)

/-- Reads member number `i`; `what` is `field` or `method`. -/
def readMember (pool : Pool) (what : Text) (i : Nat) : ByteReader ParsedMember := do
  let here : Text := what ++ " " ++ numeral i
  let access ← doing ("reading " ++ here ++ " access flags") u2
  let nameIndex ← doing ("reading " ++ here ++ " name index") u2
  let descriptorIndex ← doing ("reading " ++ here ++ " descriptor index") u2
  let name ← doing ("resolving " ++ here ++ " name") (resolveText pool nameIndex)
  let descriptor ← doing ("resolving " ++ here ++ " descriptor") (resolveText pool descriptorIndex)
  let attributes ← doing ("parsing " ++ what ++ " " ++ name ++ " attributes") (readAttributes pool)
  match codeOf pool name attributes with
  | .ok code => return { access, name, descriptor, attributes, code }
  | .error e => fail e

def readMembers (pool : Pool) (what : Text) : ByteReader (List ParsedMember) := do
  let count ← doing ("reading " ++ what ++ "s count") u2
  times count.toNat 0 (readMember pool what)

def readMagic : ByteReader Unit := do
  let magic ← doing "reading magic number" u4
  if magic = 0xCAFEBABE then return ()
  else
    fail (.plain ("invalid magic number: 0x" ++ Text.hexUpper 1 magic.toNat ++
      " (expected 0xCAFEBABE)"))

def read : ByteReader ParsedClass := do
  readMagic
  let minor ← doing "reading minor version" u2
  let major ← doing "reading major version" u2
  let count ← doing "reading constant pool count" u2
  let pool ← doing "parsing constant pool" (readPool count)
  let access ← doing "reading access flags" u2
  let thisClass ← doing "reading this_class" u2
  let superClass ← doing "reading super_class" u2
  let interfaces ← doing "reading interfaces count" u2
  skip (interfaces.toNat * 2)
  let fields ← readMembers pool "field"
  let methods ← readMembers pool "method"
  let attributes ← doing "parsing class attributes" (readAttributes pool)
  return {
    minor, major, pool := pool.freeze, access, thisClass, superClass, fields, methods, attributes }

def parse (data : Text) : Except Failure ParsedClass :=
  match read data with
  | .error e => .error e
  | .ok (c, []) => .ok c
  | .ok (_, rest) =>
    .error (.plain (numeral rest.length ++ " trailing bytes after class attributes"))

/-! ## Looking up -/

def thisName (c : ParsedClass) : Except Pool.Unresolved Text := c.pool.className c.thisClass

def superName (c : ParsedClass) : Except Pool.Unresolved Text := c.pool.className c.superClass

def findMethod? (c : ParsedClass) (name descriptor : Text) : Option ParsedMember :=
  c.methods.find? fun m => m.name = name && m.descriptor = descriptor

def findField? (c : ParsedClass) (name : Text) : Option ParsedMember :=
  c.fields.find? (·.name = name)

/-- The file named by the first `SourceFile` attribute of two bytes. -/
def sourceFile? (c : ParsedClass) : Option Text :=
  (c.attributes.findSome? fun a =>
    if a.name = Attribute.sourceFile then Text.word? a.data else none).bind fun index =>
      (c.pool.utf8 index).toOption

end ParsedClass

namespace ParsedMember

/-- The integer that a list of attributes gives a field: that of the first
`ConstantValue` of two bytes that points at one, unless an earlier one points
outside the pool. -/
def constantIn (pool : Pool) : List Attribute → Option Int32
  | [] => none
  | a :: rest =>
    if a.name = Attribute.constantValue then
      match Text.word? a.data with
      | none => constantIn pool rest
      | some index =>
        match pool.get? index with
        | none => none
        | some (.integer value) => some value
        | some _ => constantIn pool rest
    else constantIn pool rest

def constant? (m : ParsedMember) (pool : Pool) : Option Int32 := constantIn pool m.attributes

end ParsedMember

end ClassForge
