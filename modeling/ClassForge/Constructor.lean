import ClassForge.Instruction
import ClassForge.Skeleton

/-!
# Constructors

The code of the one method that gets code:

    aload_0
    invokespecial #1             the constructor of the super class
    aload_0                      and for each final
    iconst_<n> or bipush n
    putfield #ref
    return
-/

namespace ClassForge

namespace Instruction

def chunks : Instruction → List Text
  | simple op => [[op.opcode]]
  | bipush value => [[bipushOpcode], [value.toUInt8]]
  | member op index => [[op.opcode], Text.u2 index]

/-- The instruction that pushes `v`. Minus one is pushed as a byte like any other number
below zero; what is no signed byte has no instruction. -/
def push? (v : Int32) : Option Instruction :=
  if v = 0 then some (simple .iconst0)
  else if v = 1 then some (simple .iconst1)
  else if v = 2 then some (simple .iconst2)
  else if v = 3 then some (simple .iconst3)
  else if v = 4 then some (simple .iconst4)
  else if v = 5 then some (simple .iconst5)
  else if -128 ≤ v && v ≤ 127 then some (bipush v.toInt8)
  else none

end Instruction

structure Constructor where
  className : Text
  pos : Position
  superInit : UInt16
  codeName : UInt16
  lineTableName : UInt16
  finals : List (Final × UInt16)
  deriving Inhabited

namespace Constructor

def ofSkeleton (s : Skeleton) : Constructor where
  className := s.className
  pos := s.classPos
  superInit := s.superInit
  codeName := s.codeName
  lineTableName := s.lineTableName
  finals := s.finals.toList

def maxStack : UInt16 := 2
def maxLocals : UInt16 := 1

def noPush (f : Final) : Diagnostic :=
  { code := Code.noPushEncoding,
    message := "constant " ++ Text.ofInt f.value.toInt ++ " for field " ++ f.name ++
      " has no push encoding (bipush covers -128..127)" }

def writeInstruction (w : ByteWriter) (i : Instruction) : ByteWriter :=
  i.chunks.foldl ByteWriter.write w

def writeFinals : List (Final × UInt16) → ByteWriter → Option Diagnostic × ByteWriter
  | [], w => (none, w)
  | (f, ref) :: rest, w =>
    let w := writeInstruction w (.simple .aload0)
    match Instruction.push? f.value with
    | none => (some (noPush f), w)
    | some push =>
      writeFinals rest (writeInstruction (writeInstruction w push) (.member .putfield ref))

/-- The line that the table gives the constructor: that of the class if a table
can hold it, else one. -/
def tableLine (pos : Position) : UInt16 :=
  if pos.isValid && pos.line ≤ 65535 then UInt16.ofNat pos.line.toInt.toNat else 1

def tables (lineNumbers : Bool) (c : Constructor) : Option (List LineTable) :=
  if lineNumbers then some [⟨c.lineTableName, [⟨0, tableLine c.pos⟩]⟩] else none

/-- Writes the code with `w`, which is reset first, and gives the attribute. A
final that cannot be pushed is reported before code that is too long. -/
def emit (lineNumbers : Bool) (c : Constructor) (w : ByteWriter) :
    Except Diagnostic CodeAttribute × ByteWriter :=
  let w := w.reset
  let w := writeInstruction w (.simple .aload0)
  let w := writeInstruction w (.member .invokespecial c.superInit)
  match writeFinals c.finals w with
  | (some d, w) => (.error d, w)
  | (none, w) =>
    let w := writeInstruction w (.simple .ret)
    match w.error? with
    | some d => (.error d, w)
    | none =>
      (.ok {
        name := c.codeName, maxStack, maxLocals, code := w.bytes.toList,
        tables := c.tables lineNumbers }, w)

end Constructor

end ClassForge
