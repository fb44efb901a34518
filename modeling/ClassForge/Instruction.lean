import ClassForge.Text.Basic

/-!
# Instructions

The part of the JVM's instruction set that a constructor needs, as bytes and
back.
-/

namespace ClassForge

inductive Simple where
  | iconstM1
  | iconst0
  | iconst1
  | iconst2
  | iconst3
  | iconst4
  | iconst5
  | aload0
  | ret
  deriving DecidableEq, Inhabited

namespace Simple

def all : List Simple :=
  [iconstM1, iconst0, iconst1, iconst2, iconst3, iconst4, iconst5, aload0, ret]

def opcode : Simple → UInt8
  | iconstM1 => 0x02
  | iconst0 => 0x03
  | iconst1 => 0x04
  | iconst2 => 0x05
  | iconst3 => 0x06
  | iconst4 => 0x07
  | iconst5 => 0x08
  | aload0 => 0x2A
  | ret => 0xB1

def mnemonic : Simple → Text
  | iconstM1 => "iconst_m1"
  | iconst0 => "iconst_0"
  | iconst1 => "iconst_1"
  | iconst2 => "iconst_2"
  | iconst3 => "iconst_3"
  | iconst4 => "iconst_4"
  | iconst5 => "iconst_5"
  | aload0 => "aload_0"
  | ret => "return"

def ofByte? (b : UInt8) : Option Simple := all.find? (·.opcode = b)

end Simple

inductive MemberOp where
  | getfield
  | putfield
  | invokespecial
  deriving DecidableEq, Inhabited

namespace MemberOp

def all : List MemberOp := [getfield, putfield, invokespecial]

def opcode : MemberOp → UInt8
  | getfield => 0xB4
  | putfield => 0xB5
  | invokespecial => 0xB7

def mnemonic : MemberOp → Text
  | getfield => "getfield"
  | putfield => "putfield"
  | invokespecial => "invokespecial"

def ofByte? (b : UInt8) : Option MemberOp := all.find? (·.opcode = b)

end MemberOp

inductive Instruction where
  | simple (op : Simple)
  | bipush (value : Int8)
  | member (op : MemberOp) (index : UInt16)
  deriving DecidableEq, Inhabited

namespace Instruction

def bipushOpcode : UInt8 := 0x10

def bipushMnemonic : Text := "bipush"

def bytes : Instruction → Text
  | simple op => [op.opcode]
  | bipush value => [bipushOpcode, value.toUInt8]
  | member op index => op.opcode :: Text.u2 index

def mnemonic : Instruction → Text
  | simple op => op.mnemonic
  | bipush _ => bipushMnemonic
  | member op _ => op.mnemonic

end Instruction

inductive CodeItem where
  | instruction (i : Instruction)
  /-- A byte that is no opcode of the set. -/
  | unknown (opcode : UInt8)
  /-- An opcode whose operand runs past the end. -/
  | truncated (mnemonic : Text)
  deriving DecidableEq, Inhabited

namespace CodeItem

/-- The loop of `decode`: `pc` is the offset of the bytes at hand, and `done`
holds the items so far, backwards. -/
def decodeLoop (pc : Nat) : Text → (done : List (Nat × CodeItem)) → List (Nat × CodeItem)
  | [], done => done.reverse
  | b :: rest, done =>
    match Simple.ofByte? b with
    | some op => decodeLoop (pc + 1) rest ((pc, instruction (.simple op)) :: done)
    | none =>
      if b = Instruction.bipushOpcode then
        match rest with
        | [] => ((pc, truncated Instruction.bipushMnemonic) :: done).reverse
        | v :: rest => decodeLoop (pc + 2) rest ((pc, instruction (.bipush v.toInt8)) :: done)
      else
        match MemberOp.ofByte? b with
        | none => decodeLoop (pc + 1) rest ((pc, unknown b) :: done)
        | some op =>
          match rest with
          | hi :: lo :: rest =>
            decodeLoop (pc + 3) rest ((pc, instruction (.member op (Text.toU2 hi lo))) :: done)
          | _ => ((pc, truncated op.mnemonic) :: done).reverse

def decode (code : Text) : List (Nat × CodeItem) := decodeLoop 0 code []

end CodeItem

end ClassForge
