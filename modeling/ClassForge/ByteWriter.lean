import ClassForge.Failure

/-!
# Writing bytes up to a limit

A write that would pass the limit is refused as a whole and remembered; from
then on nothing is written until the writer is reset.
-/

namespace ClassForge

structure ByteWriter where
  bytes : Array UInt8 := #[]
  limit : Option Nat := none
  /-- The length that the first refused write would have reached. -/
  refused : Option Nat := none
  deriving Inhabited

namespace ByteWriter

def codeLimit : Nat := 65535

def forCode : ByteWriter := { limit := some codeLimit }

def tooLong (n limit : Nat) : Diagnostic :=
  { code := Code.codeTooLong,
    message := "code length " ++ Text.ofNat n ++ " exceeds " ++ Text.ofNat limit ++ " bytes" }

def fits (w : ByteWriter) (n : Nat) : Bool :=
  match w.limit with
  | some limit => w.bytes.size + n ≤ limit
  | none => true

/-- Writes all of `chunk` or nothing. -/
def write (w : ByteWriter) (chunk : Text) : ByteWriter :=
  if w.refused.isSome then w
  else if w.fits chunk.length then { w with bytes := w.bytes.appendList chunk }
  else { w with refused := some (w.bytes.size + chunk.length) }

def u1 (w : ByteWriter) (v : UInt8) : ByteWriter := w.write [v]
def i1 (w : ByteWriter) (v : Int8) : ByteWriter := w.write [v.toUInt8]
def u2 (w : ByteWriter) (v : UInt16) : ByteWriter := w.write (Text.u2 v)
def u4 (w : ByteWriter) (v : UInt32) : ByteWriter := w.write (Text.u4 v)

def error? (w : ByteWriter) : Option Diagnostic :=
  match w.refused, w.limit with
  | some n, some limit => some (tooLong n limit)
  | _, _ => none

def reset (w : ByteWriter) : ByteWriter := { w with bytes := #[], refused := none }

end ByteWriter

end ClassForge
