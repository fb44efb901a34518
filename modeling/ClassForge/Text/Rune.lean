import ClassForge.Text.Basic

/-!
# Characters of a byte string

A byte string is read as UTF-8 one character at a time. A byte that starts no
character stands alone as a stray, so that reading loses nothing: the bytes of
the runes of a text are the text.
-/

namespace ClassForge

inductive Rune where
  /-- A character, written in its shortest form. -/
  | char (c : Char)
  /-- A byte at which no character starts. -/
  | stray (b : UInt8)
  deriving DecidableEq, Inhabited

namespace Rune

def replacement : Char := '\ufffd'

def bytes : Rune → Text
  | char c => String.utf8EncodeChar c
  | stray b => [b]

def toChar : Rune → Char
  | char c => c
  | stray _ => replacement

def isChar : Rune → Bool
  | char _ => true
  | stray _ => false

end Rune

namespace Text

/-- The character of code point `n`, if there is one and no shorter form than
the one in hand, which starts at `least`, can hold it. -/
def scalar? (least n : Nat) : Option Char :=
  if h : least ≤ n ∧ n.isValidChar then some (Char.ofNatAux n h.2) else none

/-- Whether a byte continues a character, and the six bits it brings. -/
def tail? (b : UInt8) : Option Nat :=
  if 0x80 ≤ b && b ≤ 0xBF then some (b.toNat - 0x80) else none

def single (a : UInt8) : Rune :=
  if a < 0x80 then .char (Char.ofUInt8 a) else .stray a

def char2? (a b : UInt8) : Option Char :=
  if 0xC2 ≤ a && a ≤ 0xDF then
    (tail? b).bind fun y => scalar? 0x80 ((a.toNat - 0xC0) * 64 + y)
  else none

def char3? (a b c : UInt8) : Option Char :=
  if 0xE0 ≤ a && a ≤ 0xEF then
    (tail? b).bind fun y => (tail? c).bind fun z =>
      scalar? 0x800 (((a.toNat - 0xE0) * 64 + y) * 64 + z)
  else none

def char4? (a b c d : UInt8) : Option Char :=
  if 0xF0 ≤ a && a ≤ 0xF4 then
    (tail? b).bind fun y => (tail? c).bind fun z => (tail? d).bind fun w =>
      scalar? 0x10000 ((((a.toNat - 0xF0) * 64 + y) * 64 + z) * 64 + w)
  else none

def runesLoop : Text → (done : List Rune) → List Rune
  | [], done => done.reverse
  | [a], done => (single a :: done).reverse
  | a :: b :: rest, done =>
    if a < 0x80 then runesLoop (b :: rest) (single a :: done)
    else
      match char2? a b with
      | some x => runesLoop rest (.char x :: done)
      | none =>
        match rest with
        | [] => runesLoop [b] (.stray a :: done)
        | c :: rest₂ =>
          match char3? a b c with
          | some x => runesLoop rest₂ (.char x :: done)
          | none =>
            match rest₂ with
            | [] => runesLoop [b, c] (.stray a :: done)
            | d :: rest₃ =>
              match char4? a b c d with
              | some x => runesLoop rest₃ (.char x :: done)
              | none => runesLoop (b :: c :: d :: rest₃) (.stray a :: done)

def runes (t : Text) : List Rune := runesLoop t []

/-- The text read as UTF-8, with the replacement character for each stray byte. -/
def chars (t : Text) : List Char := t.runes.map Rune.toChar

def ofChars (cs : List Char) : Text := cs.flatMap String.utf8EncodeChar

def isUtf8 (t : Text) : Bool := t.runes.all Rune.isChar

def width (t : Text) : Nat := t.runes.length

end Text

end ClassForge
