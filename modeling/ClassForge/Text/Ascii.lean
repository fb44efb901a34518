import ClassForge.Text.Basic

/-!
# ASCII bytes
-/

namespace ClassForge.Ascii

def tab : UInt8 := 9
def lineFeed : UInt8 := 10
def carriageReturn : UInt8 := 13
def space : UInt8 := 32
def quote : UInt8 := 34
def hash : UInt8 := 35
def apostrophe : UInt8 := 39
def plus : UInt8 := 43
def comma : UInt8 := 44
def minus : UInt8 := 45
def dot : UInt8 := 46
def zero : UInt8 := 48
def colon : UInt8 := 58
def equals : UInt8 := 61
def openBracket : UInt8 := 91
def backslash : UInt8 := 92
def closeBracket : UInt8 := 93
def underscore : UInt8 := 95
def openBrace : UInt8 := 123
def closeBrace : UInt8 := 125

def ofChar (c : Char) : UInt8 := c.toUInt8

def isDigit (b : UInt8) : Bool := 48 ≤ b && b ≤ 57

def isLetter (b : UInt8) : Bool := (65 ≤ b && b ≤ 90) || (97 ≤ b && b ≤ 122)

def isBlank (b : UInt8) : Bool := b = space || b = tab

/-- A control character other than a tab and the bytes that end a line. -/
def isControl (b : UInt8) : Bool :=
  (b < 32 && b != tab && b != lineFeed && b != carriageReturn) || b = 127

def hexDigit? (b : UInt8) : Option Nat :=
  if isDigit b then some (b.toNat - 48)
  else if 97 ≤ b && b ≤ 102 then some (b.toNat - 87)
  else if 65 ≤ b && b ≤ 70 then some (b.toNat - 55)
  else none

end ClassForge.Ascii
