import ClassForge.Text.Rune
import ClassForge.Text.Printable

/-!
# Quoted text

Messages show foreign text between double quotes. A quote, a backslash and all
that is not printable is written as an escape, so that the quoted form is one
line of visible characters.
-/

namespace ClassForge.Text

def shortEscape? (c : Char) : Option Char :=
  match c.toNat with
  | 0x07 => some 'a'
  | 0x08 => some 'b'
  | 0x09 => some 't'
  | 0x0A => some 'n'
  | 0x0B => some 'v'
  | 0x0C => some 'f'
  | 0x0D => some 'r'
  | 0x22 => some '"'
  | 0x5C => some '\\'
  | _ => none

/-- A rune as it stands between quotes: a short escape, itself, or its number
in hexadecimal: two digits for a byte, four or eight for a character. -/
def quoteRune : Rune → Text
  | .stray b => "\\x" ++ hex 2 b.toNat
  | .char c =>
    match shortEscape? c with
    | some e => 0x5C :: String.utf8EncodeChar e
    | none =>
      if isPrintable c then String.utf8EncodeChar c
      else if c.toNat < 0x20 || c.toNat == 0x7F then "\\x" ++ hex 2 c.toNat
      else if c.toNat < 0x10000 then "\\u" ++ hex 4 c.toNat
      else "\\U" ++ hex 8 c.toNat

def quote (t : Text) : Text := "\"" ++ t.runes.flatMap quoteRune ++ "\""

end ClassForge.Text
