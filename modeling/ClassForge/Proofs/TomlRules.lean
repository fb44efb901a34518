import ClassForge.Settings

/-!
# What is relied on in a reader of TOML

A settings file is a row of lines: remarks, and keys with a truth value, a whole number or a
string in double quotes, the keys of the log behind a header. A string is a row of
characters that stand for themselves and of escapes. A reader of TOML changes settings line
by line, but refuses a file as a whole if it has an escape that is kept for later use.
-/

namespace ClassForge

namespace Toml

/-! ## Strings -/

inductive Piece where
  | plain (c : Char)
  /-- A backslash and a letter. -/
  | escape (letter : Char)
  /-- The number of a character, in four digits or in eight. -/
  | number (long : Bool) (c : Char)

namespace Piece

def text : Piece → Text
  | plain c => String.utf8EncodeChar c
  | escape letter => 0x5C :: String.utf8EncodeChar letter
  | number false c => "\\u" ++ Text.hex 4 c.toNat
  | number true c => "\\U" ++ Text.hex 8 c.toNat

def escapes : List (Char × Char) :=
  [('b', '\x08'), ('t', '\t'), ('n', '\n'), ('f', '\x0c'), ('r', '\r'), ('"', '"'), ('\\', '\\')]

/-- Letters whose escapes are kept for later use. -/
def reserved : List Char := ['a', 'v', 'x']

def fits : Piece → Bool
  | plain c => 0x20 ≤ c.toNat && c.toNat != 0x7F && c != '"' && c != '\\'
  | escape letter => (escapes.lookup letter).isSome || reserved.contains letter
  | number long c => long || c.toNat < 0x10000

def value? : Piece → Option Char
  | plain c => some c
  | escape letter => escapes.lookup letter
  | number _ c => some c

end Piece

/-- The contents of a string, unless it has a reserved escape. -/
def contents? (parts : List Piece) : Option Text := (parts.mapM Piece.value?).map Text.ofChars

/-! ## Lines -/

inductive Scalar where
  | flag (b : Bool)
  | number (n : Nat)
  | string (parts : List Piece)

namespace Scalar

def text : Scalar → Text
  | flag b => Text.ofBool b
  | number n => Text.ofNat n
  | string parts => "\"" ++ parts.flatMap Piece.text ++ "\""

def fits : Scalar → Bool
  | string parts => parts.all Piece.fits
  | _ => true

def spelled : Scalar → Bool
  | string parts => parts.all fun p => p.value?.isSome
  | _ => true

end Scalar

end Toml

namespace Settings

open Toml (Scalar)

def assign? (s : Settings) : Slot → Scalar → Option Settings
  | .debug, .flag debug => some { s with debug }
  | .outputDir, .string parts => (Toml.contents? parts).map fun outputDir => { s with outputDir }
  | .sourceExtension, .string parts =>
    (Toml.contents? parts).map fun sourceExtension => { s with sourceExtension }
  | .classExtension, .string parts =>
    (Toml.contents? parts).map fun classExtension => { s with classExtension }
  | .major, .number n => if n < 65536 then some { s with major := UInt16.ofNat n } else none
  | .minor, .number n => if n < 65536 then some { s with minor := UInt16.ofNat n } else none
  | .superClass, .string parts => (Toml.contents? parts).map fun superClass => { s with superClass }
  | .lineNumbers, .flag lineNumbers => some { s with lineNumbers }
  | .logLevel, .string parts => (Toml.contents? parts).map fun logLevel => { s with logLevel }
  | .logFormat, .string parts => (Toml.contents? parts).map fun logFormat => { s with logFormat }
  | _, _ => none

inductive Line where
  | blank
  | remark (words : Text)
  | setting (slot : Slot) (v : Scalar)

namespace Line

def text : Line → Text
  | blank => "\n"
  | remark words => "# " ++ words ++ "\n"
  | setting slot v => slot.key ++ " = " ++ v.text ++ "\n"

def fits : Line → Bool
  | blank => true
  | remark words => words.isUtf8 && words.all fun b => 0x20 ≤ b && b != 0x7F
  | setting _ v => v.fits

def spelled : Line → Bool
  | setting _ v => v.spelled
  | _ => true

def slot? : Line → Option Slot
  | setting slot _ => some slot
  | _ => none

def change? (s : Settings) : Line → Option Settings
  | setting slot v => s.assign? slot v
  | _ => some s

end Line

/-! ## Files -/

structure Layout where
  root : List Line
  log : List Line

namespace Layout

def text (l : Layout) : Text :=
  l.root.flatMap Line.text ++ "[log]\n" ++ l.log.flatMap Line.text

def lines (l : Layout) : List Line := l.root ++ l.log

/-- Every line is one of TOML, every key stands where it belongs, and no key comes twice. -/
structure WellFormed (l : Layout) : Prop where
  fits : ∀ line ∈ l.lines, line.fits = true
  root : ∀ slot ∈ l.root.filterMap Line.slot?, slot.inLog = false
  log : ∀ slot ∈ l.log.filterMap Line.slot?, slot.inLog = true
  once : (l.lines.filterMap Line.slot?).Nodup

end Layout

end Settings

open Settings in
/-- The rules of TOML that settings files depend on. -/
structure TomlReader.Rules (toml : TomlReader) : Prop where
  reads : ∀ (l : Layout) (s t : Settings), l.WellFormed → l.lines.foldlM Line.change? s = some t →
    toml l.text s = .ok t
  refuses : ∀ (l : Layout) (s : Settings), l.WellFormed → (∃ line ∈ l.lines, line.spelled = false) →
    ∃ why, toml l.text s = .error why

end ClassForge
