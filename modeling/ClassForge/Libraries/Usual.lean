import ClassForge.Command
import ClassForge.Libraries.CborCodec
import ClassForge.Libraries.TomlSettings

/-!
# The libraries that the program runs with
-/

namespace ClassForge

namespace Colour

def code : Colour → Text
  | red => "31"
  | green => "32"
  | yellow => "33"
  | blue => "34"
  | cyan => "36"

def ink (bold : Bool) (colour : Colour) (text : Text) : Text :=
  "\x1b[" ++ colour.code ++ (if bold then ";1m" else "m") ++ text ++ "\x1b[0m"

end Colour

def Severity.parse? (word : Text) : Option Severity :=
  if word = Text.ofString "warning" then some warn else all.find? (·.name = word)

namespace Libraries

def listText (texts : List Text) : Text :=
  let count : Text :=
    match texts with
    | [_] => "1 error occurred:"
    | _ => Text.ofNat texts.length ++ " errors occurred:"
  count ++ "\n\t" ++ Text.join "\n\t" (texts.map fun t => "* " ++ t) ++ "\n\n"

def usual : Libraries where
  cbor := .cbor
  toml := Toml.reader
  level? := Severity.parse?
  ink := Colour.ink
  list := listText

end Libraries

end ClassForge
