import ClassForge.Datum
import ClassForge.Json.Parser
import ClassForge.Json

/-!
# Data in JSON

Keys are taken without regard to case. Only whole numbers, strings, arrays and
objects can be part of a document.
-/

namespace ClassForge

namespace Datum

/-- A character of a key with its case taken away. Besides the capitals, the
long s and the Kelvin sign are cases of a letter. -/
def foldCase (c : Char) : Char :=
  if 'A' ≤ c && c ≤ 'Z' then Char.ofNat (c.toNat + 32)
  else if c = '\u017f' then 's'
  else if c = '\u212a' then 'k'
  else c

def foldKey (key : List Char) : Text := Text.ofChars (key.map foldCase)

def decimal (digits : List Char) : Nat := digits.foldl (fun n c => n * 10 + (c.toNat - 48)) 0

/-- The value of a number literal that has neither a fraction nor an exponent. -/
def whole? (literal : List Char) : Option Int :=
  match literal with
  | '-' :: digits => if digits.all Char.isDigit then some (-(decimal digits : Int)) else none
  | digits => if digits.all Char.isDigit then some (decimal digits) else none

mutual

def ofJson : Json → Datum
  | .null => .null
  | .bool _ => .unfit
  | .number literal =>
    match whole? literal with
    | some n => .int n
    | none => .unfit
  | .string chars => .text (Text.ofChars chars)
  | .array items => .list (ofJsonItems items [])
  | .object members => .record (ofJsonMembers members [])

def ofJsonItems : List Json → (done : List Datum) → List Datum
  | [], done => done.reverse
  | v :: rest, done => ofJsonItems rest (ofJson v :: done)

def ofJsonMembers : List (List Char × Json) → (done : List (Text × Datum)) → List (Text × Datum)
  | [], done => done.reverse
  | (key, v) :: rest, done => ofJsonMembers rest ((foldKey key, ofJson v) :: done)

end

mutual

def toJson : Datum → Json
  | .null | .blank | .unfit => .null
  | .int n => .number (Text.ofInt n).chars
  | .text t => .string t.chars
  | .list items => .array (toJsonItems items [])
  | .record members => .object (toJsonMembers members [])

def toJsonItems : List Datum → (done : List Json) → List Json
  | [], done => done.reverse
  | d :: rest, done => toJsonItems rest (toJson d :: done)

def toJsonMembers : List (Text × Datum) → (done : List (List Char × Json)) →
    List (List Char × Json)
  | [], done => done.reverse
  | (key, d) :: rest, done => toJsonMembers rest ((key.chars, toJson d) :: done)

end

end Datum

def Codec.json : Codec where
  encode d := Text.ofChars d.toJson.text
  decode? data := (Json.parse? data.chars).map Datum.ofJson

end ClassForge
