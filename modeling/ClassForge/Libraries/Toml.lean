import ClassForge.Text.Basic

/-!
# TOML documents

A document is a list of expressions: tables are opened and keys are given
values in the order of the text. Numbers and times keep their spelling, since
only a reader that wants their value has to understand it.
-/

namespace ClassForge.Toml

inductive Value where
  | string (text : Text)
  /-- A whole number as it is spelt. -/
  | integer (literal : Text)
  | float (literal : Text)
  | bool (value : Bool)
  /-- A date, a time or both. -/
  | time (literal : Text)
  | array (items : List Value)
  /-- An inline table: values under dotted keys. -/
  | table (entries : List (List Text × Value))
  deriving Inhabited

inductive Expression where
  | assign (key : List Text) (value : Value)
  /-- A header `[key]`. -/
  | table (key : List Text)
  /-- A header `[[key]]`. -/
  | element (key : List Text)
  deriving Inhabited

inductive ReadFault where
  | keyStart (b : UInt8)
  | malformed
  deriving DecidableEq, Inhabited

def ReadFault.message : ReadFault → Text
  | keyStart b =>
    "invalid character at start of key: " ++ String.utf8EncodeChar (Char.ofNat b.toNat)
  | malformed => "malformed document"

structure Document where
  expressions : List Expression
  /-- Why the text could not be read to its end, if it could not. -/
  fault : Option ReadFault
  deriving Inhabited

/-! ## Whole numbers -/

/-- The digits of a number without the underscores between them; `fresh` says
that the byte before was none. -/
def digitsLoop : Text → (fresh : Bool) → (done : Text) → Option Text
  | [], fresh, done => if fresh then none else some done.reverse
  | b :: rest, fresh, done =>
    if b = 95 then if fresh then none else digitsLoop rest true done
    else digitsLoop rest false (b :: done)

def digits? (t : Text) : Option Text := digitsLoop t true []

def numberLoop (base : Nat) : Text → (n : Nat) → Option Nat
  | [], n => some n
  | b :: rest, n =>
    let d :=
      if 48 ≤ b && b ≤ 57 then b.toNat - 48
      else if 97 ≤ b && b ≤ 102 then b.toNat - 87
      else if 65 ≤ b && b ≤ 70 then b.toNat - 55
      else base
    if d < base then numberLoop base rest (n * base + d) else none

def number? (base : Nat) (t : Text) : Option Nat :=
  (digits? t).bind fun digits => numberLoop base digits 0

def decimal? (t : Text) : Option Nat :=
  match digits? t with
  | some (48 :: _ :: _) => none
  | some digits => numberLoop 10 digits 0
  | none => none

/-- The value of a whole number as it is spelt, in decimal or in a base that
its second character names. -/
def integer? : Text → Option Int
  | 43 :: t => (decimal? t).map Int.ofNat
  | 45 :: t => (decimal? t).map fun n => -(n : Int)
  | 48 :: 120 :: t => (number? 16 t).map Int.ofNat
  | 48 :: 111 :: t => (number? 8 t).map Int.ofNat
  | 48 :: 98 :: t => (number? 2 t).map Int.ofNat
  | t => (decimal? t).map Int.ofNat

end ClassForge.Toml
