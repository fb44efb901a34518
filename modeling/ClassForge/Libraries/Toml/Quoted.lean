import ClassForge.Text.Ascii
import ClassForge.Text.Rune
import ClassForge.Libraries.Toml

/-!
# Strings of TOML

Each reader starts behind the opening quotes and gives the contents and what is
left behind the closing ones. The text between them has to be UTF-8 as it
stands. Between double quotes a backslash starts an escape; between single
quotes everything stands for itself. In a string of several lines up to two
quotes may stand in front of the closing ones, and a backslash at the end of a
line takes away all white space up to the next character.
-/

namespace ClassForge.Toml

open Ascii

def shortEscape? (b : UInt8) : Option UInt8 :=
  if b = quote || b = backslash then some b
  else if b = ofChar 'b' then some 8
  else if b = ofChar 'f' then some 12
  else if b = ofChar 'n' then some lineFeed
  else if b = ofChar 'r' then some carriageReturn
  else if b = ofChar 't' then some tab
  else if b = ofChar 'e' then some 27
  else none

def codePoint? (n : Nat) : Option Text := (Text.scalar? 0 n).map String.utf8EncodeChar

inductive Mode where
  | plain
  | escape
  /-- Inside an escape by number, with `left` digits to come. -/
  | number (left value : Nat)
  /-- In white space that a backslash takes away. -/
  | trim
  deriving DecidableEq, Inhabited

/-- What a byte of an escape leads to; `done` holds the contents so far,
backwards. -/
def escapeStep? (mode : Mode) (b : UInt8) (done : Text) : Option (Mode × Text) :=
  match mode with
  | .number left value =>
    (hexDigit? b).bind fun d =>
      let value := value * 16 + d
      if left ≤ 1 then (codePoint? value).map fun t => (.plain, t.reverse ++ done)
      else some (.number (left - 1) value, done)
  | _ =>
    if b = ofChar 'u' then some (.number 4 0, done)
    else if b = ofChar 'U' then some (.number 8 0, done)
    else (shortEscape? b).map fun x => (.plain, x :: done)

/-- What was read from the text, if the part of the text that it was read from
is UTF-8. -/
def fromUtf8? (t : Text) (read : Option (Text × Text)) : Option (Text × Text) :=
  match read with
  | some (contents, rest) =>
    if Text.isUtf8 (t.take (t.length - rest.length)) then some (contents, rest) else none
  | none => none

def basicLoop : Text → Mode → (done : Text) → Option (Text × Text)
  | [], _, _ => none
  | b :: rest, .plain, done =>
    if b = quote then some (done.reverse, rest)
    else if b = backslash then basicLoop rest .escape done
    else if isControl b || b = lineFeed || b = carriageReturn then none
    else basicLoop rest .plain (b :: done)
  | b :: rest, mode, done =>
    match escapeStep? mode b done with
    | some (mode, done) => basicLoop rest mode done
    | none => none

def basic? (t : Text) : Option (Text × Text) := fromUtf8? t (basicLoop t .plain [])

def literalLoop : Text → (done : Text) → Option (Text × Text)
  | [], _ => none
  | b :: rest, done =>
    if b = apostrophe then some (done.reverse, rest)
    else if isControl b || b = lineFeed || b = carriageReturn then none
    else literalLoop rest (b :: done)

def literal? (t : Text) : Option (Text × Text) := fromUtf8? t (literalLoop t [])

/-! ## Several lines -/

def triple? (q : UInt8) : Text → Option Text
  | a :: b :: c :: rest => if a = q && b = q && c = q then some rest else none
  | _ => none

/-- The end of a string of several lines, behind three quotes `q`: one or two
more belong to the contents. -/
def close? (q : UInt8) (done rest : Text) : Option (Text × Text) :=
  match rest with
  | [] => some (done.reverse, [])
  | a :: after =>
    if a != q then some (done.reverse, rest)
    else
      match after with
      | [] => some ((q :: done).reverse, [])
      | b :: after₂ =>
        if b != q then some ((q :: done).reverse, after)
        else
          match after₂ with
          | [] => some ((q :: q :: done).reverse, [])
          | c :: _ => if c = q then none else some ((q :: q :: done).reverse, after₂)

def startsLine : Text → Bool
  | a :: rest => a = lineFeed || (a = carriageReturn && rest.head? = some lineFeed)
  | [] => false

def dropLine (t : Text) : Text :=
  if startsLine t then if t.head? = some lineFeed then t.drop 1 else t.drop 2 else t

def multilineLoop : Text → Mode → (done : Text) → Option (Text × Text)
  | [], _, _ => none
  | b :: rest, .escape, done =>
    match escapeStep? .escape b done with
    | some (mode, done) => multilineLoop rest mode done
    | none => none
  | b :: rest, .number left value, done =>
    match escapeStep? (.number left value) b done with
    | some (mode, done) => multilineLoop rest mode done
    | none => none
  | b :: rest, mode, done =>
    if b = carriageReturn && rest.head? != some lineFeed then none
    else if mode = .trim && (isBlank b || b = lineFeed || b = carriageReturn) then
      multilineLoop rest .trim done
    else if b = quote then
      match triple? quote (b :: rest) with
      | some after => close? quote done after
      | none => multilineLoop rest .plain (b :: done)
    else if b = backslash then
      if startsLine (rest.dropWhile isBlank) then multilineLoop rest .trim done
      else multilineLoop rest .escape done
    else if isControl b then none
    else multilineLoop rest .plain (b :: done)

def multiline? (t : Text) : Option (Text × Text) :=
  fromUtf8? t (multilineLoop (dropLine t) .plain [])

def multilineLiteralLoop : Text → (done : Text) → Option (Text × Text)
  | [], _ => none
  | b :: rest, done =>
    if b = carriageReturn && rest.head? != some lineFeed then none
    else if b = apostrophe then
      match triple? apostrophe (b :: rest) with
      | some after => close? apostrophe done after
      | none => multilineLiteralLoop rest (b :: done)
    else if isControl b then none
    else multilineLiteralLoop rest (b :: done)

def multilineLiteral? (t : Text) : Option (Text × Text) :=
  fromUtf8? t (multilineLiteralLoop (dropLine t) [])

end ClassForge.Toml
