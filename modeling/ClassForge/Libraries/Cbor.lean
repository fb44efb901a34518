import ClassForge.Text.Basic

/-!
# Reading CBOR

Reading takes one data item off the front of a byte string. Lengths may be
given ahead or left open until a break, and arguments need not be short.
Arrays and maps nest at most 32 deep, and a tag directly inside a tag counts
as one more level.
-/

namespace ClassForge

inductive Cbor where
  | uint (n : Nat)
  /-- The number `-1 - n`. -/
  | nint (n : Nat)
  | bytes (data : Text)
  /-- A text string, which may come in chunks. -/
  | text (chunks : List Text)
  | array (items : List Cbor)
  | map (entries : List (Cbor × Cbor))
  | tag (number : Nat) (content : Cbor)
  /-- A simple value: 20 and 21 are the truth values, 22 is null and 23 is
  undefined. -/
  | simple (n : Nat)
  | float
  deriving Inhabited

namespace Cbor

/-- Arrays, maps and tags inside tags nest at most so deep. -/
def maxDepth : Nat := 32

/-- An array has at most so many items, and a map so many entries. -/
def maxItems : Nat := 131072

abbrev Reader := Text → Option (Cbor × Text)

/-! ## Heads -/

structure Head where
  major : Nat
  /-- The argument; `none` if the length is left open. -/
  argument : Option Nat
  long : Bool := false
  /-- Whether an argument in bytes of its own takes one byte only. -/
  single : Bool := false
  deriving DecidableEq, Inhabited

def number (data : Text) : Nat := data.foldl (fun n b => n * 256 + b.toNat) 0

def take? (n : Nat) (data : Text) : Option (Text × Text) :=
  let taken := data.take n
  if taken.length < n then none else some (taken, data.drop n)

def wideHead? (major width : Nat) (data : Text) : Option (Head × Text) :=
  (take? width data).map fun (digits, rest) =>
    (⟨major, some (number digits), true, width == 1⟩, rest)

/-- Takes a head off the front. Strings, arrays and maps may leave the length
open. -/
def head? : Text → Option (Head × Text)
  | [] => none
  | b :: rest =>
    let major := b.toNat / 32
    let info := b.toNat % 32
    if info < 24 then some (⟨major, some info, false, false⟩, rest)
    else if info = 24 then wideHead? major 1 rest
    else if info = 25 then wideHead? major 2 rest
    else if info = 26 then wideHead? major 4 rest
    else if info = 27 then wideHead? major 8 rest
    else if info = 31 && 2 ≤ major && major ≤ 5 then some (⟨major, none, false, false⟩, rest)
    else none

def startsTag : Text → Bool
  | b :: _ => b.toNat / 32 == 6
  | [] => false

/-! ## Contents -/

def breakByte : UInt8 := 0xff

def times (read : Reader) : (count : Nat) → Text → (done : List Cbor) → Option (List Cbor × Text)
  | 0, data, done => some (done.reverse, data)
  | count + 1, data, done =>
    match read data with
    | some (v, rest) => times read count rest (v :: done)
    | none => none

/-- Reads items up to a break, at most `limit` of them. -/
def untilBreak (read : Reader) :
    (limit : Nat) → Text → (done : List Cbor) → Option (List Cbor × Text)
  | 0, data, done =>
    match data with
    | b :: rest => if b = breakByte then some (done.reverse, rest) else none
    | [] => none
  | limit + 1, data, done =>
    match data with
    | [] => none
    | b :: rest =>
      if b = breakByte then some (done.reverse, rest)
      else
        match read (b :: rest) with
        | some (v, rest) => untilBreak read limit rest (v :: done)
        | none => none

def chunks (major : Nat) : (limit : Nat) → Text → (done : List Text) → Option (List Text × Text)
  | 0, _, _ => none
  | limit + 1, data, done =>
    match data with
    | [] => none
    | b :: rest =>
      if b = breakByte then some (done.reverse, rest)
      else
        match head? (b :: rest) with
        | some (⟨m, some size, _, _⟩, rest) =>
          if m = major then
            match take? size rest with
            | some (chunk, rest) => chunks major limit rest (chunk :: done)
            | none => none
          else none
        | _ => none

/-- Neighbours as entries; an item without a partner is refused. -/
def pairs? : List Cbor → (done : List (Cbor × Cbor)) → Option (List (Cbor × Cbor))
  | [], done => some done.reverse
  | [_], _ => none
  | k :: v :: rest, done => pairs? rest ((k, v) :: done)

def string? (major : Nat) (size : Option Nat) (data : Text) : Option (List Text × Text) :=
  match size with
  | some size => (take? size data).map fun (chunk, rest) => ([chunk], rest)
  | none => chunks major (data.length + 1) data []

/-- Items read with `read`, at most `limit` of them; the count may be open. -/
def items? (read : Reader) (limit : Nat) (count : Option Nat) (data : Text) :
    Option (List Cbor × Text) :=
  match count with
  | some count => if count ≤ limit then times read count data [] else none
  | none => untilBreak read limit data []

/-- A simple value or a number with a fraction. Simple values below 32 are
never written in two bytes. -/
def simple? (h : Head) : Option Cbor :=
  match h.argument with
  | none => none
  | some n =>
    if h.long then
      if h.single then if n < 32 then none else some (.simple n) else some .float
    else some (.simple n)

/-- An item whose head is `h` and which has no tag. What an array or a map
holds is read with `inner`; without it they are refused. -/
def untagged (inner : Option Reader) (h : Head) (data : Text) : Option (Cbor × Text) :=
  match h.major with
  | 0 => h.argument.map fun n => (.uint n, data)
  | 1 => h.argument.map fun n => (.nint n, data)
  | 2 => (string? 2 h.argument data).map fun (parts, rest) => (.bytes parts.flatten, rest)
  | 3 => (string? 3 h.argument data).map fun (parts, rest) => (.text parts, rest)
  | 4 =>
    inner.bind fun read =>
      (items? read maxItems h.argument data).map fun (items, rest) => (.array items, rest)
  | 5 =>
    inner.bind fun read =>
      (items? read (2 * maxItems) (h.argument.map (2 * ·)) data).bind fun (items, rest) =>
        (pairs? items []).map fun entries => (.map entries, rest)
  | 7 => (simple? h).map fun v => (v, data)
  | _ => none

def step (inner : Option Reader) : Reader := fun data =>
  (head? data).bind fun (h, rest) =>
    if h.major = 6 then
      h.argument.bind fun number =>
        let content :=
          if startsTag rest then inner.bind fun read => read rest
          else (head? rest).bind fun (h, rest) => untagged inner h rest
        content.map fun (v, rest) => (.tag number v, rest)
    else untagged inner h rest

/-- An item in which `depth` levels may still open. -/
def item : (depth : Nat) → Reader
  | 0 => step none
  | depth + 1 => step (some (item depth))

def parse? (data : Text) : Option Cbor :=
  match item maxDepth data with
  | some (v, []) => some v
  | _ => none

end Cbor

end ClassForge
