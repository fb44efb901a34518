import ClassForge.Json.Token

/-!
# Reading JSON

Tokens are put together to one value. The containers that are still open stand
in a list of frames, innermost first, so depth costs no stack.
-/

namespace ClassForge.Json

/-- An open container, with what it holds so far, backwards. -/
inductive Frame where
  | array (done : List Json)
  /-- An object that waits for the value of `key`. -/
  | object (done : List (List Char × Json)) (key : List Char)
  deriving Inhabited

/-- What may come next. -/
inductive Expect where
  | value
  /-- A value or the end of an array that has none yet. -/
  | firstItem
  /-- A key or the end of an object that has none yet. -/
  | firstKey
  /-- A key, with the members so far. -/
  | key (done : List (List Char × Json))
  | colon
  /-- A comma or the end of the innermost array. -/
  | afterItem
  /-- A comma or the end of an object with members `done`. -/
  | afterMember (done : List (List Char × Json))
  /-- Nothing: the value is complete. -/
  | finished (value : Json)
  deriving Inhabited

def complete (v : Json) : List Frame → Expect × List Frame
  | [] => (.finished v, [])
  | .array done :: frames => (.afterItem, .array (v :: done) :: frames)
  | .object done key :: frames => (.afterMember ((key, v) :: done), frames)

structure ParseState where
  expect : Expect := .value
  frames : List Frame := []
  depth : Nat := 0
  deriving Inhabited

namespace ParseState

def accept (s : ParseState) (v : Json) : ParseState :=
  let (expect, frames) := complete v s.frames
  { s with expect, frames }

def enter? (s : ParseState) (expect : Expect) (frames : List Frame) : Option ParseState :=
  if s.depth < maxDepth then some { expect, frames, depth := s.depth + 1 } else none

def leave (s : ParseState) (v : Json) (frames : List Frame) : ParseState :=
  accept { s with frames, depth := s.depth - 1 } v

def value? (s : ParseState) : Token → Option ParseState
  | .null => some (s.accept .null)
  | .bool b => some (s.accept (.bool b))
  | .number literal => some (s.accept (.number literal))
  | .string chars => some (s.accept (.string chars))
  | .openBracket => s.enter? .firstItem (.array [] :: s.frames)
  | .openBrace => s.enter? .firstKey s.frames
  | _ => none

def endArray? (s : ParseState) : Option ParseState :=
  match s.frames with
  | .array done :: frames => some (s.leave (.array done.reverse) frames)
  | _ => none

def step? (s : ParseState) (t : Token) : Option ParseState :=
  match s.expect, t with
  | .value, t => s.value? t
  | .firstItem, .closeBracket => s.endArray?
  | .firstItem, t => s.value? t
  | .firstKey, .closeBrace => some (s.leave (.object []) s.frames)
  | .firstKey, .string key => some { s with expect := .colon, frames := .object [] key :: s.frames }
  | .key done, .string key =>
    some { s with expect := .colon, frames := .object done key :: s.frames }
  | .colon, .colon => some { s with expect := .value }
  | .afterItem, .comma => some { s with expect := .value }
  | .afterItem, .closeBracket => s.endArray?
  | .afterMember done, .comma => some { s with expect := .key done }
  | .afterMember done, .closeBrace => some (s.leave (.object done.reverse) s.frames)
  | _, _ => none

end ParseState

def parseLoop : List Token → ParseState → Option Json
  | [], s =>
    match s.expect with
    | .finished v => some v
    | _ => none
  | t :: rest, s =>
    match s.step? t with
    | some s => parseLoop rest s
    | none => none

/-- The value that a text spells, with nothing around it but white space. -/
def parse? (cs : List Char) : Option Json := (tokens? cs).bind fun ts => parseLoop ts {}

end ClassForge.Json
