import ClassForge.Failure

/-!
# Reading bytes

A reader takes bytes off the front of a text and leaves the rest, or fails.
-/

namespace ClassForge

def ByteReader (α : Type) := Text → Except Failure (α × Text)

namespace ByteReader

instance : Monad ByteReader where
  pure x := fun t => .ok (x, t)
  bind r f := fun t =>
    match r t with
    | .ok (x, rest) => f x rest
    | .error e => .error e

def fail {α : Type} (e : Failure) : ByteReader α := fun _ => .error e

/-- The text ended: at once, or in the middle of what was read. -/
def ended (rest : Text) : Failure :=
  .plain (if rest.isEmpty then "EOF" else "unexpected EOF")

def u1 : ByteReader UInt8
  | b :: rest => .ok (b, rest)
  | rest => .error (ended rest)

def u2 : ByteReader UInt16
  | hi :: lo :: rest => .ok (Text.toU2 hi lo, rest)
  | rest => .error (ended rest)

def u4 : ByteReader UInt32
  | a :: b :: c :: d :: rest => .ok (Text.toU4 a b c d, rest)
  | rest => .error (ended rest)

def splitLoop : Nat → (rest done : Text) → Option (Text × Text)
  | 0, rest, done => some (done.reverse, rest)
  | _ + 1, [], _ => none
  | n + 1, b :: rest, done => splitLoop n rest (b :: done)

def split? (n : Nat) (t : Text) : Option (Text × Text) := splitLoop n t []

/-- Exactly `n` bytes; `short` says what to report when `rest` is too short. -/
def bytes (n : Nat) (short : (rest : Text) → Failure) : ByteReader Text := fun t =>
  match split? n t with
  | some found => .ok found
  | none => .error (short t)

def skip (n : Nat) : ByteReader Unit := fun t => .ok ((), t.drop n)

def doing {α : Type} (what : Text) (r : ByteReader α) : ByteReader α := fun t =>
  match r t with
  | .ok found => .ok found
  | .error e => .error (.context what e)

/-- The loop of `times`: `left` items to come, of which the first has number
`i`; `done` holds the items so far, backwards. -/
def timesLoop {α : Type} (item : Nat → ByteReader α) :
    (left i : Nat) → (done : List α) → ByteReader (List α)
  | 0, _, done => fun t => .ok (done.reverse, t)
  | left + 1, i, done => fun t =>
    match item i t with
    | .ok (x, rest) => timesLoop item left (i + 1) (x :: done) rest
    | .error e => .error e

def times {α : Type} (n start : Nat) (item : Nat → ByteReader α) : ByteReader (List α) :=
  timesLoop item n start []

end ByteReader

end ClassForge
