import ClassForge.Failure

/-!
# Reports

Diagnostics laid out for a reader, with or without colour, and a reporter that
keeps what it has shown:

    error[E0902]: constant 300 for field big has no push encoding
     --> Big.json:3:5
     = help: ...
-/

namespace ClassForge

inductive Colour where
  | red
  | green
  | yellow
  | blue
  | cyan
  deriving DecidableEq

structure Style where
  ink : (bold : Bool) → Colour → Text → Text
  /-- The text of a collection, from the texts of its members. -/
  list : List Text → Text
  colours : Bool := false
  hints : Bool := true

namespace Style

def tint (s : Style) (bold : Bool) (colour : Colour) (text : Text) : Text :=
  if s.colours then s.ink bold colour text else text

def paint (s : Style) (colour : Colour) (text : Text) : Text := s.tint true colour text

def levelColour : Level → Colour
  | .error => .red
  | .warning => .yellow
  | .note => .blue
  | .help => .cyan
  | .other => .cyan

def remark (s : Style) (label text : Text) : Text :=
  " " ++ s.paint .cyan label ++ " " ++ text ++ "\n"

def diagnostic (s : Style) (d : Diagnostic) (cause : Option Failure) : Text :=
  let colour := levelColour d.level
  let code : Text := if d.code = [] then [] else s.paint colour ("[" ++ d.code ++ "]")
  let head := s.paint colour d.level.name ++ code ++ ": " ++ d.message ++ "\n"
  let place : Text :=
    if d.file = [] then []
    else
      let loc : Text :=
        if 0 < d.line then
          d.file ++ ":" ++ Text.ofInt d.line.toInt ++ ":" ++ Text.ofInt d.column.toInt
        else d.file
      " " ++ s.paint .cyan "-->" ++ " " ++ s.paint .cyan loc ++ "\n"
  let because : Text :=
    match cause with
    | some c => s.remark "= cause:" (c.message s.list)
    | none => []
  let help : Text := if s.hints then d.hints.flatMap (s.remark "= help:") else []
  head ++ place ++ because ++ help ++ d.notes.flatMap (s.remark "= note:")

def failure (s : Style) (f : Failure) : Text :=
  match f.diagnosis? with
  | some (d, cause) => s.diagnostic d cause
  | none => s.paint .red "error" ++ ": " ++ f.message s.list ++ "\n"

def countLine (n : Nat) : Text :=
  if n = 1 then "error: 1 error found" else "error: " ++ Text.ofNat n ++ " errors found"

def diagnostics (s : Style) (ds : List (Diagnostic × Option Failure)) : Text :=
  if ds.isEmpty then []
  else
    Text.join "\n" (ds.map fun (d, cause) => s.diagnostic d cause) ++
      "\n" ++ s.paint .red (countLine ds.length) ++ "\n"

end Style

structure Reporter where
  style : Style
  shown : Array (Diagnostic × Option Failure) := #[]

namespace Reporter

section
variable (style : Style)

/-- The diagnostic that stands for a failure that is no collection, with the
advice that belongs to its code if it brings none. -/
def entry (f : Failure) : Diagnostic × Option Failure :=
  let (d, cause) :=
    match f.diagnosis? with
    | some found => found
    | none => ({ code := [], message := f.message style.list }, none)
  (if d.hints.isEmpty then { d with hints := Code.suggestions d.code } else d, cause)

mutual

/-- The diagnostics that stand for a failure, one for each member that is no
collection, backwards in front of `done`. -/
def entries (f : Failure) (done : List (Diagnostic × Option Failure)) :
    List (Diagnostic × Option Failure) :=
  match f with
  | .many members => entriesOf members done
  | f => entry style f :: done

def entriesOf (fs : List Failure) (done : List (Diagnostic × Option Failure)) :
    List (Diagnostic × Option Failure) :=
  match fs with
  | [] => done
  | f :: rest => entriesOf rest (entries f done)

end

end

/-- Shows a failure, member by member if it is a collection; returns what was
written. -/
def report (r : Reporter) (f : Failure) : Text × Reporter :=
  let es := (entries r.style f []).reverse
  (es.flatMap fun e => r.style.diagnostic e.1 e.2, { r with shown := r.shown.appendList es })

def summary (r : Reporter) : Text :=
  if r.shown.isEmpty then [] else Style.countLine r.shown.size ++ "\n"

end Reporter

end ClassForge
