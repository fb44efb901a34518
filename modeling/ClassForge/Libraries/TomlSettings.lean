import ClassForge.Settings
import ClassForge.Libraries.Toml.Parser
import ClassForge.Libraries.Toml.Seen

/-!
# Reading settings from TOML

A settings file changes settings key by key. Keys are taken without
regard to case, and keys that mean nothing here are passed over, but a key that
is known must have a value that fits.
-/

namespace ClassForge

namespace Settings

namespace Slot

def ofKey? (key : Text) : Option Slot :=
  if key = Text.ofString "debug" then some debug
  else if key = Text.ofString "output_dir" then some outputDir
  else if key = Text.ofString "source_extension" then some sourceExtension
  else if key = Text.ofString "class_extension" then some classExtension
  else if key = Text.ofString "major_version" then some major
  else if key = Text.ofString "minor_version" then some minor
  else if key = Text.ofString "super_class" then some superClass
  else if key = Text.ofString "line_numbers" then some lineNumbers
  else none

def ofLogKey? (key : Text) : Option Slot :=
  if key = Text.ofString "level" then some logLevel
  else if key = Text.ofString "format" then some logFormat
  else none

def kind : Slot → Text
  | debug | lineNumbers => "bool"
  | major | minor => "uint16"
  | _ => "string"

end Slot

inductive Place where
  | root
  | log
  | slot (s : Slot)
  deriving DecidableEq, Inhabited

inductive Fault where
  | malformed (f : Toml.ReadFault)
  | clash (c : Toml.Clash)
  | unfit
  /-- A key goes on below a setting of this kind. -/
  | tooDeep (kind : Text)
  deriving DecidableEq

def Fault.message : Fault → Text
  | malformed f => "toml: " ++ f.message
  | clash c => "toml: " ++ c.message
  | unfit => "toml: value does not fit its key"
  | tooDeep kind => "unhandled kv part: " ++ kind

namespace Place

/-- The place of a key below a place: `none` if the key means nothing. -/
def enter (p : Place) (key : Text) : Except Fault (Option Place) :=
  let key := key.lower
  match p with
  | root =>
    if key = Text.ofString "log" then .ok (some log) else .ok ((Slot.ofKey? key).map slot)
  | log => .ok ((Slot.ofLogKey? key).map slot)
  | slot s => .error (.tooDeep s.kind)

def follow : List Text → Place → Except Fault (Option Place)
  | [], p => .ok (some p)
  | key :: path, p =>
    match p.enter key with
    | .ok (some p) => follow path p
    | other => other

end Place

def word? (literal : Text) : Option UInt16 :=
  match Toml.integer? literal with
  | some n => if 0 ≤ n ∧ n < 65536 then some (UInt16.ofNat n.toNat) else none
  | none => none

def set? (s : Settings) : Slot → Toml.Value → Option Settings
  | .debug, .bool debug => some { s with debug }
  | .outputDir, .string outputDir => some { s with outputDir }
  | .sourceExtension, .string sourceExtension => some { s with sourceExtension }
  | .classExtension, .string classExtension => some { s with classExtension }
  | .major, .integer literal => (word? literal).map fun major => { s with major }
  | .minor, .integer literal => (word? literal).map fun minor => { s with minor }
  | .superClass, .string superClass => some { s with superClass }
  | .lineNumbers, .bool lineNumbers => some { s with lineNumbers }
  | .logLevel, .string logLevel => some { s with logLevel }
  | .logFormat, .string logFormat => some { s with logFormat }
  | _, _ => none

/-- The settings with the value at a place below `p` changed. Only the table of
the log takes a table. -/
def setBelow (p : Place) (s : Settings) (key : List Text) (v : Toml.Value) :
    Except Fault Settings :=
  match Place.follow key p with
  | .error f => .error f
  | .ok none => .ok s
  | .ok (some (.slot slot)) => (s.set? slot v).elim (.error .unfit) .ok
  | .ok (some _) =>
    match v with
    | .table entries => entries.foldlM (fun s (key, v) => setInLog s key v) s
    | _ => .error .unfit
where
  setInLog (s : Settings) (key : List Text) (v : Toml.Value) : Except Fault Settings :=
    match Place.follow key .log with
    | .error f => .error f
    | .ok (some (.slot slot)) => (s.set? slot v).elim (.error .unfit) .ok
    | .ok _ => .ok s

structure Reading where
  settings : Settings
  used : Toml.Used := {}
  /-- The place of the open table; `none` if the table means nothing here. -/
  place : Option Place := some .root

namespace Reading

def use (r : Reading) (e : Toml.Expression) : Except Fault Toml.Used :=
  (r.used.add e).mapError .clash

/-- One more expression. What stands in a table that means nothing here is not
looked at. -/
def step (r : Reading) (e : Toml.Expression) : Except Fault Reading :=
  match e with
  | .assign key v =>
    match r.place with
    | none => .ok r
    | some p => do
      let used ← r.use e
      let settings ← setBelow p r.settings key v
      return { r with settings, used }
  | .table key => do
    let used ← r.use e
    let place ← Place.follow key .root
    return { r with used, place }
  | .element key => do
    let used ← r.use e
    match ← Place.follow key .root with
    | none => return { r with used, place := none }
    | some _ => .error .unfit

end Reading

def parse (s : Settings) (t : Text) : Except Fault Settings :=
  let document := Toml.parse t
  match document.expressions.foldlM Reading.step { settings := s } with
  | .error f => .error f
  | .ok r =>
    match document.fault with
    | some f => .error (.malformed f)
    | none => .ok r.settings

end Settings

def Toml.reader : TomlReader := fun t s => (s.parse t).mapError Settings.Fault.message

end ClassForge
