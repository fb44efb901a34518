import ClassForge.Settings
import ClassForge.Storage

/-!
# Settings files

A settings file holds for the directory that it lies in and for all below it,
but for those that have one of their own.
-/

namespace ClassForge.Settings

variable {m : Type → Type} [Monad m] [Storage m]

/-- The settings of the file at a path, from its contents. What the file does not
mention stays as usual. -/
def load (toml : TomlReader) (level? : Text → Option Severity) (path contents : Text) :
    Except Failure Settings :=
  match toml contents {} with
  | .error why => .error (.context ("failed to parse config file " ++ path) (.plain why))
  | .ok s =>
    match s.check level? with
    | some f => .error (.context ("invalid config file " ++ path) f)
    | none => .ok s

def loadFile (toml : TomlReader) (level? : Text → Option Severity) (path : Text) :
    m (Except Failure Settings) := do
  match ← Storage.read path with
  | .error f => return .error (.context "failed to read config file" f.failure)
  | .ok contents => return load toml level? path contents

def save (s : Settings) (path : Text) : m (Except Failure Unit) := do
  match ← Storage.write path s.text with
  | .error f => return .error (.context "failed to write config file" f.failure)
  | .ok () => return .ok ()

/-- The paths at which a settings file for the directory `dir` may lie, the
nearest first. -/
def candidates (dir : Text) : List Text :=
  (Path.upward dir).map fun d => Path.join [d, fileName]

/-- The settings file that holds for a path, which must be that of something
that is there; `none` if there is no such file. -/
def find (start : Text) : m (Option Text) := do
  match ← Storage.kindAt start with
  | none => return none
  | some .directory => Storage.firstThere (candidates (← Storage.absolute start))
  | some .file => Storage.firstThere (candidates (← Storage.absolute (Path.dir start)))

end ClassForge.Settings
