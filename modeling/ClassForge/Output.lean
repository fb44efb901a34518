import ClassForge.Generator
import ClassForge.Storage

/-!
# Class files on disk

A class file is written next to where it shall be and then moved, so that at no
time a part of it can be seen under its name.
-/

namespace ClassForge

structure Output where
  path : Text
  data : Text
  deriving DecidableEq, Inhabited

namespace Output

variable {m : Type → Type} [Monad m] [Storage m]

def pathOf (dir className extension : Text) : Text :=
  let extension := if extension = [] then Options.usualClassExtension else extension
  Path.join [dir, className ++ extension]

def inOrder : List (m (Except FileFault Unit)) → m (Except FileFault Unit)
  | [] => pure (.ok ())
  | step :: rest => do
    match ← step with
    | .ok () => inOrder rest
    | .error f => pure (.error f)

/-- Fills the file `temp` and moves it to `path`; if a step fails the file is
removed. -/
def place (temp path data : Text) : m (Except FileFault Unit) := do
  match ← Storage.fill temp data with
  | .error f =>
    let _ ← Storage.close temp
    Storage.remove temp
    return .error f
  | .ok () =>
    match ← inOrder [Storage.close temp, Storage.share temp, Storage.rename temp path] with
    | .error f =>
      Storage.remove temp
      return .error f
    | .ok () => return .ok ()

/-- Writes the data as a whole or not at all, after making the directory. -/
def write (path data : Text) : m (Except FileFault Unit) := do
  let dir := Path.dir path
  match ← Storage.makeDirectories dir with
  | .error f => return .error f
  | .ok () =>
    match ← Storage.createTemp dir (Path.base path) with
    | .error f => return .error f
    | .ok temp => place temp path data

def writeClass (path data : Text) : m (Except Failure Unit) := do
  match ← write path data with
  | .error f => return .error (.cannotWrite path f.failure)
  | .ok () => return .ok ()

end Output

structure Written where
  /-- What was generated, whether it could be written or not. -/
  output : Option Output := none
  failure : Option Failure := none
  listing : Text := []
  deriving Inhabited

def Generator.compileToFile {m : Type → Type} [Monad m] [Storage m] (g : Generator) (c : ClassDecl)
    (dir extension : Text) : m (Written × Generator) := do
  let (made, g) := g.compile c
  match made.result with
  | .error f => return ({ failure := some f, listing := made.listing }, g)
  | .ok data =>
    let output : Output := ⟨Output.pathOf dir c.name extension, data⟩
    match ← Output.writeClass output.path data with
    | .error f => return ({ output, failure := some f, listing := made.listing }, g)
    | .ok () => return ({ output, listing := made.listing }, g)

def ParsedClass.load {m : Type → Type} [Monad m] [Storage m] (path : Text) :
    m (Except Failure ParsedClass) := do
  match ← Storage.read path with
  | .error f => return .error (.cannotTake "read" path f.failure)
  | .ok data => return ParsedClass.parse data

end ClassForge
