import ClassForge.Failure
import ClassForge.Path

/-!
# Storage

What the library asks of a file system. Every operation may fail, and says what
was being done where.
-/

namespace ClassForge

inductive FileReason where
  | noEntry
  | notDirectory
  | isDirectory
  | alreadyThere
  | nameTooLong
  | invalid
  | notEmpty
  | other (words : Text)
  deriving DecidableEq, Inhabited

namespace FileReason

def text : FileReason → Text
  | noEntry => "no such file or directory"
  | notDirectory => "not a directory"
  | isDirectory => "is a directory"
  | alreadyThere => "file exists"
  | nameTooLong => "file name too long"
  | invalid => "invalid argument"
  | notEmpty => "directory not empty"
  | other words => words

end FileReason

structure FileFault where
  operation : Text
  /-- The path, or both paths with a space between them. -/
  subject : Text
  reason : FileReason
  deriving DecidableEq, Inhabited

namespace FileFault

def message (f : FileFault) : Text := f.operation ++ " " ++ f.subject ++ ": " ++ f.reason.text

def failure (f : FileFault) : Failure := .plain f.message

end FileFault

inductive FileKind where
  | file
  | directory
  deriving DecidableEq, Inhabited

class Storage (m : Type → Type) where
  workingDir : m Text
  /-- What stands at a path, if it can be found out. -/
  kindAt : Text → m (Option FileKind)
  read : Text → m (Except FileFault Text)
  /-- Writes a file that need not be there before. -/
  write : (path data : Text) → m (Except FileFault Unit)
  /-- Makes a directory whose parent is there. -/
  makeDirectory : Text → m (Except FileFault Unit)
  /-- Creates an empty file for passing use that no other file has the name of,
  named after `base`, and gives its path. -/
  createTemp : (dir base : Text) → m (Except FileFault Text)
  fill : (path data : Text) → m (Except FileFault Unit)
  close : (path : Text) → m (Except FileFault Unit)
  share : (path : Text) → m (Except FileFault Unit)
  /-- Moves a file, over another file if need be. -/
  rename : (source target : Text) → m (Except FileFault Unit)
  remove : (path : Text) → m Unit

namespace Storage

/-- The path of a file for passing use, with a number that makes it free. -/
def tempPath (dir base : Text) (n : Nat) : Text :=
  (if Path.endsInSlash dir then dir else dir ++ [Path.slash]) ++
    ("." ++ base ++ "." ++ Text.ofNat n ++ ".tmp")

variable {m : Type → Type} [Monad m] [Storage m]

/-- Makes the directory in front of the list, after those that it lies in,
which follow it. -/
def makeLineage : List Text → m (Except FileFault Unit)
  | [] => pure (.ok ())
  | path :: parents => do
    match ← kindAt path with
    | some .directory => pure (.ok ())
    | some .file => pure (.error ⟨"mkdir", path, .notDirectory⟩)
    | none =>
      match ← makeLineage parents with
      | .error f => pure (.error f)
      | .ok () =>
        match ← makeDirectory path with
        | .ok () => pure (.ok ())
        | .error f =>
          if (← kindAt path) = some .directory then pure (.ok ()) else pure (.error f)

def makeDirectories (path : Text) : m (Except FileFault Unit) := makeLineage (Path.lineage path)

def absolute (path : Text) : m Text := do
  if Path.isAbsolute path then pure (Path.clean path)
  else return Path.join [← workingDir, path]

def firstThere : List Text → m (Option Text)
  | [] => pure none
  | path :: rest => do if (← kindAt path).isSome then pure (some path) else firstThere rest

end Storage

end ClassForge
