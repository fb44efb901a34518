import ClassForge.Command
import ClassForge.Libraries.Usual

/-!
# The program

The file system of the machine as a `Storage`, and the entry point.
-/

namespace ClassForge.Disk

def native (path : Text) : String := (String.fromUTF8? ⟨path.toArray⟩).getD ""

def reason (e : IO.Error) : FileReason :=
  let words (details : String) : FileReason := .other (Text.ofString details.decapitalize)
  match e with
  | .noFileOrDirectory .. => .noEntry
  | .alreadyExists _ _ details => words details
  | .permissionDenied _ _ details => words details
  | .inappropriateType _ _ details => words details
  | .invalidArgument _ _ details => words details
  | .resourceExhausted _ _ details => words details
  | e => .other (Text.ofString (toString e))

/-- Does something to a file, and says what it was if it fails. -/
def attempt {α : Type} (operation subject : Text) (act : IO α) : IO (Except FileFault α) := do
  if subject.contains 0 then return .error ⟨operation, subject, .invalid⟩
  try return .ok (← act) catch e => return .error ⟨operation, subject, reason e⟩

def kindAt (path : Text) : IO (Option FileKind) := do
  if path = [] || path.contains 0 then return none
  try
    let p ← IO.FS.realPath (native path)
    if ← p.isDir then return some .directory
    else if ← p.pathExists then return some .file
    else return none
  catch _ => return none

def read (path : Text) : IO (Except FileFault Text) := do
  if (← kindAt path) = some .directory then return .error ⟨"read", path, .isDirectory⟩
  else attempt "open" path (return (← IO.FS.readBinFile (native path)).data.toList)

def write (path data : Text) : IO (Except FileFault Unit) :=
  attempt "open" path (IO.FS.writeBinFile (native path) ⟨data.toArray⟩)

/-- Creates a file for passing use; a name that is taken is tried again with
another number. -/
def createTemp (dir base : Text) : (tries : Nat) → IO (Except FileFault Text)
  | 0 => return .error ⟨"createtemp", Storage.tempPath dir base 0, .alreadyThere⟩
  | tries + 1 => do
    let path := Storage.tempPath dir base (← IO.rand 0 4294967295)
    if (← kindAt path).isSome then createTemp dir base tries
    else
      let made ← attempt "open" path do
        let _ ← IO.FS.Handle.mk (native path) .writeNew
      return made.map fun _ => path

def shared : IO.FileRight :=
  { user := { read := true, write := true }, group := { read := true }, other := { read := true } }

def rename (source target : Text) : IO (Except FileFault Unit) := do
  let subject := source ++ " " ++ target
  if (← kindAt target) = some .directory then return .error ⟨"rename", subject, .alreadyThere⟩
  else attempt "rename" subject (IO.FS.rename (native source) (native target))

instance : Storage IO where
  workingDir := return Text.ofString (← IO.currentDir).toString
  kindAt := kindAt
  read := read
  write := write
  makeDirectory path := attempt "mkdir" path (IO.FS.createDir (native path))
  createTemp dir base := createTemp dir base 10000
  fill path data := attempt "write" path do
    let file ← IO.FS.Handle.mk (native path) .append
    file.write ⟨data.toArray⟩
  close _ := return .ok ()
  share path := attempt "chmod" path (IO.setAccessRights (native path) shared)
  rename := rename
  remove path := do let _ ← attempt "remove" path (IO.FS.removeFile (native path))

end ClassForge.Disk

open ClassForge in
def main (arguments : List String) : IO UInt32 := do
  let colours ← (← IO.getStdout).isTty
  let result ← (Command.run .usual colours (arguments.map Text.ofString) : IO Command.Run)
  (← IO.getStdout).write ⟨result.out.toArray⟩
  (← IO.getStderr).write ⟨result.err.toArray⟩
  match result.ending with
  | .done => return 0
  | .reported => return 1
  | .failed f =>
    (← IO.getStderr).write ⟨((Libraries.usual.style colours).failure f).toArray⟩
    return 1
