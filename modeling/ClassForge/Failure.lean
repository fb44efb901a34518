import ClassForge.Diagnostic

/-!
# Failures

Why an operation did not succeed: a plain message, a message in front of a
deeper failure, a diagnostic, or several failures together. The chain of a
failure is what its diagnostics are looked up in, from the outside in and from
left to right.
-/

namespace ClassForge

inductive Failure where
  | plain (message : Text)
  /-- What was being done when `cause` happened. -/
  | context (message : Text) (cause : Failure)
  | diagnosed (diagnostic : Diagnostic) (cause : Option Failure)
  | many (members : List Failure)
  deriving Inhabited

namespace Failure

instance : Coe Diagnostic Failure := ⟨fun d => diagnosed d none⟩

def ofList? : List Failure → Option Failure
  | [] => none
  | fs => some (many fs)

section
variable (list : List Text → Text)

mutual

/-- The failure as text; `list` puts the texts of a collection together. -/
def message : Failure → Text
  | plain text => text
  | context text cause => text ++ ": " ++ message cause
  | diagnosed d none => d.oneLine none
  | diagnosed d (some cause) => d.oneLine (some (message cause))
  | many members => list (messages members [])

def messages : List Failure → (done : List Text) → List Text
  | [], done => done.reverse
  | f :: rest, done => messages rest (message f :: done)

end

/-- The text of what lies directly below the failure. -/
def innerMessage? : Failure → Option Text
  | plain _ => none
  | context _ cause => some (cause.message list)
  | diagnosed _ cause => cause.map (message list)
  | many [] => none
  | many (first :: _) => some (first.message list)

end

mutual

/-- The first diagnostic of the chain, with its cause. -/
def diagnosis? : Failure → Option (Diagnostic × Option Failure)
  | plain _ => none
  | context _ cause => cause.diagnosis?
  | diagnosed d cause => some (d, cause)
  | many members => firstDiagnosis? members

def firstDiagnosis? : List Failure → Option (Diagnostic × Option Failure)
  | [] => none
  | f :: rest =>
    match f.diagnosis? with
    | some found => some found
    | none => firstDiagnosis? rest

end

/-- Whether the first diagnostic of the chain is of kind `k`. -/
def isKind (f : Failure) (k : Kind) : Bool :=
  match f.diagnosis? with
  | some (d, _) => d.kind = k
  | none => false

def hasCode (f : Failure) (code : Text) : Bool :=
  match f.diagnosis? with
  | some (d, _) => d.code = code
  | none => false

def cannotWrite (path : Text) (cause : Failure) : Failure :=
  diagnosed { code := Code.writeFailed, message := "cannot write " ++ path, file := path }
    (some cause)

/-- An input that could not be taken in; `verb` says at which step. -/
def cannotTake (verb path : Text) (cause : Failure) : Failure :=
  diagnosed { code := Code.readFailed, message := "cannot " ++ verb ++ " " ++ path } (some cause)

end Failure

end ClassForge
