import ClassForge.Text.Basic

/-!
# Diagnostics

A diagnostic is a coded message about the input or the output, with a place
and advice. The catalogue lists the codes that this back end issues.
-/

namespace ClassForge

/-- A place in a source file. Lines and columns count from one; a line of zero
or less means that the place is not known. -/
structure Position where
  file : Text := []
  line : Int64 := 0
  column : Int64 := 0
  deriving DecidableEq, Inhabited

namespace Position

def isValid (p : Position) : Bool := 0 < p.line

def text (p : Position) : Text :=
  let place := Text.ofInt p.line.toInt ++ ":" ++ Text.ofInt p.column.toInt
  if p.file = [] then place else p.file ++ ":" ++ place

end Position

inductive Level where
  | error
  | warning
  | note
  | help
  /-- A level outside the four. -/
  | other
  deriving DecidableEq, Inhabited

namespace Level

def ofInt : Int → Level
  | 0 => error
  | 1 => warning
  | 2 => note
  | 3 => help
  | _ => other

def name : Level → Text
  | error => "error"
  | warning => "warning"
  | note => "note"
  | help => "help"
  | other => "unknown"

end Level

inductive Kind where
  /-- The code is not in the catalogue. -/
  | unknown
  /-- A limit of the class file format. -/
  | format
  /-- The front end broke its contract. -/
  | contract
  /-- Reading or writing failed. -/
  | io
  deriving DecidableEq, Inhabited

namespace Kind

def ofInt? : Int → Option Kind
  | 0 => some unknown
  | 1 => some format
  | 2 => some contract
  | 3 => some io
  | _ => none

def toNat : Kind → Nat
  | unknown => 0
  | format => 1
  | contract => 2
  | io => 3

def name : Kind → Text
  | unknown => "unknown"
  | format => "format"
  | contract => "contract"
  | io => "io"

end Kind

structure CodeInfo where
  code : Text
  level : Level
  kind : Kind
  summary : Text
  category : Text
  deriving DecidableEq

namespace Code

def unknownTag : Text := "E0900"
def codeTooLong : Text := "E0901"
def noPushEncoding : Text := "E0902"
def poolFull : Text := "E0903"
def textTooLong : Text := "E0904"
def unresolvedNode : Text := "E0910"
def unclassifiedReturn : Text := "E0911"
def unresolvedName : Text := "E0912"
def writeFailed : Text := "E0920"
def readFailed : Text := "E0921"

def catalogue : List CodeInfo := [
  ⟨unknownTag, .error, .format, "unknown constant pool tag", "format"⟩,
  ⟨codeTooLong, .error, .format, "code length exceeds 65535 bytes", "format"⟩,
  ⟨noPushEncoding, .error, .format, "constant value has no push encoding", "format"⟩,
  ⟨poolFull, .error, .format, "constant pool exceeds 65535 entries", "format"⟩,
  ⟨textTooLong, .error, .format, "utf8 constant exceeds 65535 bytes", "format"⟩,
  ⟨unresolvedNode, .error, .contract, "node carries no resolved symbol", "contract"⟩,
  ⟨unclassifiedReturn, .error, .contract, "method return type cannot be classified", "contract"⟩,
  ⟨unresolvedName, .error, .contract, "identifier cannot be resolved", "contract"⟩,
  ⟨writeFailed, .error, .io, "cannot write class file", "io"⟩,
  ⟨readFailed, .error, .io, "cannot read input", "io"⟩]

def info? (code : Text) : Option CodeInfo := catalogue.find? (·.code = code)

def kind (code : Text) : Kind :=
  match info? code with
  | some info => info.kind
  | none => .unknown

/-- Advice that goes with a code when a diagnostic brings none of its own. -/
def suggestions (code : Text) : List Text :=
  if code = codeTooLong then
    ["split the class into smaller units; a method body is limited to 65535 bytes"]
  else if code = noPushEncoding then
    ["final field values must lie in the signed byte range -128..127"]
  else if code = poolFull then
    ["reduce the number of members; the constant pool is limited to 65535 entries"]
  else if code = unresolvedNode || code = unclassifiedReturn || code = unresolvedName then
    ["the front end must hand over a fully resolved AST; rerun semantic analysis"]
  else if code = writeFailed then
    ["check that the output directory exists and is writable"]
  else []

end Code

/-- A coded message. An empty file means that the place is not known, and an
empty code that the message has none. -/
structure Diagnostic where
  code : Text
  level : Level := .error
  message : Text
  file : Text := []
  line : Int64 := 0
  column : Int64 := 0
  hints : List Text := []
  notes : List Text := []
  deriving DecidableEq, Inhabited

namespace Diagnostic

def placed (code : Text) (pos : Position) (message : Text) : Diagnostic :=
  { code, message, file := pos.file, line := pos.line, column := pos.column }

def breach (pos : Position) (message : Text) : Diagnostic :=
  placed Code.unresolvedNode pos message

def kind (d : Diagnostic) : Kind := Code.kind d.code

def withNote (d : Diagnostic) (note : Text) : Diagnostic :=
  { d with notes := d.notes ++ [note] }

/-- The diagnostic on one line: place, code and message, and after the message
what caused it. -/
def oneLine (d : Diagnostic) (cause : Option Text) : Text :=
  let message :=
    match cause with
    | some text => d.message ++ ": " ++ text
    | none => d.message
  let coded := "[" ++ d.code ++ "] " ++ message
  if d.file = [] then coded
  else if d.line = 0 then d.file ++ ": " ++ coded
  else
    d.file ++ ":" ++ Text.ofInt d.line.toInt ++ ":" ++ Text.ofInt d.column.toInt ++ ": " ++ coded

end Diagnostic

end ClassForge
