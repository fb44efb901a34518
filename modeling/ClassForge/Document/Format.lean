import ClassForge.Datum.Json
import ClassForge.Document.Datum
import ClassForge.Document.Draft
import ClassForge.Document.Resolve
import ClassForge.Path
import ClassForge.Storage
import ClassForge.Text.Lower
import ClassForge.Text.Quoted

/-!
# Documents in files

A document is written in JSON or in CBOR; a file says which by its ending.
-/

namespace ClassForge

inductive Format where
  | json
  | cbor
  deriving DecidableEq, Inhabited

namespace Format

def ofInt (n : Int) : Format := if n = 1 then cbor else json

def name : Format → Text
  | json => "json"
  | cbor => "cbor"

def ending : Format → Text
  | json => ".json"
  | cbor => ".cbor"

def ofPath (path : Text) : Except Failure Format :=
  let ext := Path.ext path
  let lower := ext.lower
  if lower = json.ending then .ok json
  else if lower = cbor.ending then .ok cbor
  else .error (.plain ("unsupported document extension " ++ ext.quote ++ " (want " ++ json.ending ++
    " or " ++ cbor.ending ++ ")"))

def codec (cbor : Codec) : Format → Codec
  | .json => .json
  | .cbor => cbor

end Format

namespace Document

def undecodable (format : Format) : Failure :=
  .context ("loader: unmarshal " ++ format.name ++ " document")
    (.plain "not a class document in this format")

def decode (cbor : Codec) (format : Format) (data : Text) : Except Failure Document :=
  match ((format.codec cbor).decode? data).bind ofDatum? with
  | some document => .ok document
  | none => .error (undecodable format)

def encode (cbor : Codec) (format : Format) (document : Document) : Text :=
  (format.codec cbor).encode document.toDatum

variable {m : Type → Type} [Monad m] [Storage m]

/-- The document that the contents of the file at `path` spell. A document that
names no source file is its own. -/
def ofContents (cbor : Codec) (path contents : Text) (format : Format) : Except Failure Document :=
  match decode cbor format contents with
  | .error f => .error (.cannotTake "decode" path f)
  | .ok document => .ok (if document.file = [] then { document with file := path } else document)

def load (cbor : Codec) (path : Text) : m (Except Failure Document) := do
  match Format.ofPath path with
  | .error f => return .error (.cannotTake "load" path f)
  | .ok format =>
    match ← Storage.read path with
    | .error f => return .error (.cannotTake "read" path f.failure)
    | .ok contents => return ofContents cbor path contents format

def loadClass (cbor : Codec) (path : Text) : m (Except Failure ClassDecl) := do
  match ← load cbor path with
  | .error f => return .error f
  | .ok document => return document.resolve

def save (cbor : Codec) (path : Text) (document : Document) : m (Except Failure Unit) := do
  match Format.ofPath path with
  | .error f => return .error f
  | .ok format =>
    match ← Storage.write path (document.encode cbor format) with
    | .error f => return .error (.cannotWrite path f.failure)
    | .ok () => return .ok ()

end Document

end ClassForge
