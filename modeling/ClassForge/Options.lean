import ClassForge.Text.Basic

/-!
# Options of generation
-/

namespace ClassForge

/-- How class files are generated. An empty text or a major version of zero
asks for the usual value. -/
structure Options where
  superClass : Text := []
  sourceExtension : Text := []
  major : UInt16 := 0
  minor : UInt16 := 0
  lineNumbers : Bool := false
  debug : Bool := false
  deriving DecidableEq, Inhabited

namespace Options

def usualSuperClass : Text := "java/lang/Object"
def usualSourceExtension : Text := ".java"
def usualClassExtension : Text := ".class"
def usualMajor : UInt16 := 52

def effective (o : Options) : Options :=
  { o with
    superClass := if o.superClass = [] then usualSuperClass else o.superClass,
    sourceExtension := if o.sourceExtension = [] then usualSourceExtension else o.sourceExtension,
    major := if o.major = 0 then usualMajor else o.major }

def usual : Options := effective {}

end Options

end ClassForge
