import Std.Data.TreeSet
import ClassForge.Diagnostic
import ClassForge.Node
import ClassForge.Scope

/-!
# Class declarations

The class that a front end hands over. Every part that should be there may be
missing; `ClassDecl.outline` is what the class file is made from once the
check of the declaration has found all parts in place.
-/

namespace ClassForge

/-- The names that method bodies use as variables or call, whatever they are bound to. -/
structure References where
  /-- In the order of first occurrence. -/
  names : Array Text := #[]
  seen : Std.TreeSet Text := ∅
  deriving Inhabited

namespace References

def insert (r : References) (name : Text) : References :=
  if r.seen.contains name then r
  else { names := r.names.push name, seen := r.seen.insert name }

def contains (r : References) (name : Text) : Bool := r.seen.contains name

def insertNode (r : References) (n : Node) : References :=
  if n.kind.isReference then r.insert n.name else r

def collect (bodies : List Node) : References :=
  bodies.foldl (fun r body => body.all.foldl insertNode r) {}

end References

inductive ReturnType where
  | int
  | void
  deriving DecidableEq, Inhabited

namespace ReturnType

def name : ReturnType → Text
  | int => "int"
  | void => "void"

def descriptor : ReturnType → Text
  | int => "I"
  | void => "V"

end ReturnType

def Symbol.returnType (proc : Symbol) : Except Diagnostic ReturnType :=
  match proc.type with
  | .int => .ok .int
  | .void => .ok .void
  | type => .error (.placed Code.unclassifiedReturn proc.pos
      ("method " ++ proc.name ++ " has unclassifiable return type " ++ type.name))

/-- What callers see of a method. All parameters are integers. -/
structure Signature where
  name : Text
  params : Nat
  returns : ReturnType
  deriving DecidableEq, Inhabited

namespace Signature

def intDescriptor : Text := "I"

def descriptor (s : Signature) : Text :=
  "(" ++ (List.replicate s.params 73 : Text) ++ ")" ++ s.returns.descriptor

end Signature

structure MethodDecl where
  symbol : Option Symbol := none
  /-- Parameters and locals. -/
  scope : Option Scope := none
  body : Option Node := none
  pos : Position := {}
  deriving Inhabited

namespace MethodDecl

def noScope (pos : Position) (name : Text) : Diagnostic :=
  .breach pos ("method " ++ name ++ " carries no scope")

def signature (m : MethodDecl) (proc : Symbol) : Except Diagnostic Signature :=
  match m.scope with
  | none => .error (noScope proc.pos proc.name)
  | some scope => proc.returnType.map fun returns => ⟨proc.name, scope.params.length, returns⟩

def signature? (m : MethodDecl) : Option Signature :=
  m.symbol.bind fun proc => (m.signature proc).toOption

def name (m : MethodDecl) : Text := (m.symbol.map Symbol.name).getD []

end MethodDecl

structure ClassDecl where
  symbol : Option Symbol := none
  scope : Scope := {}
  finals : List (Option Symbol) := []
  globals : List (Option Symbol) := []
  methods : List (Option MethodDecl) := []
  pos : Position := {}
  deriving Inhabited

structure Final where
  name : Text
  value : Int32
  deriving DecidableEq, Inhabited

/-- What a class file is made from. Of the bodies only the names that they
refer to count. -/
structure Outline where
  name : Text
  pos : Position
  finals : List Final
  globals : List Text
  methods : List Signature
  references : References
  deriving Inhabited

namespace ClassDecl

def name (c : ClassDecl) : Text := (c.symbol.map Symbol.name).getD []

def bodies (c : ClassDecl) : List Node :=
  c.methods.filterMap fun m => m.bind MethodDecl.body

def references (c : ClassDecl) : References := References.collect c.bodies

/-- The class without what a class file does not show; parts that are missing
are left out. -/
def outline (c : ClassDecl) : Outline where
  name := c.name
  pos := c.pos
  finals := c.finals.filterMap fun f => f.map fun s => ⟨s.name, s.value⟩
  globals := c.globals.filterMap fun v => v.map Symbol.name
  methods := c.methods.filterMap fun m => m.bind MethodDecl.signature?
  references := c.references

end ClassDecl

end ClassForge
