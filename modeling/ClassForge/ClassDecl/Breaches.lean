import ClassForge.ClassDecl
import ClassForge.Failure

/-!
# The contract of the front end

Only what the class file needs is checked: that names are bound, return types
are known and constants have values. Every breach is reported, in the order
class, finals, globals, methods.
-/

namespace ClassForge

def Node.breach? (n : Node) : Option Diagnostic :=
  match n.kind with
  | .var | .const | .call =>
    match n.sym with
    | none =>
      some (.breach n.pos
        (n.kind.name ++ " node " ++ n.name.quote ++ " carries no resolved symbol"))
    | some sym =>
      if n.kind = .call && sym.kind != .proc then
        some (.breach n.pos
          ("call to " ++ n.name ++ " resolves to a " ++ sym.kind.name ++ " symbol"))
      else if n.kind = .const && sym.kind != .const then
        some (.breach n.pos
          ("constant reference " ++ n.name ++ " resolves to a " ++ sym.kind.name ++ " symbol"))
      else none
  | .assign | .ifElse | .whileLoop | .ret | .binary | .unary | .number => none
  | .invalid | .other _ => some (.breach n.pos ("node of unknown kind " ++ n.kind.name))

namespace MethodDecl

/-- The breaches of a method with a symbol: of its kind, its return type and
its scope, then of its nodes. -/
def breachesOf (m : MethodDecl) (proc : Symbol) : List Diagnostic :=
  (if proc.kind = .proc then []
    else [.breach m.pos
      ("method " ++ proc.name ++ " is bound to a " ++ proc.kind.name ++ " symbol")]) ++
  (match proc.returnType with
    | .ok _ => []
    | .error d => [d]) ++
  (if m.scope.isSome then [] else [noScope m.pos proc.name]) ++
  (m.body.toList.flatMap fun body => body.all.filterMap Node.breach?)

end MethodDecl

namespace ClassDecl

/-- Whether a class name can be the name of a file of its own. -/
def isPlainName (name : Text) : Bool :=
  !(name.contains 47 || name.contains 92 || Text.hasPart ".." name)

def ownBreaches (c : ClassDecl) (symbol : Symbol) : List Diagnostic :=
  (if isPlainName symbol.name then []
    else [(Diagnostic.breach c.pos
      ("class name " ++ symbol.name.quote ++ " is not a plain identifier")).withNote
        "the class name becomes the output file name"]) ++
  (if symbol.kind = .classSym then []
    else [.breach c.pos
      ("class " ++ symbol.name ++ " is bound to a " ++ symbol.kind.name ++ " symbol")])

def finalBreach? (c : ClassDecl) : Option Symbol → Option Diagnostic
  | none => some (.breach c.pos ("nil final in class " ++ c.name))
  | some f =>
    if f.kind != .const then
      some (.breach f.pos ("final " ++ f.name ++ " is bound to a " ++ f.kind.name ++ " symbol"))
    else if !f.hasValue then
      some (.breach f.pos ("final " ++ f.name ++ " carries no constant value"))
    else none

def globalBreach? (c : ClassDecl) : Option Symbol → Option Diagnostic
  | none => some (.breach c.pos ("nil global in class " ++ c.name))
  | some v =>
    if v.kind != .var then
      some (.breach v.pos ("global " ++ v.name ++ " is bound to a " ++ v.kind.name ++ " symbol"))
    else none

def methodBreaches (c : ClassDecl) : Option MethodDecl → List Diagnostic
  | none => [.breach c.pos "method carries no symbol"]
  | some m =>
    match m.symbol with
    | none => [.breach m.pos "method carries no symbol"]
    | some proc => m.breachesOf proc

def breaches (c : ClassDecl) (symbol : Symbol) : List Diagnostic :=
  c.ownBreaches symbol ++ c.finals.filterMap c.finalBreach? ++
    c.globals.filterMap c.globalBreach? ++ c.methods.flatMap c.methodBreaches

def nameless : Diagnostic :=
  { code := Code.unresolvedNode, message := "class declaration carries no class symbol" }

def check (c : ClassDecl) : Option Failure :=
  match c.symbol with
  | none => some nameless
  | some symbol =>
    if symbol.name = [] then some nameless
    else Failure.ofList? ((c.breaches symbol).map fun d => Failure.diagnosed d none)

end ClassDecl

end ClassForge
