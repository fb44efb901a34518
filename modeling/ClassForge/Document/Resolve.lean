import ClassForge.ClassDecl
import ClassForge.Document
import ClassForge.Failure

/-!
# Binding names

A document becomes a class declaration: scopes are built from the declarations
and every name in a body is bound to the innermost declaration that it can
mean. Methods may be used ahead of their declaration. All faults are collected:
first those of the declarations, then those of the bodies.
-/

namespace ClassForge

/-! ## Declarations -/

structure Declared where
  scope : Scope := {}
  /-- What was declared twice, backwards. -/
  faults : List Diagnostic := []
  deriving Inhabited

namespace Declared

def twice (sym : Symbol) : Diagnostic :=
  .breach sym.pos (sym.kind.name ++ " " ++ sym.name ++ ": " ++ Scope.taken sym.name)

def add (d : Declared) (sym : Symbol) : Declared :=
  match d with
  | ⟨scope, faults⟩ =>
    if scope.contains sym.name then ⟨scope, twice sym :: faults⟩ else ⟨scope.push sym, faults⟩

def addAll (d : Declared) (syms : List Symbol) : Declared := syms.foldl add d

end Declared

def Document.pos (c : Document) (line : Int64) : Position := { file := c.file, line }

def FinalItem.symbol (c : Document) (f : FinalItem) : Symbol :=
  { name := f.name, kind := .const, type := .int, value := f.value.getD 0,
    hasValue := f.value.isSome, pos := c.pos f.line }

def VarItem.symbol (c : Document) (kind : SymbolKind) (v : VarItem) : Symbol :=
  { name := v.name, kind, type := .int, pos := c.pos v.line }

namespace MethodItem

def symbol (c : Document) (m : MethodItem) : Symbol :=
  { name := m.name, kind := .proc, type := (ValueType.parse? m.type).getD .unknown,
    pos := c.pos m.line }

def declared (c : Document) (m : MethodItem) : Declared :=
  Declared.addAll {}
    (m.params.map (VarItem.symbol c .param) ++ m.locals.map (VarItem.symbol c .var))

end MethodItem

namespace Document

def memberSymbols (c : Document) : List Symbol :=
  c.finals.map (FinalItem.symbol c) ++ c.globals.map (VarItem.symbol c .var)

def declareMethod (c : Document) (d : Declared) (m : MethodItem) : Declared :=
  Declared.add { d with faults := (m.declared c).faults ++ d.faults } (m.symbol c)

def declared (c : Document) : Declared :=
  c.methods.foldl c.declareMethod (Declared.addAll {} c.memberSymbols)

end Document

/-! ## Bodies -/

structure Binder where
  file : Text
  scopes : List Scope

namespace Binder

def bind? (b : Binder) (name : Text) : Option Symbol := Scope.lookup? b.scopes name

def pos (b : Binder) (line column : Int64) : Position := ⟨b.file, line, column⟩

/-- The kind of a node once its name is bound: what means a constant is a
constant. -/
def boundKind (b : Binder) (kind : NodeKind) (name : Text) : NodeKind :=
  match kind with
  | .var | .const =>
    match b.bind? name with
    | some sym => if sym.kind = .const then .const else kind
    | none => kind
  | kind => kind

/-- Strings statements together, given backwards. -/
def link (backwards : List Node) : Option Node :=
  backwards.foldl (fun next n => some { n with next }) none

mutual

def node? (b : Binder) : NodeItem → Option Node
  | ⟨kind, line, column, name, op, value, left, right, cond, thenItems, elseItems, args⟩ =>
    match NodeKind.parse? kind with
    | none => none
    | some kind =>
      let n : Node := { kind := b.boundKind kind name, pos := b.pos line column, name, op, value }
      some <|
        match kind with
        | .var | .const => { n with sym := b.bind? name }
        | .call =>
          { n with sym := b.bind? name, args := ((b.nodes args []).map some).reverse }
        | .assign | .binary => { n with left := b.option left, right := b.option right }
        | .ret | .unary => { n with left := b.option left }
        | .ifElse =>
          { n with
            cond := b.option cond, thenBranch := link (b.statements thenItems []),
            elseBranch := link (b.statements elseItems []) }
        | .whileLoop =>
          { n with cond := b.option cond, thenBranch := link (b.statements thenItems []) }
        | _ => n

def option (b : Binder) : Option NodeItem → Option Node
  | none => none
  | some item => b.node? item

/-- The bound nodes of items, backwards in front of `done`. -/
def nodes (b : Binder) : List NodeItem → (done : List Node) → List Node
  | [], done => done
  | item :: rest, done =>
    match b.node? item with
    | some n => b.nodes rest (n :: done)
    | none => b.nodes rest done

def statements (b : Binder) : List NodeItem → (done : List Node) → List Node
  | [], done => done
  | item :: rest, done =>
    match b.node? item with
    | some n => if n.kind.isStatement then b.statements rest (n :: done) else b.statements rest done
    | none => b.statements rest done

end

def valueFaults (b : Binder) (kind : NodeKind) (name : Text) (pos : Position) : List Diagnostic :=
  match b.bind? name with
  | none => [unbound name pos]
  | some sym =>
    match sym.kind with
    | .const => []
    | .proc | .classSym => [.breach pos (sym.kind.name ++ " " ++ name ++ " used as a value")]
    | _ => if kind = .const then [.breach pos (name ++ " is not a final constant")] else []
where
  unbound (name : Text) (pos : Position) : Diagnostic :=
    .placed Code.unresolvedName pos ("cannot resolve identifier " ++ name.quote)

def callFaults (b : Binder) (name : Text) (pos : Position) : List Diagnostic :=
  match b.bind? name with
  | none => [valueFaults.unbound name pos]
  | some sym =>
    if sym.kind = .proc then []
    else [.breach pos (sym.kind.name ++ " " ++ name ++ " is not callable")]

def targetFaults (target : Option NodeItem) (pos : Position) : List Diagnostic :=
  if target.any fun item => item.kind = NodeKind.var.name then []
  else [.breach pos "assignment target must be a variable"]

def placeFaults (b : Binder) (item : NodeItem) : List Diagnostic :=
  match NodeKind.parse? item.kind with
  | none => []
  | some kind =>
    if kind.isStatement then []
    else
      [(Diagnostic.breach (b.pos item.line item.column)
        ((b.boundKind kind item.name).name ++ " node in statement position")).withNote
          "statement lists hold assign, if, while, return and call nodes"]

mutual

def faults (b : Binder) : NodeItem → (done : List Diagnostic) → List Diagnostic
  | ⟨kind, line, column, name, _, _, left, right, cond, thenItems, elseItems, args⟩, done =>
    let pos := b.pos line column
    match NodeKind.parse? kind with
    | none => .breach pos ("unknown node kind " ++ kind.quote) :: done
    | some kind =>
      match kind with
      | .var | .const => (b.valueFaults kind name pos).reverse ++ done
      | .call => b.itemFaults args ((b.callFaults name pos).reverse ++ done)
      | .assign =>
        b.optionFaults right (b.optionFaults left ((targetFaults left pos).reverse ++ done))
      | .binary => b.optionFaults right (b.optionFaults left done)
      | .ret | .unary => b.optionFaults left done
      | .ifElse =>
        b.statementFaults elseItems (b.statementFaults thenItems (b.optionFaults cond done))
      | .whileLoop => b.statementFaults thenItems (b.optionFaults cond done)
      | _ => done

def optionFaults (b : Binder) : Option NodeItem → (done : List Diagnostic) → List Diagnostic
  | none, done => done
  | some item, done => b.faults item done

def itemFaults (b : Binder) : List NodeItem → (done : List Diagnostic) → List Diagnostic
  | [], done => done
  | item :: rest, done => b.itemFaults rest (b.faults item done)

def statementFaults (b : Binder) : List NodeItem → (done : List Diagnostic) → List Diagnostic
  | [], done => done
  | item :: rest, done =>
    b.statementFaults rest ((b.placeFaults item).reverse ++ b.faults item done)

end

end Binder

/-! ## Classes -/

namespace Document

def binder (c : Document) (members : Scope) (m : MethodItem) : Binder :=
  ⟨c.file, [(m.declared c).scope, members]⟩

def faults (c : Document) : List Diagnostic :=
  let members := c.declared
  (c.methods.foldl
    (fun done m => (c.binder members.scope m).statementFaults m.body done) members.faults).reverse

def methodDecl (c : Document) (members : Scope) (m : MethodItem) : MethodDecl :=
  { symbol := some (m.symbol c), scope := some (m.declared c).scope,
    body := Binder.link ((c.binder members m).statements m.body []), pos := c.pos m.line }

def classDecl (c : Document) : ClassDecl :=
  let members := c.declared.scope
  { symbol := some { name := c.className, kind := .classSym, pos := c.pos c.line }
    scope := members
    finals := c.finals.map fun f => some (f.symbol c)
    globals := c.globals.map fun v => some (v.symbol c .var)
    methods := c.methods.map fun m => some (c.methodDecl members m)
    pos := c.pos c.line }

def nameless : Diagnostic :=
  { code := Code.unresolvedNode, message := "document declares no class" }

def resolve (c : Document) : Except Failure ClassDecl :=
  if c.className = [] then .error nameless
  else
    match Failure.ofList? (c.faults.map fun d => Failure.diagnosed d none) with
    | some failure => .error failure
    | none => .ok c.classDecl

end Document

end ClassForge
