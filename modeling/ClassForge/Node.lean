import ClassForge.Symbol

/-!
# Syntax trees

Statements and expressions of a method body. All kinds share one shape, of
which each kind uses some fields; a statement list hangs together by `next`.
Nothing is promised about which fields are present: that is for the check of
the whole class to find out.
-/

namespace ClassForge

inductive NodeKind where
  | invalid
  /-- `left = right` -/
  | assign
  /-- `if (cond) then else` -/
  | ifElse
  /-- `while (cond) then` -/
  | whileLoop
  /-- `return left` -/
  | ret
  /-- `name(args)` -/
  | call
  /-- `left op right` -/
  | binary
  /-- `op left` -/
  | unary
  | number
  | var
  | const
  /-- A number that no kind has. -/
  | other (n : UInt8)
  deriving DecidableEq, Inhabited

namespace NodeKind

def named : List NodeKind :=
  [invalid, assign, ifElse, whileLoop, ret, call, binary, unary, number, var, const]

def ofByte (n : UInt8) : NodeKind := named[n.toNat]?.getD (other n)

def toNat : NodeKind → Nat
  | invalid => 0
  | assign => 1
  | ifElse => 2
  | whileLoop => 3
  | ret => 4
  | call => 5
  | binary => 6
  | unary => 7
  | number => 8
  | var => 9
  | const => 10
  | other n => n.toNat

def name : NodeKind → Text
  | invalid => "invalid"
  | assign => "assign"
  | ifElse => "if"
  | whileLoop => "while"
  | ret => "return"
  | call => "call"
  | binary => "binary"
  | unary => "unary"
  | number => "number"
  | var => "var"
  | const => "const"
  | other n => "NodeKind(" ++ Text.ofNat n.toNat ++ ")"

/-- The kind that a word names; no word names `invalid`. -/
def parse? (word : Text) : Option NodeKind :=
  named.find? fun k => k.name = word && k != invalid

def isStatement : NodeKind → Bool
  | assign | ifElse | whileLoop | ret | call => true
  | _ => false

def isReference : NodeKind → Bool
  | var | call => true
  | _ => false

end NodeKind

structure Node where
  kind : NodeKind
  pos : Position := {}
  name : Text := []
  op : Text := []
  value : Int32 := 0
  /-- The declaration that the name is bound to. -/
  sym : Option Symbol := none
  left : Option Node := none
  right : Option Node := none
  cond : Option Node := none
  thenBranch : Option Node := none
  elseBranch : Option Node := none
  args : List (Option Node) := []
  /-- The statement that follows. -/
  next : Option Node := none
  deriving Inhabited

namespace Node

/-- The nodes directly below, in the order in which they are visited. -/
def children (n : Node) : List Node :=
  n.cond.toList ++ n.thenBranch.toList ++ n.elseBranch.toList ++ n.left.toList ++
    n.right.toList ++ n.args.filterMap id ++ n.next.toList

mutual

/-- The node as source text, without the branches of a statement. -/
def text : Node → Text
  | ⟨kind, _, name, op, value, _, left, right, cond, _, elseBranch, args, _⟩ =>
    match kind with
    | .number => Text.ofInt value.toInt
    | .var => name
    | .const => name
    | .binary => "(" ++ textOf left ++ " " ++ op ++ " " ++ textOf right ++ ")"
    | .unary => "(" ++ op ++ textOf left ++ ")"
    | .assign => textOf left ++ " = " ++ textOf right ++ ";"
    | .call => name ++ "(" ++ Text.join ", " (textsOf args) ++ ")"
    | .ret => if left.isNone then "return;" else "return " ++ textOf left ++ ";"
    | .ifElse =>
      "if (" ++ textOf cond ++ ") \x7b...\x7d" ++
        if elseBranch.isSome then " else \x7b...\x7d" else ""
    | .whileLoop => "while (" ++ textOf cond ++ ") \x7b...\x7d"
    | kind => kind.name

def textOf : Option Node → Text
  | none => "<nil>"
  | some n => n.text

def textsOf : List (Option Node) → List Text
  | [] => []
  | a :: rest => textOf a :: textsOf rest

end

/-! ## Visiting -/

mutual

/-- Visits `n`, then what lies below it unless `enter` refuses, and leaves the
visited nodes backwards in front of `done`. -/
def visit (enter : Node → Bool) (n : Node) (done : List Node) : List Node :=
  match n with
  | ⟨kind, pos, name, op, value, sym, left, right, cond, thenBranch, elseBranch, args, next⟩ =>
    let n : Node :=
      ⟨kind, pos, name, op, value, sym, left, right, cond, thenBranch, elseBranch, args, next⟩
    if enter n then
      let done := visitOption enter cond (n :: done)
      let done := visitOption enter thenBranch done
      let done := visitOption enter elseBranch done
      let done := visitOption enter left done
      let done := visitOption enter right done
      let done := visitArgs enter args done
      match next with
      | none => done
      | some next => visit enter next done
    else n :: done

def visitOption (enter : Node → Bool) (n : Option Node) (done : List Node) : List Node :=
  match n with
  | none => done
  | some n => visit enter n done

def visitArgs (enter : Node → Bool) (args : List (Option Node)) (done : List Node) : List Node :=
  match args with
  | [] => done
  | a :: rest => visitArgs enter rest (visitOption enter a done)

end

/-- The nodes from `n` on in the order of visiting: a node, then, if `enter`
allows it, its children. -/
def preorder (enter : Node → Bool) (n : Node) : List Node := (visit enter n []).reverse

def all (n : Node) : List Node := n.preorder fun _ => true

end Node

end ClassForge
