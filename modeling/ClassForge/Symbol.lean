import ClassForge.Diagnostic

/-!
# Symbols
-/

namespace ClassForge

inductive SymbolKind where
  | invalid
  | classSym
  | const
  | var
  | param
  | proc
  deriving DecidableEq, Inhabited

namespace SymbolKind

/-- Kinds by number; every number beyond the last is `invalid`. -/
def ofByte : UInt8 → SymbolKind
  | 1 => classSym
  | 2 => const
  | 3 => var
  | 4 => param
  | 5 => proc
  | _ => invalid

def name : SymbolKind → Text
  | invalid => "invalid"
  | classSym => "class"
  | const => "const"
  | var => "var"
  | param => "param"
  | proc => "proc"

end SymbolKind

inductive ValueType where
  | unknown
  | void
  | int
  | bool
  deriving DecidableEq, Inhabited

namespace ValueType

def ofByte : UInt8 → ValueType
  | 1 => void
  | 2 => int
  | 3 => bool
  | _ => unknown

def toNat : ValueType → Nat
  | unknown => 0
  | void => 1
  | int => 2
  | bool => 3

def name : ValueType → Text
  | unknown => "unknown"
  | void => "void"
  | int => "int"
  | bool => "bool"

def parse? (word : Text) : Option ValueType :=
  if word = Text.ofString "void" then some void
  else if word = Text.ofString "int" then some int
  else if word = Text.ofString "bool" || word = Text.ofString "boolean" then some bool
  else none

end ValueType

/-- A declared name. `value` counts only for a constant that has one. -/
structure Symbol where
  name : Text
  kind : SymbolKind
  type : ValueType := .unknown
  value : Int32 := 0
  hasValue : Bool := false
  pos : Position := {}
  deriving DecidableEq, Inhabited

namespace Symbol

def text (s : Symbol) : Text := s.kind.name ++ " " ++ s.type.name ++ " " ++ s.name

end Symbol

end ClassForge
