import Std.Data.TreeMap
import ClassForge.Symbol
import ClassForge.Text.Quoted

/-!
# Scopes

A scope holds declarations in order and finds them by name; a name is declared
at most once. Scopes nest: a list of scopes, innermost first, is searched from
the inside out.
-/

namespace ClassForge

structure Scope where
  symbols : Array Symbol := #[]
  index : Std.TreeMap Text Symbol := ∅
  deriving Inhabited

namespace Scope

def get? (s : Scope) (name : Text) : Option Symbol := s.index[name]?

def contains (s : Scope) (name : Text) : Bool := s.index.contains name

def push (s : Scope) (sym : Symbol) : Scope :=
  match s with
  | ⟨symbols, index⟩ => ⟨symbols.push sym, index.insert sym.name sym⟩

def insert? (s : Scope) (sym : Symbol) : Option Scope :=
  if s.contains sym.name then none else some (s.push sym)

def taken (name : Text) : Text := "symbol " ++ name.quote ++ " already declared in scope"

/-- One more declaration; a taken name is passed over. -/
def insertNew (s : Scope) (sym : Symbol) : Scope :=
  if s.contains sym.name then s else s.push sym

/-- The scope of a list of declarations, of which the first of a name counts. -/
def ofList (syms : List Symbol) : Scope := syms.foldl insertNew {}

def params (s : Scope) : List Symbol := s.symbols.toList.filter (·.kind = .param)

/-- The innermost declaration of `name` in a chain of scopes. -/
def lookup? (chain : List Scope) (name : Text) : Option Symbol :=
  chain.findSome? (·.get? name)

end Scope

/-- Scopes that grow together, each inside an earlier one or inside none. -/
structure ScopeForest where
  nodes : Array (Option Nat × Scope) := #[]
  deriving Inhabited

namespace ScopeForest

/-- A new scope inside `parent`; its number is the size before. -/
def grow (f : ScopeForest) (parent : Option Nat) : ScopeForest :=
  { nodes := f.nodes.push (parent, {}) }

def scope (f : ScopeForest) (i : Nat) : Scope :=
  match f.nodes[i]? with
  | some (_, s) => s
  | none => {}

/-- Scope `i` and all around it, innermost first. -/
def chain (f : ScopeForest) (i : Nat) : List Scope :=
  match f.nodes[i]? with
  | none => []
  | some (none, s) => [s]
  | some (some p, s) => if _h : p < i then s :: f.chain p else [s]
termination_by i

def insert? (f : ScopeForest) (i : Nat) (sym : Symbol) : Option ScopeForest :=
  ((f.scope i).insert? sym).map fun s =>
    { nodes := f.nodes.modify i fun (parent, _) => (parent, s) }

end ScopeForest

end ClassForge
