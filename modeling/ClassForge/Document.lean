import ClassForge.Text.Basic

/-!
# Class documents

The description of a class as a front end writes it down: declarations and
bodies in which names are still text. Lines of zero and empty lists mean that
nothing was said.
-/

namespace ClassForge

structure FinalItem where
  name : Text := []
  value : Option Int32 := none
  line : Int64 := 0
  deriving DecidableEq, Inhabited

structure VarItem where
  name : Text := []
  line : Int64 := 0
  deriving DecidableEq, Inhabited

/-- A statement or an expression; `kind` says which of the parts count. -/
structure NodeItem where
  kind : Text := []
  line : Int64 := 0
  column : Int64 := 0
  name : Text := []
  op : Text := []
  value : Int32 := 0
  left : Option NodeItem := none
  right : Option NodeItem := none
  cond : Option NodeItem := none
  thenItems : List NodeItem := []
  elseItems : List NodeItem := []
  args : List NodeItem := []
  deriving Inhabited

structure MethodItem where
  name : Text := []
  /-- The name of the return type. -/
  type : Text := []
  params : List VarItem := []
  locals : List VarItem := []
  body : List NodeItem := []
  line : Int64 := 0
  deriving Inhabited

structure Document where
  /-- The source file, for positions. -/
  file : Text := []
  className : Text := []
  line : Int64 := 0
  finals : List FinalItem := []
  globals : List VarItem := []
  methods : List MethodItem := []
  deriving Inhabited

end ClassForge
