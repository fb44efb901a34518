import ClassForge.Datum
import ClassForge.Document

/-!
# Documents as data

Writing leaves out what says nothing, apart from the members that make up a
declaration.
-/

namespace ClassForge

def FinalItem.toDatum (f : FinalItem) : Datum :=
  .record (Datum.member "name" (.text f.name) ++
    Datum.member "value" ((f.value.map fun v => Datum.int v.toInt).getD .null) ++
    Datum.intMember "line" f.line.toInt)

def VarItem.toDatum (v : VarItem) : Datum :=
  .record (Datum.member "name" (.text v.name) ++ Datum.intMember "line" v.line.toInt)

namespace NodeItem

mutual

def toDatum : NodeItem → Datum
  | ⟨kind, line, column, name, op, value, left, right, cond, thenItems, elseItems, args⟩ =>
    .record (Datum.member "kind" (.text kind) ++ Datum.intMember "line" line.toInt ++
      Datum.intMember "column" column.toInt ++ Datum.textMember "name" name ++
      Datum.textMember "op" op ++ Datum.intMember "value" value.toInt ++
      optionMember "left" left ++ optionMember "right" right ++ optionMember "cond" cond ++
      Datum.listMember "then" (toData thenItems []) ++
      Datum.listMember "else" (toData elseItems []) ++ Datum.listMember "args" (toData args []))

def optionMember (key : Text) : Option NodeItem → List (Text × Datum)
  | none => []
  | some n => [(key, toDatum n)]

/-- Nodes as data, behind `done`, which is backwards. -/
def toData : List NodeItem → (done : List Datum) → List Datum
  | [], done => done.reverse
  | n :: rest, done => toData rest (toDatum n :: done)

end

end NodeItem

def MethodItem.toDatum (m : MethodItem) : Datum :=
  .record (Datum.member "name" (.text m.name) ++ Datum.member "type" (.text m.type) ++
    Datum.listMember "params" (m.params.map VarItem.toDatum) ++
    Datum.listMember "locals" (m.locals.map VarItem.toDatum) ++
    Datum.listMember "body" (NodeItem.toData m.body []) ++ Datum.intMember "line" m.line.toInt)

def Document.toDatum (c : Document) : Datum :=
  .record (Datum.textMember "file" c.file ++ Datum.member "class" (.text c.className) ++
    Datum.intMember "line" c.line.toInt ++
    Datum.listMember "finals" (c.finals.map FinalItem.toDatum) ++
    Datum.listMember "vars" (c.globals.map VarItem.toDatum) ++
    Datum.listMember "methods" (c.methods.map MethodItem.toDatum))

end ClassForge
