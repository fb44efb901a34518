import ClassForge.Datum
import ClassForge.Document

/-!
# Documents part way through

Reading goes into a draft, so that of a name given twice the later counts, and
what an object leaves out stays. Names that mean nothing here are passed over.
The lists of a draft remember what a shorter list put out of sight; the document
has only what is in sight at the end.
-/

namespace ClassForge

/-! ## Drafts -/

structure NodeDraft where
  kind : Text := []
  line : Int64 := 0
  column : Int64 := 0
  name : Text := []
  op : Text := []
  value : Int32 := 0
  left : Option NodeDraft := none
  right : Option NodeDraft := none
  cond : Option NodeDraft := none
  thenItems : Slots NodeDraft := {}
  elseItems : Slots NodeDraft := {}
  args : Slots NodeDraft := {}
  deriving Inhabited

structure MethodDraft where
  name : Text := []
  type : Text := []
  params : Slots VarItem := {}
  locals : Slots VarItem := {}
  body : Slots NodeDraft := {}
  line : Int64 := 0
  deriving Inhabited

structure Draft where
  file : Text := []
  className : Text := []
  line : Int64 := 0
  finals : Slots FinalItem := {}
  globals : Slots VarItem := {}
  methods : Slots MethodDraft := {}
  deriving Inhabited

namespace NodeDraft

mutual

def finish : NodeDraft → NodeItem
  | ⟨kind, line, column, name, op, value, left, right, cond, ⟨thenItems, _⟩, ⟨elseItems, _⟩,
      ⟨args, _⟩⟩ =>
    { kind, line, column, name, op, value
      left := finish? left
      right := finish? right
      cond := finish? cond
      thenItems := finishAll thenItems []
      elseItems := finishAll elseItems []
      args := finishAll args [] }

def finish? : Option NodeDraft → Option NodeItem
  | none => none
  | some n => some (finish n)

def finishAll : List NodeDraft → (done : List NodeItem) → List NodeItem
  | [], done => done.reverse
  | n :: rest, done => finishAll rest (finish n :: done)

end

end NodeDraft

def MethodDraft.finish (m : MethodDraft) : MethodItem where
  name := m.name
  type := m.type
  params := m.params.shown
  locals := m.locals.shown
  body := NodeDraft.finishAll m.body.shown []
  line := m.line

def Draft.finish (c : Draft) : Document where
  file := c.file
  className := c.className
  line := c.line
  finals := c.finals.shown
  globals := c.globals.shown
  methods := c.methods.shown.map MethodDraft.finish

/-! ## Reading -/

namespace FinalItem

def readMember (f : FinalItem) (key : Text) (d : Datum) : Option FinalItem :=
  if key = Text.ofString "name" then (d.readText f.name).map fun name => { f with name }
  else if key = Text.ofString "value" then (d.readInt32? f.value).map fun value => { f with value }
  else if key = Text.ofString "line" then (d.readInt64 f.line).map fun line => { f with line }
  else some f

def read (f : FinalItem) (d : Datum) : Option FinalItem := d.readRecord readMember f

end FinalItem

namespace VarItem

def readMember (v : VarItem) (key : Text) (d : Datum) : Option VarItem :=
  if key = Text.ofString "name" then (d.readText v.name).map fun name => { v with name }
  else if key = Text.ofString "line" then (d.readInt64 v.line).map fun line => { v with line }
  else some v

def read (v : VarItem) (d : Datum) : Option VarItem := d.readRecord readMember v

end VarItem

namespace NodeDraft

inductive Field where
  | kind
  | line
  | column
  | name
  | op
  | value
  | left
  | right
  | cond
  | thenItems
  | elseItems
  | args
  deriving DecidableEq, Inhabited

namespace Field

def key : Field → Text
  | kind => "kind"
  | line => "line"
  | column => "column"
  | name => "name"
  | op => "op"
  | value => "value"
  | left => "left"
  | right => "right"
  | cond => "cond"
  | thenItems => "then"
  | elseItems => "else"
  | args => "args"

def all : List Field :=
  [kind, line, column, name, op, value, left, right, cond, thenItems, elseItems, args]

def ofKey? (k : Text) : Option Field := all.find? (·.key = k)

end Field

mutual

def read (n : NodeDraft) : Datum → Option NodeDraft
  | .null | .blank => some n
  | .record members => readMembers n members
  | _ => none

def read? (n : Option NodeDraft) : Datum → Option (Option NodeDraft)
  | .null => some none
  | .blank => some (some (n.getD {}))
  | .record members => (readMembers (n.getD {}) members).map some
  | _ => none

def readList (current : Slots NodeDraft) : Datum → Option (Slots NodeDraft)
  | .null | .blank | .list [] => some {}
  | .list (d :: rest) => readItems current.all (d :: rest) []
  | _ => none

/-- Reads nodes one after the other, each into the one that is in its place. -/
def readItems (current : List NodeDraft) :
    List Datum → (done : List NodeDraft) → Option (Slots NodeDraft)
  | [], done => some ⟨done.reverse, current⟩
  | d :: rest, done =>
    match read (current.headD {}) d with
    | some n => readItems current.tail rest (n :: done)
    | none => none

def readMembers (n : NodeDraft) : List (Text × Datum) → Option NodeDraft
  | [] => some n
  | (key, d) :: rest =>
    match Field.ofKey? key with
    | none => readMembers n rest
    | some field =>
      let n? :=
        match field with
        | .kind => (d.readText n.kind).map fun kind => { n with kind }
        | .line => (d.readInt64 n.line).map fun line => { n with line }
        | .column => (d.readInt64 n.column).map fun column => { n with column }
        | .name => (d.readText n.name).map fun name => { n with name }
        | .op => (d.readText n.op).map fun op => { n with op }
        | .value => (d.readInt32 n.value).map fun value => { n with value }
        | .left => (read? n.left d).map fun left => { n with left }
        | .right => (read? n.right d).map fun right => { n with right }
        | .cond => (read? n.cond d).map fun cond => { n with cond }
        | .thenItems => (readList n.thenItems d).map fun thenItems => { n with thenItems }
        | .elseItems => (readList n.elseItems d).map fun elseItems => { n with elseItems }
        | .args => (readList n.args d).map fun args => { n with args }
      match n? with
      | some n => readMembers n rest
      | none => none

end

end NodeDraft

namespace MethodDraft

def readMember (m : MethodDraft) (key : Text) (d : Datum) : Option MethodDraft :=
  if key = Text.ofString "name" then (d.readText m.name).map fun name => { m with name }
  else if key = Text.ofString "type" then (d.readText m.type).map fun type => { m with type }
  else if key = Text.ofString "params" then
    (d.readList {} VarItem.read m.params).map fun params => { m with params }
  else if key = Text.ofString "locals" then
    (d.readList {} VarItem.read m.locals).map fun locals => { m with locals }
  else if key = Text.ofString "body" then
    (NodeDraft.readList m.body d).map fun body => { m with body }
  else if key = Text.ofString "line" then (d.readInt64 m.line).map fun line => { m with line }
  else some m

def read (m : MethodDraft) (d : Datum) : Option MethodDraft := d.readRecord readMember m

end MethodDraft

namespace Draft

def readMember (c : Draft) (key : Text) (d : Datum) : Option Draft :=
  if key = Text.ofString "file" then (d.readText c.file).map fun file => { c with file }
  else if key = Text.ofString "class" then
    (d.readText c.className).map fun className => { c with className }
  else if key = Text.ofString "line" then (d.readInt64 c.line).map fun line => { c with line }
  else if key = Text.ofString "finals" then
    (d.readList {} FinalItem.read c.finals).map fun finals => { c with finals }
  else if key = Text.ofString "vars" then
    (d.readList {} VarItem.read c.globals).map fun globals => { c with globals }
  else if key = Text.ofString "methods" then
    (d.readList {} MethodDraft.read c.methods).map fun methods => { c with methods }
  else some c

end Draft

def Document.ofDatum? (d : Datum) : Option Document :=
  (d.readRecord Draft.readMember {}).map Draft.finish

end ClassForge
