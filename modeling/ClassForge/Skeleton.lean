import ClassForge.ClassDecl.Breaches
import ClassForge.ClassFile
import ClassForge.Options
import ClassForge.ParsedClass

/-!
# Class skeletons

A skeleton is a complete constant pool with the fields and methods that refer
to it, everything of a class file but the constructor's code. It is laid out in
ten phases, and since entries are numbered as they come, the phases and their
order fix every number of the file:

    #1 = Methodref    #2.#3    the constructor of the super class
    #2 = Class        #4
    #3 = NameAndType  #5:#6
    #4 = Utf8         java/lang/Object
    #5 = Utf8         <init>
    #6 = Utf8         ()V
    #7 = Class        #8       the class itself
    #8 = Utf8         Empty

Then come the finals, the members that bodies refer to, the constants, and the
names of the rest. A descriptor uses the first text of the pool that spells it;
names are never shared.
-/

namespace ClassForge

inductive LogRecord where
  /-- A phase of laying out the pool, with the entries there are after it. -/
  | phaseDone (phase : Text) (entries : Nat)
  | constructorEmitted (className : Text) (finals bytes : Nat)
  | classGenerated (className : Text) (constants fields methods : Nat)
  deriving DecidableEq, Inhabited

structure Skeleton where
  className : Text := []
  classPos : Position := {}
  pool : Pool := {}
  thisClass : UInt16 := 0
  superClass : UInt16 := 0
  superInit : UInt16 := 0
  initName : UInt16 := 0
  initDescriptor : UInt16 := 0
  codeName : UInt16 := 0
  lineTableName : UInt16 := 0
  stackMapName : UInt16 := 0
  source : SourceAttribute := ⟨0, 0⟩
  /-- The finals first, in the order of `finals`. -/
  fields : Array FieldInfo := #[]
  /-- The constructor first. -/
  methods : Array MethodInfo := #[]
  /-- The finals with the numbers of their fields. -/
  finals : Array (Final × UInt16) := #[]
  methodRefs : Std.TreeMap Text UInt16 := ∅
  fieldRefs : Std.TreeMap Text UInt16 := ∅
  references : References := {}
  deriving Inhabited

namespace Skeleton

def constructorName : Text := "<init>"
def constructorDescriptor : Text := "()V"

/-- A skeleton that is being laid out. After the first entry that its pool
refuses no other is added, and what is left to do goes on with zeros. -/
structure Attempt where
  skeleton : Skeleton := {}
  refusal : Option Pool.Refusal := none
  deriving Inhabited

namespace Attempt

def add (a : Attempt) (e : Entry) : UInt16 × Attempt :=
  match a with
  | ⟨s, some r⟩ => (0, ⟨s, some r⟩)
  | ⟨s, none⟩ =>
    let pool := s.pool
    let s := { s with pool := {} }
    match pool.add e with
    | .ok (index, pool) => (index, ⟨{ s with pool }, none⟩)
    | .error r => (0, ⟨{ s with pool }, some r⟩)

def result (a : Attempt) : Except Pool.Refusal Skeleton :=
  match a.refusal with
  | none => .ok a.skeleton
  | some r => .error r

end Attempt

/-- A step of laying out a skeleton. It does not make up for a refusal. -/
structure Build (α : Type) where
  step : Attempt → α × Attempt
  refused : ∀ a r, a.refusal = some r → (step a).2.refusal = some r

namespace Build

instance : Monad Build where
  pure x := ⟨fun a => (x, a), fun _ _ h => h⟩
  bind b f :=
    ⟨fun a => let (x, a) := b.step a; (f x).step a,
      fun a r h => (f _).refused _ r (b.refused a r h)⟩

def change (f : Skeleton → Skeleton) : Build Unit :=
  ⟨fun ⟨s, refusal⟩ => ((), ⟨f s, refusal⟩), fun _ _ h => h⟩

def see {α : Type} (f : Skeleton → α) : Build α := ⟨fun a => (f a.skeleton, a), fun _ _ h => h⟩

def add (e : Entry) : Build UInt16 where
  step a := a.add e
  refused := by
    intro ⟨s, refusal⟩ r h
    cases h
    rfl

def text (t : Text) : Build UInt16 := add (.utf8 t)

def next : Build UInt16 := see (·.pool.next)

def eachStep {α : Type} (step : α → Build Unit) : List α → Attempt → Attempt
  | [], a => a
  | x :: rest, a => eachStep step rest ((step x).step a).2

theorem refused_eachStep {α : Type} (step : α → Build Unit) {r : Pool.Refusal} :
    ∀ (items : List α) (a : Attempt), a.refusal = some r → (eachStep step items a).refusal = some r
  | [], _, h => h
  | x :: rest, a, h => refused_eachStep step rest _ ((step x).refused a r h)

def each {α : Type} (step : α → Build Unit) (items : List α) : Build Unit :=
  ⟨fun a => ((), eachStep step items a), fun a _ h => refused_eachStep step items a h⟩

/-- The text of a descriptor: the first that the pool has, else a new one. -/
def sharedText (t : Text) : Build UInt16 := do
  let found ← see (·.pool.find t)
  if found = 0 then text t else return found

/-- Adds a name with a descriptor and gives the numbers of the two texts. A
descriptor that the pool does not have comes right behind the name. -/
def nameAndType (name descriptor : Text) : Build (UInt16 × UInt16) := do
  let here ← next
  let found ← see (·.pool.find descriptor)
  if found = 0 then
    let _ ← add (.nameAndType (here + 1) (here + 2))
    return (← text name, ← text descriptor)
  else
    let _ ← add (.nameAndType (here + 1) found)
    return (← text name, found)

def reference (kind : (owner member : UInt16) → Entry) (name descriptor : Text) :
    Build (UInt16 × UInt16 × UInt16) := do
  let here ← next
  let owner ← see (·.thisClass)
  let _ ← add (kind owner (here + 1))
  let (name, descriptor) ← nameAndType name descriptor
  return (here, name, descriptor)

def addField (f : FieldInfo) : Build Unit := change fun s => { s with fields := s.fields.push f }

def addMethod (m : MethodInfo) : Build Unit :=
  change fun s => { s with methods := s.methods.push m }

/-! ## Phases -/

def head (options : Options) : Build Unit := do
  let here ← next
  let superInit ← add (.methodref (here + 1) (here + 2))
  let superClass ← add (.classRef (here + 3))
  let _ ← add (.nameAndType (here + 4) (here + 5))
  let _ ← text options.superClass
  let initName ← text constructorName
  let initDescriptor ← text constructorDescriptor
  change fun s => { s with superInit, superClass, initName, initDescriptor }

def ownClass : Build Unit := do
  let here ← next
  let thisClass ← add (.classRef (here + 1))
  let name ← see (·.className)
  let _ ← text name
  change fun s => { s with thisClass }
  let initName ← see (·.initName)
  let initDescriptor ← see (·.initDescriptor)
  addMethod ⟨Access.package, initName, initDescriptor, none⟩

def final (f : Final) : Build Unit := do
  let (here, name, descriptor) ← reference .fieldref f.name Signature.intDescriptor
  change fun s => { s with finals := s.finals.push (f, here) }
  addField ⟨Access.isFinal, name, descriptor, none⟩

def referredMethod (m : Signature) : Build Unit := do
  let (here, name, descriptor) ← reference .methodref m.name m.descriptor
  change fun s => { s with methodRefs := s.methodRefs.insert m.name here }
  addMethod ⟨Access.isPublic, name, descriptor, none⟩

def referredGlobal (v : Text) : Build Unit := do
  let (here, name, descriptor) ← reference .fieldref v Signature.intDescriptor
  change fun s => { s with fieldRefs := s.fieldRefs.insert v here }
  addField ⟨Access.package, name, descriptor, none⟩

def constant (label : UInt16) (f : Final) (i : Nat) : Build Unit := do
  let value ← add (.integer f.value)
  change fun s =>
    { s with
      fields := s.fields.modify i fun field => { field with constant := some ⟨label, value⟩ } }

def constants (finals : List Final) : Build Unit :=
  if finals.isEmpty then pure ()
  else do
    let label ← text Attribute.constantValue
    each (fun (f, i) => constant label f i) finals.zipIdx

/-- A global that no body refers to: its name is enough. -/
def otherGlobal (v : Text) : Build Unit := do
  let name ← text v
  let descriptor ← sharedText Signature.intDescriptor
  addField ⟨Access.package, name, descriptor, none⟩

def codeHead : Build Unit := do
  let codeName ← text Attribute.code
  let lineTableName ← text Attribute.lineNumberTable
  let stackMapName ← text Attribute.stackMapTable
  change fun s => { s with codeName, lineTableName, stackMapName }

/-- A method that no body refers to. Its descriptor is looked up before its
name is added, so a method never takes its own name for its descriptor. -/
def otherMethod (m : Signature) : Build Unit := do
  let found ← see (·.pool.find m.descriptor)
  let name ← text m.name
  let descriptor ← if found = 0 then text m.descriptor else pure found
  addMethod ⟨Access.isPublic, name, descriptor, none⟩

def sourceFile (options : Options) : Build Unit := do
  let name ← text Attribute.sourceFile
  let className ← see (·.className)
  let file ← text (className ++ options.sourceExtension)
  change fun s => { s with source := ⟨name, file⟩ }

def phases (options : Options) (o : Outline) : List (Text × Build Unit) := [
  ("head", head options),
  ("class", ownClass),
  ("finals", each final o.finals),
  ("references", change fun s => { s with references := o.references }),
  ("calls", do
    each referredMethod (o.methods.filter fun m => o.references.contains m.name)
    each referredGlobal (o.globals.filter o.references.contains)),
  ("constants", constants o.finals),
  ("unreferenced-vars", each otherGlobal (o.globals.filter fun v => !o.references.contains v)),
  ("code-head", codeHead),
  ("unreferenced-methods",
    each otherMethod (o.methods.filter fun m => !o.references.contains m.name)),
  ("end", sourceFile options)]

/-- Runs phases in order up to the first with a refusal, and records those that
are done. -/
def run : List (Text × Build Unit) → Attempt → (log : Array LogRecord) → Attempt × Array LogRecord
  | [], a, log => (a, log)
  | (name, phase) :: rest, a, log =>
    match phase.step a with
    | (_, ⟨s, none⟩) => run rest ⟨s, none⟩ (log.push (.phaseDone name s.pool.size))
    | (_, ⟨s, some r⟩) => (⟨s, some r⟩, log)

end Build

end Skeleton

/-- Lays out one skeleton after another. What came of a class stays until the next one
is begun, be it a skeleton or what was laid out before an entry was refused. -/
structure PoolBuilder where
  outline : Outline := default
  attempt : Skeleton.Attempt := {}
  deriving Inhabited

namespace PoolBuilder

/-- Begins a class. Of what is there only the numbers of the constructor's texts stay. -/
def begin (b : PoolBuilder) (o : Outline) : PoolBuilder where
  outline := o
  attempt := {
    skeleton := {
      className := o.name, classPos := o.pos
      initName := b.attempt.skeleton.initName
      initDescriptor := b.attempt.skeleton.initDescriptor }
    refusal := none }

def layOut (b : PoolBuilder) (options : Options) : Array LogRecord × PoolBuilder :=
  match Skeleton.Build.run (Skeleton.Build.phases options b.outline) b.attempt #[] with
  | (⟨s, none⟩, log) => (log, { b with attempt := ⟨{ s with pool := s.pool.freeze }, none⟩ })
  | (a, log) => (log, { b with attempt := a })

/-- The skeleton of a class that passes its check. A class that does not leaves the
builder as it is. -/
def build (b : PoolBuilder) (options : Options) (c : ClassDecl) :
    (Except Failure Skeleton × Array LogRecord) × PoolBuilder :=
  match c.check with
  | some f => ((.error f, #[]), b)
  | none =>
    let (log, b) := (b.begin c.outline).layOut options.effective
    ((b.attempt.result.mapError Pool.Refusal.failure, log), b)

end PoolBuilder

namespace Skeleton

def layOut (options : Options) (o : Outline) : Except Pool.Refusal Skeleton × Array LogRecord :=
  let (log, b) := (({} : PoolBuilder).begin o).layOut options
  (b.attempt.result, log)

def build (options : Options) (c : ClassDecl) : Except Failure Skeleton × Array LogRecord :=
  (({} : PoolBuilder).build options c).1

end Skeleton

end ClassForge
