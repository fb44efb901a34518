import ClassForge.Skeleton

/-!
# Layouts without a limit

A plan is a skeleton on unlimited paper: its numbers are natural numbers, and
its pool always has room. The ten phases are the same; since no step can fail,
a phase is a plain change of the plan. `Skeleton.widen` reads a skeleton as the
plan that it carries out.

`Plan.Sound n T` bounds the numbers of a plan by `n` and its texts by `T`. Steps
name entries that come later, so a step keeps within `n` only if the plan does
once the step is complete.
-/

namespace ClassForge

inductive PlanEntry where
  | utf8 (text : Text)
  | integer (value : Int32)
  | classRef (name : Nat)
  | nameAndType (name descriptor : Nat)
  | fieldref (owner member : Nat)
  | methodref (owner member : Nat)
  | vacant
  deriving DecidableEq

structure PlanField where
  access : UInt16
  name : Nat
  descriptor : Nat
  /-- The numbers of the label and of the value. -/
  constant : Option (Nat × Nat) := none
  deriving DecidableEq

structure PlanMethod where
  access : UInt16
  name : Nat
  descriptor : Nat
  deriving DecidableEq

/-- A skeleton with natural numbers. -/
@[ext]
structure Plan where
  className : Text := []
  entries : List PlanEntry := []
  thisClass : Nat := 0
  superClass : Nat := 0
  superInit : Nat := 0
  initName : Nat := 0
  initDescriptor : Nat := 0
  codeName : Nat := 0
  lineTableName : Nat := 0
  stackMapName : Nat := 0
  sourceName : Nat := 0
  sourceFile : Nat := 0
  fields : List PlanField := []
  methods : List PlanMethod := []
  finals : List (Final × Nat) := []
  methodRefs : Text → Option Nat := fun _ => none
  fieldRefs : Text → Option Nat := fun _ => none

/-! ## Skeletons as plans -/

def Entry.widen : Entry → PlanEntry
  | utf8 text => .utf8 text
  | integer value => .integer value
  | classRef name => .classRef name.toNat
  | nameAndType name descriptor => .nameAndType name.toNat descriptor.toNat
  | fieldref owner member => .fieldref owner.toNat member.toNat
  | methodref owner member => .methodref owner.toNat member.toNat
  | vacant => .vacant

def FieldInfo.widen (f : FieldInfo) : PlanField :=
  ⟨f.access, f.name.toNat, f.descriptor.toNat, f.constant.map fun c => (c.name.toNat, c.value.toNat)⟩

def MethodInfo.widen (m : MethodInfo) : PlanMethod := ⟨m.access, m.name.toNat, m.descriptor.toNat⟩

def Skeleton.widen (s : Skeleton) : Plan where
  className := s.className
  entries := s.pool.entries.toList.map Entry.widen
  thisClass := s.thisClass.toNat
  superClass := s.superClass.toNat
  superInit := s.superInit.toNat
  initName := s.initName.toNat
  initDescriptor := s.initDescriptor.toNat
  codeName := s.codeName.toNat
  lineTableName := s.lineTableName.toNat
  stackMapName := s.stackMapName.toNat
  sourceName := s.source.name.toNat
  sourceFile := s.source.file.toNat
  fields := s.fields.toList.map FieldInfo.widen
  methods := s.methods.toList.map MethodInfo.widen
  finals := s.finals.toList.map fun x => (x.1, x.2.toNat)
  methodRefs := fun k => s.methodRefs[k]?.map UInt16.toNat
  fieldRefs := fun k => s.fieldRefs[k]?.map UInt16.toNat

namespace Plan

def size (p : Plan) : Nat := p.entries.length

def next (p : Plan) : Nat := p.size + 1

def find? (p : Plan) (t : Text) : Option Nat :=
  (p.entries.findIdx? (· = .utf8 t)).map (· + 1)

def push (p : Plan) (e : PlanEntry) : Plan := { p with entries := p.entries ++ [e] }

/-! ## Phases -/

def see {α : Type} (f : Plan → α) : StateM Plan α := modifyGet fun p => (f p, p)

def add (e : PlanEntry) : StateM Plan Nat := modifyGet fun p => (p.next, p.push e)

def text (t : Text) : StateM Plan Nat := add (.utf8 t)

def sharedText (t : Text) : StateM Plan Nat := do
  match ← see (·.find? t) with
  | none => text t
  | some found => return found

def nameAndType (name descriptor : Text) : StateM Plan (Nat × Nat) := do
  let here ← see next
  match ← see (·.find? descriptor) with
  | none =>
    let _ ← add (.nameAndType (here + 1) (here + 2))
    return (← text name, ← text descriptor)
  | some found =>
    let _ ← add (.nameAndType (here + 1) found)
    return (← text name, found)

def reference (kind : (owner member : Nat) → PlanEntry) (name descriptor : Text) :
    StateM Plan (Nat × Nat × Nat) := do
  let here ← see next
  let owner ← see thisClass
  let _ ← add (kind owner (here + 1))
  let (name, descriptor) ← nameAndType name descriptor
  return (here, name, descriptor)

def addField (f : PlanField) : StateM Plan Unit :=
  modify fun p => { p with fields := p.fields ++ [f] }

def addMethod (m : PlanMethod) : StateM Plan Unit :=
  modify fun p => { p with methods := p.methods ++ [m] }

def head (options : Options) : StateM Plan Unit := do
  let here ← see next
  let superInit ← add (.methodref (here + 1) (here + 2))
  let superClass ← add (.classRef (here + 3))
  let _ ← add (.nameAndType (here + 4) (here + 5))
  let _ ← text options.superClass
  let initName ← text Skeleton.constructorName
  let initDescriptor ← text Skeleton.constructorDescriptor
  modify fun p => { p with superInit, superClass, initName, initDescriptor }

def ownClass : StateM Plan Unit := do
  let here ← see next
  let thisClass ← add (.classRef (here + 1))
  let name ← see className
  let _ ← text name
  modify fun p => { p with thisClass }
  let initName ← see initName
  let initDescriptor ← see initDescriptor
  addMethod ⟨Access.package, initName, initDescriptor⟩

def final (f : Final) : StateM Plan Unit := do
  let (here, name, descriptor) ← reference .fieldref f.name Signature.intDescriptor
  modify fun p => { p with finals := p.finals ++ [(f, here)] }
  addField ⟨Access.isFinal, name, descriptor, none⟩

def referredMethod (m : Signature) : StateM Plan Unit := do
  let (here, name, descriptor) ← reference .methodref m.name m.descriptor
  modify fun p => { p with methodRefs := fun k => if k = m.name then some here else p.methodRefs k }
  addMethod ⟨Access.isPublic, name, descriptor⟩

def referredGlobal (v : Text) : StateM Plan Unit := do
  let (here, name, descriptor) ← reference .fieldref v Signature.intDescriptor
  modify fun p => { p with fieldRefs := fun k => if k = v then some here else p.fieldRefs k }
  addField ⟨Access.package, name, descriptor, none⟩

def constant (label : Nat) (f : Final) (i : Nat) : StateM Plan Unit := do
  let value ← add (.integer f.value)
  modify fun p =>
    { p with
      fields := p.fields.modify i fun field => { field with constant := some (label, value) } }

def constants (finals : List Final) : StateM Plan Unit :=
  if finals.isEmpty then pure ()
  else do
    let label ← text Attribute.constantValue
    finals.zipIdx.forM fun (f, i) => constant label f i

def otherGlobal (v : Text) : StateM Plan Unit := do
  let name ← text v
  let descriptor ← sharedText Signature.intDescriptor
  addField ⟨Access.package, name, descriptor, none⟩

def codeHead : StateM Plan Unit := do
  let codeName ← text Attribute.code
  let lineTableName ← text Attribute.lineNumberTable
  let stackMapName ← text Attribute.stackMapTable
  modify fun p => { p with codeName, lineTableName, stackMapName }

def otherMethod (m : Signature) : StateM Plan Unit := do
  let found ← see (·.find? m.descriptor)
  let name ← text m.name
  let descriptor ← match found with
    | none => text m.descriptor
    | some found => pure found
  addMethod ⟨Access.isPublic, name, descriptor⟩

def sourceText (options : Options) : StateM Plan Unit := do
  let sourceName ← text Attribute.sourceFile
  let className ← see className
  let sourceFile ← text (className ++ options.sourceExtension)
  modify fun p => { p with sourceName, sourceFile }

def phases (options : Options) (o : Outline) : List (StateM Plan Unit) := [
  head options,
  ownClass,
  o.finals.forM final,
  pure (),
  do
    (o.methods.filter fun m => o.references.contains m.name).forM referredMethod
    (o.globals.filter o.references.contains).forM referredGlobal,
  constants o.finals,
  (o.globals.filter fun v => !o.references.contains v).forM otherGlobal,
  codeHead,
  (o.methods.filter fun m => !o.references.contains m.name).forM otherMethod,
  sourceText options]

def layOut (options : Options) (o : Outline) : Plan :=
  ((phases options o).forM id { className := o.name }).2

section
variable {α β : Type}

theorem run_bind (r : StateM Plan α) (g : α → StateM Plan β) (p : Plan) :
    (r >>= g) p = g (r p).1 (r p).2 := rfl

theorem run_see (f : Plan → α) (p : Plan) : see f p = (f p, p) := rfl

theorem run_text (t : Text) (p : Plan) : text t p = (p.next, p.push (.utf8 t)) := rfl

end

/-! ## Numbering -/

section
variable {p : Plan}

@[simp] theorem size_push (p : Plan) (e : PlanEntry) : (p.push e).size = p.size + 1 := by
  simp [size, push]

@[simp] theorem next_push (p : Plan) (e : PlanEntry) : (p.push e).next = p.next + 1 := by
  simp [next]

theorem next_le_of_push {e : PlanEntry} {n : Nat} (h : (p.push e).size ≤ n) : p.next ≤ n := by
  rwa [size_push] at h

theorem find?_push (p : Plan) (e : PlanEntry) (t : Text) :
    (p.push e).find? t = (p.find? t).or (if e = .utf8 t then some p.next else none) := by
  simp only [find?, push, List.findIdx?_append, List.findIdx?_singleton, decide_eq_true_eq]
  cases p.entries.findIdx? (· = .utf8 t) with
  | some i => simp
  | none =>
    by_cases h : e = .utf8 t
    · simp [h, next, size]
    · simp [h]

theorem find?_bounds {i : Nat} {t : Text} (h : p.find? t = some i) : 0 < i ∧ i ≤ p.size := by
  obtain ⟨j, hj, rfl⟩ := Option.map_eq_some_iff.mp h
  obtain ⟨hlt, -⟩ := List.findIdx?_eq_some_iff_getElem.mp hj
  exact ⟨Nat.succ_pos j, hlt⟩

theorem sharedText_eq (t : Text) (p : Plan) :
    sharedText t p =
      match p.find? t with
      | none => (p.next, p.push (.utf8 t))
      | some i => (i, p) := by
  simp only [sharedText, run_bind, run_see]
  cases p.find? t <;> rfl

theorem le_size_sharedText (t : Text) (p : Plan) : p.size ≤ (sharedText t p).2.size := by
  rw [sharedText_eq]
  split <;> simp

theorem nameAndType_eq (name descriptor : Text) (p : Plan) :
    nameAndType name descriptor p =
      match p.find? descriptor with
      | none => ((p.next + 1, p.next + 2),
          ((p.push (.nameAndType (p.next + 1) (p.next + 2))).push (.utf8 name)).push (.utf8 descriptor))
      | some i => ((p.next + 1, i), (p.push (.nameAndType (p.next + 1) i)).push (.utf8 name)) := by
  simp only [nameAndType, run_bind, run_see]
  cases p.find? descriptor with
  | none =>
    show (((p.push _).next, ((p.push _).push _).next), _) = _
    rw [next_push, next_push, next_push]
  | some i =>
    show (((p.push _).next, _), _) = _
    rw [next_push]

theorem le_size_nameAndType (name descriptor : Text) (p : Plan) :
    p.size + 2 ≤ (nameAndType name descriptor p).2.size := by
  rw [nameAndType_eq]
  split <;> simp

theorem reference_eq (kind : Nat → Nat → PlanEntry) (name descriptor : Text) (p : Plan) :
    reference kind name descriptor p =
      ((p.next, (nameAndType name descriptor (p.push (kind p.thisClass (p.next + 1)))).1),
        (nameAndType name descriptor (p.push (kind p.thisClass (p.next + 1)))).2) := rfl

end

end Plan

/-! ## Bounded plans -/

def PlanEntry.Fits (n : Nat) (T : Text → Prop) : PlanEntry → Prop
  | utf8 t => T t
  | integer _ => True
  | classRef i => i ≤ n
  | nameAndType i j => i ≤ n ∧ j ≤ n
  | fieldref i j => i ≤ n ∧ j ≤ n
  | methodref i j => i ≤ n ∧ j ≤ n
  | vacant => True

structure PlanField.Fits (n : Nat) (f : PlanField) : Prop where
  name : f.name ≤ n
  descriptor : f.descriptor ≤ n
  constant : ∀ c ∈ f.constant, c.1 ≤ n ∧ c.2 ≤ n

theorem forall_mem_modify {α : Type} {P : α → Prop} {g : α → α} (hg : ∀ x, P x → P (g x)) :
    ∀ {l : List α} (i : Nat), (∀ x ∈ l, P x) → ∀ x ∈ l.modify i g, P x
  | [], i, h => by simp
  | y :: l, 0, h => by
    simp only [List.modify_zero_cons, List.forall_mem_cons] at h ⊢
    exact ⟨hg y h.1, h.2⟩
  | y :: l, i + 1, h => by
    simp only [List.modify_succ_cons, List.forall_mem_cons] at h ⊢
    exact ⟨h.1, forall_mem_modify hg i h.2⟩

theorem forall_mem_snoc {α : Type} {P : α → Prop} {l : List α} {x : α} (h : ∀ y ∈ l, P y) (hx : P x) :
    ∀ y ∈ l ++ [x], P y := by
  intro y hy
  rcases List.mem_append.mp hy with hy | hy
  · exact h y hy
  · rw [List.mem_singleton.mp hy]
    exact hx

namespace Plan

structure Sound (n : Nat) (T : Text → Prop) (c : Text) (p : Plan) : Prop where
  className : p.className = c
  entries : ∀ e ∈ p.entries, e.Fits n T
  thisClass : p.thisClass ≤ n
  superClass : p.superClass ≤ n
  superInit : p.superInit ≤ n
  initName : p.initName ≤ n
  initDescriptor : p.initDescriptor ≤ n
  codeName : p.codeName ≤ n
  lineTableName : p.lineTableName ≤ n
  stackMapName : p.stackMapName ≤ n
  sourceName : p.sourceName ≤ n
  sourceFile : p.sourceFile ≤ n
  fields : ∀ f ∈ p.fields, f.Fits n
  methods : ∀ m ∈ p.methods, m.name ≤ n ∧ m.descriptor ≤ n
  finals : ∀ x ∈ p.finals, x.2 ≤ n
  methodRefs : ∀ k i, p.methodRefs k = some i → i ≤ n
  fieldRefs : ∀ k i, p.fieldRefs k = some i → i ≤ n

section
variable {n : Nat} {T : Text → Prop} {c : Text} {p : Plan}

theorem Sound.push (h : Sound n T c p) {e : PlanEntry} (he : e.Fits n T) : Sound n T c (p.push e) :=
  { h with entries := forall_mem_snoc h.entries he }

theorem Sound.text (h : Sound n T c p) {t : Text} (ht : T t) : Sound n T c (p.push (.utf8 t)) :=
  h.push ht

theorem Sound.addField (h : Sound n T c p) {f : PlanField} (hf : f.Fits n) :
    Sound n T c { p with fields := p.fields ++ [f] } :=
  { h with fields := forall_mem_snoc h.fields hf }

theorem Sound.addMethod (h : Sound n T c p) {m : PlanMethod} (hn : m.name ≤ n) (hd : m.descriptor ≤ n) :
    Sound n T c { p with methods := p.methods ++ [m] } :=
  { h with methods := forall_mem_snoc h.methods ⟨hn, hd⟩ }

theorem Sound.addFinal (h : Sound n T c p) {f : Final} {i : Nat} (hi : i ≤ n) :
    Sound n T c { p with finals := p.finals ++ [(f, i)] } :=
  { h with finals := forall_mem_snoc h.finals hi }

theorem le_of_update {f : Text → Option Nat} (h : ∀ k i, f k = some i → i ≤ n) {name : Text} {i : Nat}
    (hi : i ≤ n) (k : Text) (j : Nat) (hj : (if k = name then some i else f k) = some j) : j ≤ n := by
  split at hj
  · cases hj
    exact hi
  · exact h k j hj

theorem Sound.addCall (h : Sound n T c p) {name : Text} {i : Nat} (hi : i ≤ n) :
    Sound n T c { p with methodRefs := fun k => if k = name then some i else p.methodRefs k } :=
  { h with methodRefs := le_of_update h.methodRefs hi }

theorem Sound.addUse (h : Sound n T c p) {name : Text} {i : Nat} (hi : i ≤ n) :
    Sound n T c { p with fieldRefs := fun k => if k = name then some i else p.fieldRefs k } :=
  { h with fieldRefs := le_of_update h.fieldRefs hi }

/-! ## Steps keep within a bound -/

theorem Sound.sharedText (h : Sound n T c p) {t : Text} (ht : T t)
    (hle : (Plan.sharedText t p).2.size ≤ n) :
    Sound n T c (Plan.sharedText t p).2 ∧ (Plan.sharedText t p).1 ≤ n := by
  rw [sharedText_eq] at hle ⊢
  cases hf : p.find? t with
  | none =>
    simp only [hf] at hle ⊢
    exact ⟨h.text ht, next_le_of_push hle⟩
  | some i =>
    simp only [hf] at hle ⊢
    exact ⟨h, Nat.le_trans (find?_bounds hf).2 hle⟩

theorem Sound.nameAndType (h : Sound n T c p) {name descriptor : Text} (hn : T name) (hd : T descriptor)
    (hle : (Plan.nameAndType name descriptor p).2.size ≤ n) :
    Sound n T c (Plan.nameAndType name descriptor p).2 ∧
      (Plan.nameAndType name descriptor p).1.1 ≤ n ∧ (Plan.nameAndType name descriptor p).1.2 ≤ n := by
  rw [nameAndType_eq] at hle ⊢
  cases hf : p.find? descriptor with
  | none =>
    simp only [hf, size_push, next] at hle ⊢
    refine ⟨?_, by omega, by omega⟩
    have hentry : (PlanEntry.nameAndType (p.size + 1 + 1) (p.size + 1 + 2)).Fits n T :=
      ⟨by omega, by omega⟩
    exact ((h.push hentry).text hn).text hd
  | some i =>
    have hi := (find?_bounds hf).2
    simp only [hf, size_push, next] at hle ⊢
    refine ⟨?_, by omega, by omega⟩
    have hentry : (PlanEntry.nameAndType (p.size + 1 + 1) i).Fits n T := ⟨by omega, by omega⟩
    exact (h.push hentry).text hn

theorem Sound.reference (h : Sound n T c p) {k : Nat → Nat → PlanEntry}
    (hk : ∀ i j, i ≤ n → j ≤ n → (k i j).Fits n T) {name descriptor : Text} (hn : T name)
    (hd : T descriptor) (hle : (Plan.reference k name descriptor p).2.size ≤ n) :
    Sound n T c (Plan.reference k name descriptor p).2 ∧
      (Plan.reference k name descriptor p).1.1 ≤ n ∧
      (Plan.reference k name descriptor p).1.2.1 ≤ n ∧
      (Plan.reference k name descriptor p).1.2.2 ≤ n := by
  rw [reference_eq] at hle ⊢
  -- the entry names the one behind it, which is there once the step is complete
  have hgrow := le_size_nameAndType name descriptor (p.push (k p.thisClass (p.next + 1)))
  rw [size_push] at hgrow
  simp only [next] at hle hgrow ⊢
  have hpush : Sound n T c (p.push (k p.thisClass (p.size + 1 + 1))) :=
    h.push (hk _ _ h.thisClass (by omega))
  exact ⟨(hpush.nameAndType hn hd hle).1, by omega, (hpush.nameAndType hn hd hle).2⟩

theorem Sound.final (h : Sound n T c p) {f : Final} (hn : T f.name) (hd : T Signature.intDescriptor)
    (hle : (Plan.final f p).2.size ≤ n) : Sound n T c (Plan.final f p).2 := by
  obtain ⟨hq, hi, hname, hdesc⟩ := h.reference (k := .fieldref) (fun _ _ hi hj => ⟨hi, hj⟩) hn hd hle
  exact (hq.addFinal hi).addField ⟨hname, hdesc, by simp⟩

theorem Sound.referredMethod (h : Sound n T c p) {m : Signature} (hn : T m.name) (hd : T m.descriptor)
    (hle : (Plan.referredMethod m p).2.size ≤ n) : Sound n T c (Plan.referredMethod m p).2 := by
  obtain ⟨hq, hi, hname, hdesc⟩ := h.reference (k := .methodref) (fun _ _ hi hj => ⟨hi, hj⟩) hn hd hle
  exact (hq.addCall hi).addMethod hname hdesc

theorem Sound.referredGlobal (h : Sound n T c p) {v : Text} (hn : T v) (hd : T Signature.intDescriptor)
    (hle : (Plan.referredGlobal v p).2.size ≤ n) : Sound n T c (Plan.referredGlobal v p).2 := by
  obtain ⟨hq, hi, hname, hdesc⟩ := h.reference (k := .fieldref) (fun _ _ hi hj => ⟨hi, hj⟩) hn hd hle
  exact (hq.addUse hi).addField ⟨hname, hdesc, by simp⟩

theorem Sound.constant (h : Sound n T c p) {label : Nat} (hlabel : label ≤ n) {f : Final} {i : Nat}
    (hle : (Plan.constant label f i p).2.size ≤ n) : Sound n T c (Plan.constant label f i p).2 := by
  have hvalue := next_le_of_push (e := .integer f.value) hle
  have hpush : Sound n T c (p.push (.integer f.value)) := h.push trivial
  refine { hpush with fields := forall_mem_modify (fun x hx => ?_) i h.fields }
  refine ⟨hx.name, hx.descriptor, fun k hk => ?_⟩
  cases hk
  exact ⟨hlabel, hvalue⟩

theorem Sound.otherGlobal (h : Sound n T c p) {v : Text} (hn : T v) (hd : T Signature.intDescriptor)
    (hle : (Plan.otherGlobal v p).2.size ≤ n) : Sound n T c (Plan.otherGlobal v p).2 := by
  obtain ⟨hq, hi⟩ := (h.text hn).sharedText hd hle
  have hname := next_le_of_push (Nat.le_trans (le_size_sharedText _ _) hle)
  exact hq.addField ⟨hname, hi, by simp⟩

theorem Sound.codeHead (h : Sound n T c p) (h₁ : T Attribute.code) (h₂ : T Attribute.lineNumberTable)
    (h₃ : T Attribute.stackMapTable) (hle : (Plan.codeHead p).2.size ≤ n) :
    Sound n T c (Plan.codeHead p).2 := by
  have hnext := next_le_of_push (p := (p.push (.utf8 Attribute.code)).push (.utf8 Attribute.lineNumberTable)) hle
  simp only [next_push] at hnext
  refine { ((h.text h₁).text h₂).text h₃ with codeName := ?_, lineTableName := ?_, stackMapName := ?_ }
  · show p.next ≤ n
    omega
  · show (p.push _).next ≤ n
    rw [next_push]
    omega
  · show ((p.push _).push _).next ≤ n
    rw [next_push, next_push]
    exact hnext

theorem Sound.otherMethod (h : Sound n T c p) {m : Signature} (hn : T m.name) (hd : T m.descriptor)
    (hle : (Plan.otherMethod m p).2.size ≤ n) : Sound n T c (Plan.otherMethod m p).2 := by
  have hrun : (Plan.otherMethod m p).2 =
      match p.find? m.descriptor with
      | none => (Plan.addMethod ⟨Access.isPublic, p.next, p.next + 1⟩
          ((p.push (.utf8 m.name)).push (.utf8 m.descriptor))).2
      | some i => (Plan.addMethod ⟨Access.isPublic, p.next, i⟩ (p.push (.utf8 m.name))).2 := by
    rw [← next_push p (.utf8 m.name)]
    simp only [Plan.otherMethod, run_bind, run_see, run_text]
    cases p.find? m.descriptor <;> rfl
  rw [hrun] at hle ⊢
  cases hf : p.find? m.descriptor with
  | none =>
    simp only [hf] at hle ⊢
    have hdesc := next_le_of_push (p := p.push (.utf8 m.name)) hle
    rw [next_push] at hdesc
    exact ((h.text hn).text hd).addMethod (Nat.le_of_succ_le hdesc) hdesc
  | some i =>
    simp only [hf] at hle ⊢
    have hname := next_le_of_push hle
    exact (h.text hn).addMethod hname (Nat.le_trans (find?_bounds hf).2 (Nat.le_of_succ_le hname))

theorem Sound.sourceText (h : Sound n T c p) {options : Options} (h₁ : T Attribute.sourceFile)
    (h₂ : T (c ++ options.sourceExtension)) (hle : (Plan.sourceText options p).2.size ≤ n) :
    Sound n T c (Plan.sourceText options p).2 := by
  have hnext := next_le_of_push (p := p.push (.utf8 Attribute.sourceFile)) hle
  rw [next_push] at hnext
  rw [← h.className] at h₂
  refine { (h.text h₁).text h₂ with sourceName := Nat.le_of_succ_le hnext, sourceFile := ?_ }
  show (p.push _).next ≤ n
  rw [next_push]
  exact hnext

/-! ## All phases -/

section
variable {α : Type} {r : α → StateM Plan Unit}

theorem size_le_forM : ∀ {xs : List α}, (∀ x ∈ xs, ∀ q, q.size ≤ (r x q).2.size) →
    ∀ p, p.size ≤ (xs.forM r p).2.size
  | [], _, _ => Nat.le_refl _
  | x :: _, hgrow, p =>
    Nat.le_trans (hgrow x (List.mem_cons_self ..) p)
      (size_le_forM (fun y hy => hgrow y (List.mem_cons_of_mem _ hy)) (r x p).2)

/-- A loop keeps within a bound if its rounds do. -/
theorem Sound.forM {p : Plan} (h : Sound n T c p) {xs : List α}
    (hgrow : ∀ x ∈ xs, ∀ q, q.size ≤ (r x q).2.size)
    (hstep : ∀ x ∈ xs, ∀ q, Sound n T c q → (r x q).2.size ≤ n → Sound n T c (r x q).2)
    (hle : (xs.forM r p).2.size ≤ n) : Sound n T c (xs.forM r p).2 := by
  induction xs generalizing p with
  | nil => exact h
  | cons x xs ih =>
    rw [List.forall_mem_cons] at hgrow hstep
    have hle' : (r x p).2.size ≤ n := Nat.le_trans (size_le_forM hgrow.2 _) hle
    exact ih (hstep.1 p h hle') hgrow.2 hstep.2 hle

end

end

end Plan

end ClassForge
