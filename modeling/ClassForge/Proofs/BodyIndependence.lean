import ClassForge.Generator
import ClassForge.Proofs.Mentions
import ClassForge.Proofs.Resolves

/-!
# What bodies decide about a class file

Two classes that declare the same members compile to the same bytes, or fail alike, if
their bodies mention the same members. The layout records the references of the bodies
and looks at them only to tell members that are referred to from the others, so all
that can differ is the record, and no byte comes from there.
-/

namespace ClassForge

namespace Skeleton

def refer (r : References) (s : Skeleton) : Skeleton := { s with references := r }

namespace Build

variable {α β : Type}

/-- The step neither looks at the record of references nor changes it. -/
def Ignores (b : Build α) : Prop :=
  ∀ r s, b (s.refer r) = (b s).map fun found => (found.1, found.2.refer r)

theorem ignores_pure (x : α) : Ignores (pure x) := fun _ _ => rfl

theorem Ignores.bind {b : Build α} {f : α → Build β} (hb : Ignores b) (hf : ∀ x, Ignores (f x)) :
    Ignores (b >>= f) := by
  intro r s
  rw [bind_apply, bind_apply, hb r s]
  cases b s with
  | error e => rfl
  | ok found => exact hf found.1 r found.2

theorem Ignores.ite {p : Prop} [Decidable p] {b b' : Build α} (hb : Ignores b) (hb' : Ignores b') :
    Ignores (if p then b else b') := by
  split
  · exact hb
  · exact hb'

theorem ignores_see {f : Skeleton → α} (h : ∀ r s, f (s.refer r) = f s) : Ignores (see f) := by
  intro r s
  rw [see_apply, see_apply, h]
  rfl

theorem ignores_change {f : Skeleton → Skeleton} (h : ∀ r s, f (s.refer r) = (f s).refer r) :
    Ignores (change f) := by
  intro r s
  rw [change_apply, change_apply, h]
  rfl

theorem ignores_add (e : Entry) : Ignores (add e) := by
  intro r s
  rw [add_apply, add_apply]
  show (s.pool.add e).map _ = _
  cases s.pool.add e <;> rfl

theorem ignores_text (t : Text) : Ignores (text t) := ignores_add _

theorem ignores_next : Ignores next := ignores_see fun _ _ => rfl

theorem ignores_find (t : Text) : Ignores (see (·.pool.find t)) := ignores_see fun _ _ => rfl

theorem Ignores.each {step : α → Build Unit} (h : ∀ x, Ignores (step x)) (xs : List α) :
    Ignores (each step xs) := by
  induction xs with
  | nil => exact ignores_pure ()
  | cons x xs ih =>
    rw [each_cons]
    exact (h x).bind fun _ => ih

theorem ignores_sharedText (t : Text) : Ignores (sharedText t) :=
  (ignores_find t).bind fun _ => (ignores_text t).ite (ignores_pure _)

theorem ignores_nameAndType (name descriptor : Text) : Ignores (nameAndType name descriptor) := by
  refine ignores_next.bind fun here => (ignores_find descriptor).bind fun found => ?_
  refine Ignores.ite ?_ ?_
  · exact (ignores_add _).bind fun _ => (ignores_text _).bind fun _ =>
      (ignores_text _).bind fun _ => ignores_pure _
  · exact (ignores_add _).bind fun _ => (ignores_text _).bind fun _ => ignores_pure _

theorem ignores_reference (kind : UInt16 → UInt16 → Entry) (name descriptor : Text) :
    Ignores (reference kind name descriptor) :=
  ignores_next.bind fun _ => (ignores_see fun _ _ => rfl).bind fun _ => (ignores_add _).bind fun _ =>
    (ignores_nameAndType name descriptor).bind fun _ => ignores_pure _

theorem ignores_addField (f : FieldInfo) : Ignores (addField f) := ignores_change fun _ _ => rfl

theorem ignores_addMethod (m : MethodInfo) : Ignores (addMethod m) := ignores_change fun _ _ => rfl

/-! ## Phases behind the record -/

theorem ignores_referredMethod (m : Signature) : Ignores (referredMethod m) :=
  (ignores_reference _ _ _).bind fun _ => (ignores_change fun _ _ => rfl).bind fun _ =>
    ignores_addMethod _

theorem ignores_referredGlobal (v : Text) : Ignores (referredGlobal v) :=
  (ignores_reference _ _ _).bind fun _ => (ignores_change fun _ _ => rfl).bind fun _ =>
    ignores_addField _

theorem ignores_constants (finals : List Final) : Ignores (constants finals) :=
  (ignores_pure ()).ite <| (ignores_text _).bind fun _ =>
    Ignores.each (fun _ => (ignores_add _).bind fun _ => ignores_change fun _ _ => rfl) _

theorem ignores_otherGlobal (v : Text) : Ignores (otherGlobal v) :=
  (ignores_text v).bind fun _ => (ignores_sharedText _).bind fun _ => ignores_addField _

theorem ignores_codeHead : Ignores codeHead :=
  (ignores_text _).bind fun _ => (ignores_text _).bind fun _ => (ignores_text _).bind fun _ =>
    ignores_change fun _ _ => rfl

theorem ignores_otherMethod (m : Signature) : Ignores (otherMethod m) :=
  (ignores_find _).bind fun _ => (ignores_text _).bind fun _ =>
    ((ignores_text _).bind fun _ => ignores_addMethod _).ite
      ((ignores_pure _).bind fun _ => ignores_addMethod _)

theorem ignores_sourceFile (options : Options) : Ignores (sourceFile options) :=
  (ignores_text _).bind fun _ => (ignores_see fun _ _ => rfl).bind fun _ => (ignores_text _).bind fun _ =>
    ignores_change fun _ _ => rfl

theorem outcomes_refer {phases : List (Text × Build Unit)} (h : ∀ x ∈ phases, Ignores x.2) (r : References)
    (s : Skeleton) (log : Array LogRecord) :
    outcomes phases (s.refer r) log =
      ((outcomes phases s log).1.map (refer r), (outcomes phases s log).2) := by
  induction phases generalizing s log with
  | nil => rfl
  | cons x phases ih =>
    obtain ⟨name, phase⟩ := x
    rw [List.forall_mem_cons] at h
    have hphase : phase (s.refer r) = (phase s).map fun found => (found.1, found.2.refer r) := h.1 r s
    rw [outcomes_cons, outcomes_cons, hphase]
    cases phase s with
    | error e => rfl
    | ok found => exact ih h.2 _ _

theorem outcomes_record (before : List (Text × Build Unit)) {after : List (Text × Build Unit)}
    (h : ∀ x ∈ after, Ignores x.2) (name : Text) (r r' : References) (s : Skeleton)
    (log : Array LogRecord) :
    outcomes (before ++ (name, change (refer r')) :: after) s log =
      ((outcomes (before ++ (name, change (refer r)) :: after) s log).1.map (refer r'),
        (outcomes (before ++ (name, change (refer r)) :: after) s log).2) := by
  -- nothing is recorded before, so the phases there start alike and stop alike
  induction before generalizing s log with
  | nil => exact outcomes_refer h r' (s.refer r) _
  | cons x before ih =>
    obtain ⟨name, phase⟩ := x
    rw [List.cons_append, List.cons_append, outcomes_cons, outcomes_cons]
    cases phase s with
    | error e => rfl
    | ok found => exact ih _ _

theorem ignores_after (options : Options) (o : Outline) :
    ∀ x ∈ (phases options o).drop 4, Ignores x.2 := by
  simp only [phases, List.drop_succ_cons, List.drop_zero, List.forall_mem_cons, List.not_mem_nil,
    false_imp_iff, implies_true, and_true]
  refine ⟨?_, ignores_constants _, Ignores.each ignores_otherGlobal _, ignores_codeHead,
    Ignores.each ignores_otherMethod _, ignores_sourceFile _⟩
  exact (Ignores.each ignores_referredMethod _).bind fun _ => Ignores.each ignores_referredGlobal _

variable {o : Outline} {r : References}

theorem outcomes_phases (options : Options)
    (hm : ∀ m ∈ o.methods, r.contains m.name = o.references.contains m.name)
    (hg : ∀ v ∈ o.globals, r.contains v = o.references.contains v) (s : Skeleton)
    (log : Array LogRecord) :
    outcomes (phases options { o with references := r }) s log =
      ((outcomes (phases options o) s log).1.map (refer r), (outcomes (phases options o) s log).2) := by
  -- the phases behind the record filter the members, and the filters agree
  have hafter : (phases options { o with references := r }).drop 4 = (phases options o).drop 4 := by
    simp only [phases, List.drop_succ_cons, List.drop_zero]
    rw [List.filter_congr hm, List.filter_congr hg,
      List.filter_congr fun m hmem => congrArg (!·) (hm m hmem),
      List.filter_congr fun v hmem => congrArg (!·) (hg v hmem)]
  have hphases : phases options { o with references := r } =
      (phases options o).take 3 ++ (("references" : Text), change (refer r)) ::
        (phases options o).drop 4 := by
    rw [← hafter]
    rfl
  rw [hphases]
  exact outcomes_record ((phases options o).take 3) (ignores_after options o) _ o.references r s log

end Build

theorem layOut_refer (options : Options) {o : Outline} {r : References}
    (hm : ∀ m ∈ o.methods, r.contains m.name = o.references.contains m.name)
    (hg : ∀ v ∈ o.globals, r.contains v = o.references.contains v) :
    layOut options { o with references := r } =
      ((layOut options o).1.map (refer r), (layOut options o).2) := by
  have hrun := Build.outcomes_phases options hm hg { className := o.name, classPos := o.pos } #[]
  rw [layOut_eq, layOut_eq, hrun]
  obtain ⟨found, log⟩ := Build.outcomes (Build.phases options o)
    { className := o.name, classPos := o.pos } #[]
  cases found <;> rfl

end Skeleton

/-! ## Classes with the same declarations -/

theorem MethodDecl.name_of_signature? {d : MethodDecl} {m : Signature} (h : d.signature? = some m) :
    d.name = m.name := by
  unfold signature? at h
  obtain ⟨proc, hproc, hm⟩ := Option.bind_eq_some_iff.mp h
  unfold signature at hm
  cases hscope : d.scope with
  | none => simp [hscope, Except.toOption] at hm
  | some scope =>
    cases hreturns : proc.returnType with
    | error e => simp [hscope, hreturns, Except.toOption, Except.map] at hm
    | ok returns =>
      simp only [hscope, hreturns, Except.map, Except.toOption, Option.some.injEq] at hm
      simp [← hm, name, hproc]

namespace ClassDecl

structure SameDeclarations (c c' : ClassDecl) : Prop where
  symbol : c.symbol = c'.symbol
  pos : c.pos = c'.pos
  finals : c.finals = c'.finals
  globals : c.globals = c'.globals
  methods : c.methods.map (·.bind MethodDecl.signature?) =
    c'.methods.map (·.bind MethodDecl.signature?)

structure SameMentions (c c' : ClassDecl) : Prop where
  globals : ∀ v, some v ∈ c.globals → (c.Mentions v.name ↔ c'.Mentions v.name)
  methods : ∀ m, some m ∈ c.methods → (c.Mentions m.name ↔ c'.Mentions m.name)

variable {c c' : ClassDecl}

theorem SameDeclarations.outline_eq (h : c.SameDeclarations c') :
    c'.outline = { c.outline with references := c'.references } := by
  have hmethods := congrArg (List.filterMap id) h.methods
  rw [List.filterMap_map, List.filterMap_map] at hmethods
  simp only [outline, name, h.symbol, h.pos, h.finals, h.globals, Outline.mk.injEq, true_and, and_true]
  exact hmethods.symm

theorem contains_eq {x : Text} (h : c.Mentions x ↔ c'.Mentions x) :
    c'.references.contains x = c.references.contains x := by
  rw [Bool.eq_iff_iff, contains_references, contains_references, h]

theorem exists_method_of_signature {m : Signature} (h : m ∈ c.outline.methods) :
    ∃ d : MethodDecl, some d ∈ c.methods ∧ d.name = m.name := by
  obtain ⟨d?, hd, hbind⟩ := List.mem_filterMap.mp h
  obtain ⟨d, rfl, hsignature⟩ := Option.bind_eq_some_iff.mp hbind
  exact ⟨d, hd, MethodDecl.name_of_signature? hsignature⟩

theorem build_refer (options : Options) (hc : c.check = none) (hc' : c'.check = none)
    (h : c.SameDeclarations c') (hm : c.SameMentions c') :
    Skeleton.build options c' =
      ((Skeleton.build options c).1.map (Skeleton.refer c'.references),
        (Skeleton.build options c).2) := by
  have hmethods : ∀ m ∈ c.outline.methods,
      c'.references.contains m.name = c.outline.references.contains m.name := by
    intro m hmem
    obtain ⟨d, hd, hname⟩ := exists_method_of_signature hmem
    rw [← hname]
    exact contains_eq (hm.methods d hd)
  have hglobals : ∀ v ∈ c.outline.globals,
      c'.references.contains v = c.outline.references.contains v := by
    intro v hmem
    obtain ⟨v?, hv, hname⟩ := List.mem_filterMap.mp hmem
    obtain ⟨v, rfl, rfl⟩ := Option.map_eq_some_iff.mp hname
    exact contains_eq (hm.globals v hv)
  have hlayOut := Skeleton.layOut_refer options.effective hmethods hglobals
  rw [Skeleton.build_of_check options hc, Skeleton.build_of_check options hc', h.outline_eq, hlayOut]
  obtain ⟨found, log⟩ := Skeleton.layOut options.effective c.outline
  cases found <;> rfl

def reworked : ClassDecl where
  symbol := some { name := "K", kind := .classSym }
  finals := sample.finals
  globals := sample.globals
  methods := [
    some {
      symbol := some { name := "Code", kind := .proc, type := .void }
      scope := some (.ofList [{ name := "i", kind := .var }])
      body := some {
        kind := .whileLoop
        cond := some { kind := .var, name := "i", sym := some { name := "i", kind := .var } }
        thenBranch := some {
          kind := .assign, pos := { line := 3 }
          left := some { kind := .var, name := "i", sym := some { name := "i", kind := .var } }
          right := some { kind := .var, name := "n", sym := some { name := "n", kind := .var } } } } },
    some {
      symbol := some { name := "f", kind := .proc, type := .int }
      scope := some {}
      body := some {
        kind := .ret
        left := some {
          kind := .call, name := "f", sym := some { name := "f", kind := .proc, type := .int } } } }]

end ClassDecl

namespace Generator

theorem complete_refer (options : Options) (built : Except Failure Skeleton × Array LogRecord)
    (r : References) (w : ByteWriter) :
    complete options (built.1.map (Skeleton.refer r), built.2) w = complete options built w := by
  obtain ⟨found, log⟩ := built
  cases found <;> rfl

/-- Bodies decide nothing about the outcome but which members they mention: no byte, error,
record or listing tells two such classes apart, nor what the generator keeps, but for the
skeleton with its record of references. -/
theorem compile_eq_of_mentions (g : Generator) {c c' : ClassDecl} (hc : c.check = none)
    (hc' : c'.check = none) (h : c.SameDeclarations c') (hm : c.SameMentions c') :
    (g.compile c').1 = (g.compile c).1 ∧
      (g.compile c').2 = { (g.compile c).2 with builder := (g.compile c').2.builder } := by
  have hcomplete : complete g.options (g.builder.build g.options c').1 g.writer =
      complete g.options (g.builder.build g.options c).1 g.writer := by
    rw [PoolBuilder.build_eq, PoolBuilder.build_eq, ClassDecl.build_refer g.options hc hc' h hm,
      complete_refer]
  simp only [compile, generate, hcomplete, and_self]

theorem compile_eq_of_mentions_reworked : ∃ bytes,
    ((ofOptions {}).compile ClassDecl.sample).1.result = .ok bytes ∧
      ((ofOptions {}).compile ClassDecl.reworked).1.result = .ok bytes := by
  have hdeclared : ClassDecl.sample.SameDeclarations ClassDecl.reworked := ⟨rfl, rfl, rfl, rfl, rfl⟩
  have hmentioned : ClassDecl.sample.SameMentions ClassDecl.reworked := by
    constructor <;>
    · simp only [ClassDecl.sample, List.mem_cons, List.not_mem_nil, or_false, Option.some.injEq,
        forall_eq_or_imp, forall_eq]
      decide +kernel
  have hbytes : ∃ bytes, ((ofOptions {}).compile ClassDecl.sample).1.result = .ok bytes := ⟨_, rfl⟩
  obtain ⟨bytes, hbytes⟩ := hbytes
  refine ⟨bytes, hbytes, ?_⟩
  rw [(compile_eq_of_mentions (ofOptions {}) (by rfl) (by rfl) hdeclared hmentioned).1]
  exact hbytes

end Generator

end ClassForge
