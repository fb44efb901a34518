import Mathlib.Data.List.Perm.Subperm
import ClassForge.Generator
import ClassForge.Proofs.ConstructorCode
import ClassForge.Proofs.Mentions
import ClassForge.Proofs.Resolves
import ClassForge.Proofs.RoundTrip

/-!
# Compiled classes read back

The bytes that a class is compiled to are a class file that describes this
class: with every member of it, each once, in the order finals, members that
bodies mention, other members.
-/

namespace ClassForge

/-! ## The assembled file can be read -/

/-- Names are distinct numbers of the pool, so there are no more members than
their counts can state. -/
theorem Skeleton.Laid.length_names_le {options : Options} {o : Outline} {d : Skeleton.Progress}
    {s : Skeleton} (h : s.Laid options o d) : s.names.length ≤ 65535 := by
  have hnodup : (s.names.map UInt16.toNat).Nodup := h.names.map fun i j hij => UInt16.toNat.inj hij
  have hsub : s.names.map UInt16.toNat ⊆ List.range 65535 := by
    intro n hn
    obtain ⟨i, hi, rfl⟩ := List.mem_map.mp hn
    rw [List.mem_range]
    refine Nat.lt_of_not_le fun hle => h.not_mem_names ?_ hi
    have := h.built.size_le
    rw [Pool.capacity] at this
    omega
  have := (hnodup.subperm hsub).length_le
  rwa [List.length_map, List.length_range] at this

theorem Constructor.readable_emitted {s : Skeleton} {lineNumbers : Bool} {w : ByteWriter}
    {a : CodeAttribute} (ha : ((ofSkeleton s).emit lineNumbers w).1 = .ok a)
    (hlen : a.code.length ≤ 65535)
    (hcode : s.pool.get? s.codeName = some (.utf8 Attribute.code))
    (hline : s.pool.get? s.lineTableName = some (.utf8 Attribute.lineNumberTable)) :
    a.Readable s.pool := by
  obtain ⟨is, -, rfl⟩ := emit_ok ha
  refine ⟨Pool.utf8_eq_ok.mpr hcode, ?_, ?_, ?_⟩
  · cases lineNumbers <;> simp [CodeAttribute.size, CodeAttribute.written, tables] at hlen ⊢ <;> omega
  · cases lineNumbers <;> simp [CodeAttribute.written, tables]
  · intro t ht
    cases lineNumbers with
    | false => cases ht
    | true =>
      obtain rfl := List.mem_singleton.mp ht
      exact ⟨Pool.utf8_eq_ok.mpr hline, by simp⟩

theorem FieldInfo.Shows.readable {p : Pool} {f : FieldInfo} {v : FieldShape} (h : f.Shows p v) :
    f.Readable p where
  name := ⟨_, Pool.utf8_eq_ok.mpr h.name⟩
  descriptor := ⟨_, Pool.utf8_eq_ok.mpr h.descriptor⟩
  constant := by
    intro c hc
    rcases h.constant_cases with ⟨hnone, -⟩ | ⟨c', x, hsome, -, hshows⟩
    · rw [hnone] at hc
      cases hc
    · rw [hsome] at hc
      cases hc
      exact Pool.utf8_eq_ok.mpr hshows.1

namespace Generator

section
variable {options : Options} {o : Outline} {s : Skeleton} (used : Options) (a : CodeAttribute)

theorem methods_assemble (h : s.Laid options o o.progress) :
    ∃ init rest, s.methods.toList = init :: rest ∧
      (assemble used s a).methods = { init with code := some a } :: rest ∧
      init.Shows s.pool constructorShape ∧
      List.Forall₂ (MethodInfo.Shows s.pool) rest
        (o.calledMethods.map Signature.shape ++ o.otherMethods.map Signature.shape) := by
  obtain ⟨init, rest, hinit, hrest, hs⟩ := List.forall₂_cons_right_iff.mp h.methods
  refine ⟨init, rest, hs, ?_, hinit, hrest⟩
  show (s.methods.modify 0 _).toList = _
  rw [Array.toList_modify, hs, List.modify_zero_cons]

theorem readable_assemble (h : s.Laid options o o.progress)
    (hsource : s.pool.get? s.source.name = some (.utf8 Attribute.sourceFile)) (ha : a.Readable s.pool) :
    (assemble used s a).Readable := by
  obtain ⟨init, rest, hs, hmethods, hinit, hrest⟩ := methods_assemble used a h
  have hcount := h.length_names_le
  rw [Skeleton.names, List.length_append, List.length_map, List.length_map] at hcount
  exact {
    magic := rfl
    pool := h.built
    fieldCount := Nat.le_trans (Nat.le_add_right ..) hcount
    methodCount := by
      rw [hmethods, List.length_cons, ← List.length_cons (a := init), ← hs]
      exact Nat.le_trans (Nat.le_add_left ..) hcount
    fields := by
      intro f hf
      obtain ⟨v, -, hv⟩ := exists_of_forall₂ h.fields hf
      exact hv.readable
    methods := by
      intro m hm
      rw [hmethods] at hm
      rcases List.mem_cons.mp hm with rfl | hm
      · refine ⟨⟨_, Pool.utf8_eq_ok.mpr hinit.name⟩, ⟨_, Pool.utf8_eq_ok.mpr hinit.descriptor⟩, ?_⟩
        intro c hc
        cases hc
        exact ha
      · obtain ⟨v, -, hv⟩ := exists_of_forall₂ hrest hm
        refine ⟨⟨_, Pool.utf8_eq_ok.mpr hv.name⟩, ⟨_, Pool.utf8_eq_ok.mpr hv.descriptor⟩, ?_⟩
        intro c hc
        rw [hv.code] at hc
        cases hc
    source := Pool.utf8_eq_ok.mpr hsource }

end

end Generator

/-! ## Members as they are read -/

namespace ParsedMember

def fieldShape (pool : Pool) (m : ParsedMember) : FieldShape :=
  ⟨m.access, m.name, m.descriptor, m.constant? pool⟩

def methodShape (m : ParsedMember) : MethodShape := ⟨m.access, m.name, m.descriptor⟩

end ParsedMember

theorem FieldInfo.ReadAs.constant?_eq {p : Pool} {f : FieldInfo} {v : FieldShape} {m : ParsedMember}
    (hr : f.ReadAs p m) (hs : f.Shows p v) :
    m.constant? p = v.value ∧ (v.value = none → m.attributes = []) := by
  unfold ParsedMember.constant?
  rcases hs.constant_cases with ⟨hc, hv⟩ | ⟨c, x, hc, hv, hshows⟩
  · rw [hr.attributes, hc, hv]
    exact ⟨rfl, fun _ => rfl⟩
  · rw [hr.attributes, hc, hv]
    refine ⟨?_, fun hnone => by cases hnone⟩
    show ParsedMember.constantIn p [⟨Attribute.constantValue, Text.u2 c.value⟩] = some x
    simp only [ParsedMember.constantIn, Text.word?_u2, hshows.2, ↓reduceIte]

theorem Pool.text_eq {p : Pool} {i : UInt16} {x y : Text} (hx : p.utf8 i = .ok x)
    (hy : p.get? i = some (.utf8 y)) : x = y :=
  Except.ok.inj (hx.symm.trans (Pool.utf8_eq_ok.mpr hy))

theorem FieldInfo.ReadAs.fieldShape_eq {p : Pool} {f : FieldInfo} {v : FieldShape} {m : ParsedMember}
    (hr : f.ReadAs p m) (hs : f.Shows p v) : m.fieldShape p = v := by
  rw [ParsedMember.fieldShape, hr.access, hs.access, Pool.text_eq hr.name hs.name,
    Pool.text_eq hr.descriptor hs.descriptor, (hr.constant?_eq hs).1]

/-- Whatever its code, a method is read with the shape that it has. -/
theorem MethodInfo.ReadAs.methodShape_eq {p : Pool} {m : MethodInfo} {c : Option CodeAttribute}
    {v : MethodShape} {r : ParsedMember} (hr : { m with code := c }.ReadAs p r) (hs : m.Shows p v) :
    r.methodShape = v := by
  rw [ParsedMember.methodShape, hr.access, hs.access, Pool.text_eq hr.name hs.name,
    Pool.text_eq hr.descriptor hs.descriptor]

theorem forall₂_join {α β γ : Type} {R : α → β → Prop} {S : α → γ → Prop} {T : γ → β → Prop}
    (ht : ∀ x y z, R x y → S x z → T z y) :
    ∀ {l : List α} {ys : List β} {zs : List γ},
      List.Forall₂ R l ys → List.Forall₂ S l zs → List.Forall₂ T zs ys
  | [], _, _, .nil, .nil => .nil
  | x :: _, y :: _, z :: _, .cons hr hrs, .cons hs hss =>
    .cons (ht x y z hr hs) (forall₂_join ht hrs hss)

/-! ## What a class file says of its class -/

/-- The class file read as `p` describes the class `c` with these finals,
globals and methods. -/
structure ParsedClass.Describes (options : Options) (c : ClassDecl) (fs gs : List Symbol)
    (ms : List Signature) (p : ParsedClass) : Prop where
  minor : p.minor = options.minor
  major : p.major = options.major
  thisName : p.thisName = .ok c.name
  superName : p.superName = .ok options.superClass
  sourceFile : p.sourceFile? = some (c.name ++ options.sourceExtension)
  fields : p.fields.map (ParsedMember.fieldShape p.pool) =
    (fs.map fun f => ⟨0x0010, f.name, "I", some f.value⟩) ++
      (((gs.filter fun v => c.Mentions v.name).map fun v => ⟨0x0000, v.name, "I", none⟩) ++
        ((gs.filter fun v => ¬ c.Mentions v.name).map fun v => ⟨0x0000, v.name, "I", none⟩))
  plain : ∀ m ∈ p.fields, m.constant? p.pool = none → m.attributes = []
  methods : p.methods.map ParsedMember.methodShape =
    ⟨0x0000, "<init>", "()V"⟩ ::
      (((ms.filter fun m => c.Mentions m.name).map fun m => ⟨0x0001, m.name, m.descriptor⟩) ++
        ((ms.filter fun m => ¬ c.Mentions m.name).map fun m => ⟨0x0001, m.name, m.descriptor⟩))
  /-- The constructor has code, and no other method has anything. -/
  code : ∃ init rest, p.methods = init :: rest ∧ init.code.isSome = true ∧
    ∀ m ∈ rest, m.code = none ∧ m.attributes = []

namespace ClassDecl

theorem contains_references_eq (c : ClassDecl) (x : Text) :
    c.references.contains x = decide (c.Mentions x) := by
  rw [Bool.eq_iff_iff, decide_eq_true_iff]
  exact c.contains_references x

variable {c : ClassDecl} {fs gs : List Symbol} {ms : List Signature}

theorem HasParts.fieldShapes_mentions (h : c.HasParts fs gs ms) :
    c.outline.fieldShapes =
      (fs.map fun f => ⟨Access.isFinal, f.name, Signature.intDescriptor, some f.value⟩) ++
        (((gs.filter fun v => c.Mentions v.name).map fun v => globalShape v.name) ++
          ((gs.filter fun v => ¬ c.Mentions v.name).map fun v => globalShape v.name)) := by
  have hrefs : c.outline.references = c.references := rfl
  rw [h.fieldShapes_eq, Outline.usedGlobals, Outline.otherGlobals, h.outline_globals, hrefs]
  simp only [List.filter_map, List.map_map, Function.comp_def, contains_references_eq, decide_not]
  rfl

theorem HasParts.methodShapes_mentions (h : c.HasParts fs gs ms) :
    c.outline.methodShapes = constructorShape ::
      ((ms.filter fun m => c.Mentions m.name).map Signature.shape ++
        (ms.filter fun m => ¬ c.Mentions m.name).map Signature.shape) := by
  have hrefs : c.outline.references = c.references := rfl
  rw [Outline.methodShapes, Outline.calledMethods, Outline.otherMethods, h.outline_methods, hrefs]
  simp only [contains_references_eq, decide_not]

end ClassDecl

theorem Pool.freeze_of_frozen {p : Pool} (h : p.frozen = true) : p.freeze = p := by
  cases p
  cases h
  rfl

namespace Generator

theorem describes_of_readAs {options : Options} {c : ClassDecl} {fs gs : List Symbol}
    {ms : List Signature} {s : Skeleton} {a : CodeAttribute} {r : ParsedClass}
    (hp : c.HasParts fs gs ms) (hl : s.Laid options c.outline c.outline.progress)
    (hfrozen : s.pool.frozen = true)
    (hfile : s.pool.get? s.source.file = some (.utf8 (c.name ++ options.sourceExtension)))
    (hr : (assemble options s a).ReadAs r) : r.Describes options c fs gs ms := by
  have hpool : r.pool = s.pool := hr.pool.trans (Pool.freeze_of_frozen hfrozen)
  have hfields : List.Forall₂
      (fun m v => m.fieldShape r.pool = v ∧ (v.value = none → m.attributes = []))
      r.fields c.outline.fieldShapes := by
    refine forall₂_join (fun f v m hs hm => ?_) hl.fields hr.fields
    rw [hpool]
    exact ⟨hm.fieldShape_eq hs, (hm.constant?_eq hs).2⟩
  obtain ⟨init, rest, -, hmethods, hinit, hrest⟩ := methods_assemble options a hl
  have hread := hr.methods
  rw [hmethods] at hread
  obtain ⟨init', rest', hinit', hrest', hread⟩ := List.forall₂_cons_left_iff.mp hread
  have hothers : List.Forall₂ (fun m v => m.methodShape = v ∧ m.code = none ∧ m.attributes = [])
      rest' c.outline.methodShapes.tail := by
    refine forall₂_join (fun m v m' hs hm => ?_) hrest hrest'
    refine ⟨hm.methodShape_eq hs, ?_, ?_⟩
    · rw [hm.code, hs.code]
      rfl
    · rw [hm.attributes, hs.code]
      rfl
  exact {
    minor := hr.minor
    major := hr.major
    thisName := by
      rw [ParsedClass.thisName, hpool, hr.thisClass]
      exact hl.thisClass
    superName := by
      rw [ParsedClass.superName, hpool, hr.superClass]
      exact hl.superClass
    sourceFile := by
      rw [ParsedClass.sourceFile?, hr.attributes, hpool]
      simp only [List.findSome?_cons, ↓reduceIte, Text.word?_u2, Option.bind_some]
      show (s.pool.utf8 s.source.file).toOption = _
      rw [Pool.utf8_eq_ok.mpr hfile]
      rfl
    fields := by
      rw [map_eq_of_forall₂ (hfields.imp fun _ _ h => h.1)]
      exact hp.fieldShapes_mentions
    plain := by
      intro m hm hnone
      obtain ⟨v, -, hv, hplain⟩ := exists_of_forall₂ hfields hm
      refine hplain ?_
      rw [← hv]
      exact hnone
    methods := by
      rw [hread, List.map_cons, hinit'.methodShape_eq hinit,
        map_eq_of_forall₂ (hothers.imp fun _ _ h => h.1), hp.methodShapes_mentions]
      rfl
    code := by
      refine ⟨init', rest', hread, ?_, ?_⟩
      · rw [hinit'.code]
        rfl
      · intro m hm
        obtain ⟨v, -, -, hm⟩ := exists_of_forall₂ hothers hm
        exact hm }

/-! ## Compiling -/

theorem compile_ok {g : Generator} {c : ClassDecl} {data : Text}
    (h : (g.compile c).1.result = .ok data) :
    ∃ s a, (Skeleton.build g.options c).1 = .ok s ∧
      ((Constructor.ofSkeleton s).emit g.options.lineNumbers g.writer).1 = .ok a ∧
      (assemble g.options s a).write = .ok data := by
  rw [← g.builder.build_eq]
  unfold compile generate complete at h
  rcases hb : g.builder.build g.options c with ⟨⟨_ | s, log⟩, builder⟩
  · simp [hb] at h
  · rcases he : (Constructor.ofSkeleton s).emit g.options.lineNumbers g.writer with ⟨_ | a, w⟩
    · simp [hb, he] at h
    · simp only [hb, he] at h
      cases hw : (assemble g.options s a).write with
      | error o => simp [hw] at h
      | ok data' =>
        simp only [hw, Except.ok.injEq] at h
        exact ⟨s, a, rfl, rfl.trans (by rw [he]), by rw [hw, h]⟩

end Generator

theorem Options.effective_effective (o : Options) : o.effective.effective = o.effective := by
  have hsuper : usualSuperClass ≠ [] := by decide
  have hextension : usualSourceExtension ≠ [] := by decide
  have hmajor : usualMajor ≠ 0 := by decide
  unfold effective
  by_cases h₁ : o.superClass = [] <;> by_cases h₂ : o.sourceExtension = [] <;>
    by_cases h₃ : o.major = 0 <;> simp [h₁, h₂, h₃, hsuper, hextension, hmajor]

theorem ClassFile.length_le_of_methodObstacle? {m : MethodInfo} {a : CodeAttribute}
    (hm : m.code = some a) (h : methodObstacle? m = none) : a.code.length ≤ 65535 := by
  simp only [methodObstacle?, hm] at h
  split at h
  · cases h
  · rename_i hlimit
    exact Nat.le_of_not_lt hlimit

/-- What a class is compiled to is read as a description of that class, whatever
the generator did before. -/
theorem Generator.parse_compile (options : Options) (builder : PoolBuilder) (writer : ByteWriter)
    (c : ClassDecl) (data : Text)
    (h : (Generator.compile { options := options.effective, builder, writer } c).1.result = .ok data) :
    ∃ p, ParsedClass.parse data = .ok p ∧ ∃ fs gs ms,
      c.HasParts fs gs ms ∧ p.Describes options.effective c fs gs ms := by
  obtain ⟨s, a, hb, ha, hw⟩ := compile_ok h
  obtain ⟨fs, gs, ms, hp, hl, hfrozen, hname, hfile⟩ := Skeleton.laid_of_build hb
  rw [Options.effective_effective] at hl hfile
  obtain ⟨hcode, hline, -⟩ := hl.labels rfl
  obtain ⟨hentries, hmethods, rfl⟩ := write_eq_ok.mp hw
  have hlen : a.code.length ≤ 65535 := by
    obtain ⟨init, rest, -, hassembled, -⟩ := methods_assemble options.effective a hl
    rw [hassembled] at hmethods
    exact ClassFile.length_le_of_methodObstacle? rfl (hmethods _ (List.mem_cons_self ..))
  have hreadable := readable_assemble options.effective a hl hname
    (Constructor.readable_emitted ha hlen hcode hline)
  obtain ⟨r, hr, ht⟩ := takes_class hreadable hentries
  exact ⟨r, parse_of_takes ht, fs, gs, ms, hp, describes_of_readAs hp hl hfrozen hfile hr⟩

theorem Generator.parse_compile_sample :
    ∃ data p, ((Generator.ofOptions { lineNumbers := true }).compile ClassDecl.sample).1.result =
        .ok data ∧ ParsedClass.parse data = .ok p ∧ ∃ fs gs ms,
      ClassDecl.sample.HasParts fs gs ms ∧
        p.Describes { Options.usual with lineNumbers := true } ClassDecl.sample fs gs ms := by
  have hdata : ∃ data, ((Generator.ofOptions { lineNumbers := true }).compile
      ClassDecl.sample).1.result = .ok data := ⟨_, rfl⟩
  obtain ⟨data, hdata⟩ := hdata
  obtain ⟨p, hp⟩ := parse_compile { lineNumbers := true } {} .forCode ClassDecl.sample data hdata
  exact ⟨data, p, hdata, hp⟩

end ClassForge
