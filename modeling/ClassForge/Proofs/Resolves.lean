import ClassForge.Proofs.Contract
import ClassForge.Proofs.SkeletonSound

/-!
# Every number of a skeleton resolves

Once the skeleton of a class is laid out, its pool refers to nothing but what it
has, its first entry is the constructor of the super class, and every other
reference is to a member of the class.
-/

namespace ClassForge

def Entry.IsMember : Entry → Prop
  | fieldref _ _ => True
  | methodref _ _ => True
  | _ => False

namespace Skeleton

/-- The numbers in `s` lead to what they stand for in the class `c` with these
finals, globals and methods. -/
structure Resolves (options : Options) (c : ClassDecl) (fs gs : List Symbol) (ms : List Signature)
    (s : Skeleton) : Prop where
  frozen : s.pool.frozen = true
  leads : ∀ i e, s.pool.get? i = some e → e.Leads s.pool
  superInit : s.superInit = 1
  superRef : s.pool.Refers .methodref s.superInit options.superClass "<init>" "()V"
  owned : ∀ i e, s.pool.get? i = some e → e.IsMember → i ≠ s.superInit →
    ∃ n d, s.pool.memberRef i = .ok (c.name, n, d)
  finals : List.Forall₂
    (fun x f => x.1 = f.final ∧ s.pool.Refers .fieldref x.2 c.name f.name "I") s.finals.toList fs
  fieldKeys : ∀ k, k ∈ s.fieldRefs ↔ k ∈ gs.map Symbol.name ∧ c.references.contains k = true
  fieldRefs : ∀ (k : Text) (i : UInt16), s.fieldRefs[k]? = some i →
    s.pool.Refers .fieldref i c.name k "I"
  methodKeys : ∀ k, k ∈ s.methodRefs ↔ k ∈ ms.map Signature.name ∧ c.references.contains k = true
  methodRefs : ∀ (k : Text) (i : UInt16), s.methodRefs[k]? = some i →
    ∃ m ∈ ms, m.name = k ∧ s.pool.Refers .methodref i c.name k m.descriptor
  /-- The fields of the finals come first, and each has its constant. -/
  constants : List.Forall₂
    (fun field f => ∃ a, field.constant = some a ∧
      s.pool.get? a.name = some (.utf8 "ConstantValue") ∧ s.pool.get? a.value = some (.integer f.value))
    (s.fields.toList.take fs.length) fs
  codeName : s.pool.get? s.codeName = some (.utf8 "Code")
  lineTableName : s.pool.get? s.lineTableName = some (.utf8 "LineNumberTable")
  stackMapName : s.pool.get? s.stackMapName = some (.utf8 "StackMapTable")
  sourceName : s.pool.get? s.source.name = some (.utf8 "SourceFile")
  sourceFile : s.pool.get? s.source.file = some (.utf8 (c.name ++ options.sourceExtension))
  names : s.names.Nodup

section
variable {options : Options} {o : Outline} {d : Progress} {s : Skeleton}

theorem Laid.get?_leads (h : Laid options o d s) {i : UInt16} {e : Entry} (hi : s.pool.get? i = some e) :
    e.Leads s.pool := h.leads e (Pool.mem_of_get? hi)

/-- A reference that is not the first entry is to a member of the class. -/
theorem Laid.memberRef_of_ne (h : Laid options o d s) {i : UInt16} {e : Entry}
    (hi : s.pool.get? i = some e) (he : e.IsMember) (hne : i ≠ 1) :
    ∃ n x, s.pool.memberRef i = .ok (o.name, n, x) := by
  have howned : e.OwnedBy s.thisClass := by
    refine h.owned e ?_
    have hpos := Pool.toNat_of_get? hi
    have hone : i.toNat ≠ 1 := fun hn => hne (UInt16.toNat.inj hn)
    rw [Pool.get?_eq, if_neg (by omega)] at hi
    refine List.mem_of_getElem? (i := i.toNat - 2) ?_
    rw [List.getElem?_tail, ← hi]
    congr 1
    omega
  -- a member entry is a reference from the class to a name with a type
  obtain ⟨m, hentry, hlead⟩ : ∃ m, (s.pool.get? i = some (.fieldref s.thisClass m) ∨
      s.pool.get? i = some (.methodref s.thisClass m)) ∧
      ∃ n x, s.pool.get? m = some (.nameAndType n x) := by
    have hl := h.get?_leads hi
    cases e with
    | fieldref a m =>
      obtain rfl : a = s.thisClass := howned
      exact ⟨m, .inl hi, hl.2⟩
    | methodref a m =>
      obtain rfl : a = s.thisClass := howned
      exact ⟨m, .inr hi, hl.2⟩
    | _ => exact he.elim
  obtain ⟨n, x, hm⟩ := hlead
  obtain ⟨⟨t, ht⟩, u, hu⟩ := h.get?_leads hm
  exact ⟨t, u, Pool.memberRef_eq_ok.mpr
    ⟨s.thisClass, m, hentry, h.thisClass, Pool.nameAndType_eq_ok.mpr ⟨n, x, hm, ht, hu⟩⟩⟩

theorem Laid.finals_of_map (h : Laid options o d s) {fs : List Symbol}
    (hd : d.finals = fs.map Symbol.final) : List.Forall₂
      (fun x f => x.1 = f.final ∧ s.pool.Refers .fieldref x.2 o.name f.name Signature.intDescriptor)
      s.finals.toList fs := by
  have := h.finals
  rw [hd, List.forall₂_map_right_iff] at this
  exact this

/-- The fields of the finals, if they come first, have their constants. -/
theorem Laid.constants_of_map (h : Laid options o d s) {fs : List Symbol} {rest : List FieldShape}
    (hd : d.fields = fs.map (Final.shape ∘ Symbol.final) ++ rest) : List.Forall₂
      (fun field f => ∃ a, field.constant = some a ∧ a.Shows s.pool f.value)
      (s.fields.toList.take fs.length) fs := by
  have hfields := List.forall₂_take fs.length h.fields
  rw [hd, List.take_left' (List.length_map _), List.forall₂_map_right_iff] at hfields
  refine hfields.imp fun field f hf => ?_
  rcases hf.constant_cases with ⟨-, hv⟩ | ⟨a, v, ha, hv, hshows⟩
  · cases hv
  · cases hv
    exact ⟨a, ha, hshows⟩

end

end Skeleton

theorem ClassDecl.HasParts.fieldShapes_eq {c : ClassDecl} {fs gs : List Symbol} {ms : List Signature}
    (h : c.HasParts fs gs ms) :
    c.outline.fieldShapes = fs.map (Final.shape ∘ Symbol.final) ++
      (c.outline.usedGlobals.map globalShape ++ c.outline.otherGlobals.map globalShape) := by
  rw [Outline.fieldShapes, h.outline_finals, List.map_map]

namespace Skeleton

theorem laid_of_build {options : Options} {c : ClassDecl} {s : Skeleton}
    (h : (build options c).1 = .ok s) : ∃ fs gs ms, c.HasParts fs gs ms ∧
      Laid options.effective c.outline c.outline.progress s ∧ s.pool.frozen = true ∧
      s.pool.get? s.source.name = some (.utf8 Attribute.sourceFile) ∧
      s.pool.get? s.source.file = some (.utf8 (c.name ++ options.effective.sourceExtension)) := by
  obtain ⟨hcheck, _, hlay⟩ := build_ok h
  obtain ⟨fs, gs, ms, hp⟩ := ClassDecl.hasParts_of_check hcheck
  exact ⟨fs, gs, ms, hp, layOut_ok hlay⟩

theorem resolves_of_build {options : Options} {c : ClassDecl} {s : Skeleton}
    (h : (build options c).1 = .ok s) :
    ∃ fs gs ms, c.HasParts fs gs ms ∧ s.Resolves options.effective c fs gs ms := by
  obtain ⟨fs, gs, ms, hp, hl, hfrozen, hname, hfile⟩ := laid_of_build h
  obtain ⟨hcode, hline, hstack⟩ := hl.labels rfl
  refine ⟨fs, gs, ms, hp, ?_⟩
  exact {
    frozen := hfrozen
    leads := fun i e hi => hl.get?_leads hi
    superInit := hl.superInit
    superRef := by
      rw [hl.superInit]
      exact hl.superRef
    owned := fun i e hi he hne => hl.memberRef_of_ne hi he (hl.superInit ▸ hne)
    finals := hl.finals_of_map hp.outline_finals
    fieldKeys := by
      intro k
      refine (hl.fieldKeys k).trans ?_
      rw [← hp.outline_globals]
      exact List.mem_filter
    fieldRefs := hl.fieldRefs
    methodKeys := by
      intro k
      refine (hl.methodKeys k).trans ?_
      rw [List.mem_map, ← hp.outline_methods]
      constructor
      · rintro ⟨m, hm, rfl⟩
        obtain ⟨hm, href⟩ := List.mem_filter.mp hm
        exact ⟨⟨m, hm, rfl⟩, href⟩
      · rintro ⟨⟨m, hm, rfl⟩, href⟩
        exact ⟨m, List.mem_filter.mpr ⟨hm, href⟩, rfl⟩
    methodRefs := by
      intro k i hi
      obtain ⟨m, hm, hk, hr⟩ := hl.methodRefs k i hi
      rw [← hp.outline_methods]
      exact ⟨m, (List.mem_filter.mp hm).1, hk, hr⟩
    constants := hl.constants_of_map hp.fieldShapes_eq
    codeName := hcode
    lineTableName := hline
    stackMapName := hstack
    sourceName := hname
    sourceFile := hfile
    names := hl.names }

end Skeleton

def ClassDecl.sample : ClassDecl where
  symbol := some { name := "K", kind := .classSym }
  finals := [some { name := "I", kind := .const, value := 5, hasValue := true },
    some { name := "low", kind := .const, value := -128, hasValue := true }]
  globals := [some { name := "()V", kind := .var }, some { name := "n", kind := .var }]
  methods := [
    some {
      symbol := some { name := "Code", kind := .proc, type := .void }
      scope := some {}
      body := some {
        kind := .call, name := "f", sym := some { name := "f", kind := .proc, type := .int }
        args := [some { kind := .var, name := "n", sym := some { name := "n", kind := .var } }] } },
    some { symbol := some { name := "f", kind := .proc, type := .int }, scope := some {} }]

theorem Skeleton.resolves_of_build_sample :
    ∃ s, (Skeleton.build {} ClassDecl.sample).1 = .ok s ∧ ∃ fs gs ms,
      ClassDecl.sample.HasParts fs gs ms ∧ s.Resolves Options.usual ClassDecl.sample fs gs ms := by
  have hs : ∃ s, (Skeleton.build {} ClassDecl.sample).1 = .ok s := ⟨_, rfl⟩
  obtain ⟨s, hs⟩ := hs
  exact ⟨s, hs, resolves_of_build hs⟩

end ClassForge
