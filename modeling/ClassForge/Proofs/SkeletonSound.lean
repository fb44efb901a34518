import Mathlib.Data.List.Forall2
import Mathlib.Data.List.Nodup
import ClassForge.Proofs.Layout

/-!
# Sound skeletons

Every number in a skeleton leads to what it stands for. `Laid` says so of a
skeleton that is partly laid out, relative to what has been declared so far
(`Progress`); each step of a layout extends the one with the other.
-/

namespace ClassForge

/-! ## Members seen through a pool -/

structure FieldShape where
  access : UInt16
  name : Text
  descriptor : Text
  value : Option Int32
  deriving DecidableEq

/-- What a class file says about a method, its code apart. -/
structure MethodShape where
  access : UInt16
  name : Text
  descriptor : Text
  deriving DecidableEq

def Final.plainShape (f : Final) : FieldShape :=
  ⟨Access.isFinal, f.name, Signature.intDescriptor, none⟩

def Final.shape (f : Final) : FieldShape :=
  ⟨Access.isFinal, f.name, Signature.intDescriptor, some f.value⟩

def globalShape (v : Text) : FieldShape := ⟨Access.package, v, Signature.intDescriptor, none⟩

def Signature.shape (m : Signature) : MethodShape := ⟨Access.isPublic, m.name, m.descriptor⟩

def constructorShape : MethodShape :=
  ⟨Access.package, Skeleton.constructorName, Skeleton.constructorDescriptor⟩

def ConstantAttribute.Shows (p : Pool) (c : ConstantAttribute) (v : Int32) : Prop :=
  p.get? c.name = some (.utf8 Attribute.constantValue) ∧ p.get? c.value = some (.integer v)

structure FieldInfo.Shows (p : Pool) (f : FieldInfo) (v : FieldShape) : Prop where
  access : f.access = v.access
  name : p.get? f.name = some (.utf8 v.name)
  descriptor : p.get? f.descriptor = some (.utf8 v.descriptor)
  constant : Option.Rel (ConstantAttribute.Shows p) f.constant v.value

theorem FieldInfo.Shows.constant_cases {p : Pool} {f : FieldInfo} {v : FieldShape} (h : f.Shows p v) :
    f.constant = none ∧ v.value = none ∨
      ∃ c x, f.constant = some c ∧ v.value = some x ∧ c.Shows p x := by
  have hrel := h.constant
  generalize f.constant = constant, v.value = value at hrel
  cases hrel with
  | none => exact .inl ⟨rfl, rfl⟩
  | some hx => exact .inr ⟨_, _, rfl, rfl, hx⟩

structure MethodInfo.Shows (p : Pool) (m : MethodInfo) (v : MethodShape) : Prop where
  access : m.access = v.access
  name : p.get? m.name = some (.utf8 v.name)
  descriptor : p.get? m.descriptor = some (.utf8 v.descriptor)
  code : m.code = none

section
variable {p q : Pool} (h : p.Keeps q)
include h

theorem FieldInfo.Shows.mono {f : FieldInfo} {v : FieldShape} (hf : f.Shows p v) : f.Shows q v where
  access := hf.access
  name := h _ _ hf.name
  descriptor := h _ _ hf.descriptor
  constant :=
    match f.constant, v.value, hf.constant with
    | _, _, .none => .none
    | _, _, .some hc => .some ⟨h _ _ hc.1, h _ _ hc.2⟩

theorem MethodInfo.Shows.mono {m : MethodInfo} {v : MethodShape} (hm : m.Shows p v) : m.Shows q v where
  access := hm.access
  name := h _ _ hm.name
  descriptor := h _ _ hm.descriptor
  code := hm.code

end

theorem exists_of_forall₂ {α β : Type} {R : α → β → Prop} {a : α} {l : List α} {l' : List β}
    (h : List.Forall₂ R l l') (ha : a ∈ l) : ∃ b ∈ l', R a b := by
  induction h with
  | nil => cases ha
  | cons hr _ ih =>
    rcases List.mem_cons.mp ha with rfl | ha
    · exact ⟨_, List.mem_cons_self .., hr⟩
    · obtain ⟨b, hb, hab⟩ := ih ha
      exact ⟨b, List.mem_cons_of_mem _ hb, hab⟩

theorem map_eq_of_forall₂ {α β : Type} {g : α → β} {l : List α} {l' : List β}
    (h : List.Forall₂ (fun x y => g x = y) l l') : l.map g = l' := by
  rw [← List.forall₂_eq_eq_eq, List.forall₂_map_left_iff]
  exact h

theorem forall₂_modify {α β : Type} {R : α → β → Prop} {g : α → α} {v w : β}
    (hg : ∀ x, R x v → R (g x) w) : ∀ {a b : List β} {l : List α},
    List.Forall₂ R l (a ++ v :: b) → List.Forall₂ R (l.modify a.length g) (a ++ w :: b)
  | [], _, _, .cons hx hl => .cons (hg _ hx) hl
  | _ :: _, _, _, .cons hx hl => .cons hx (forall₂_modify hg hl)

theorem map_modify {α β : Type} {f : α → β} {g : α → α} (hg : ∀ x, f (g x) = f x) :
    ∀ (l : List α) (i : Nat), (l.modify i g).map f = l.map f
  | [], i => by rw [List.modify_nil]
  | x :: l, 0 => by rw [List.modify_zero_cons, List.map_cons, List.map_cons, hg]
  | x :: l, i + 1 => by rw [List.modify_succ_cons, List.map_cons, List.map_cons, map_modify hg l i]

/-! ## What is laid out so far -/

namespace Skeleton

structure Progress where
  finals : List Final := []
  calls : List Signature := []
  uses : List Text := []
  fields : List FieldShape := []
  methods : List MethodShape := []
  /-- Whether the names of the attributes of code are there. -/
  labelled : Bool := false

def names (s : Skeleton) : List UInt16 :=
  s.fields.toList.map FieldInfo.name ++ s.methods.toList.map MethodInfo.name

/-- Every number in the skeleton leads to what it stands for. -/
structure Laid (options : Options) (o : Outline) (d : Progress) (s : Skeleton) : Prop where
  built : s.pool.Built
  leads : ∀ e ∈ s.pool.entries.toList, e.Leads s.pool
  /-- All references but the first, to the constructor of the super class, are
  to members of the class. -/
  owned : ∀ e ∈ s.pool.entries.toList.tail, e.OwnedBy s.thisClass
  className : s.className = o.name
  classPos : s.classPos = o.pos
  superInit : s.superInit = 1
  superRef : s.pool.Refers .methodref 1 options.superClass constructorName constructorDescriptor
  superClass : s.pool.className s.superClass = .ok options.superClass
  thisClass : s.pool.className s.thisClass = .ok o.name
  finals : List.Forall₂
    (fun x f => x.1 = f ∧ s.pool.Refers .fieldref x.2 o.name f.name Signature.intDescriptor)
    s.finals.toList d.finals
  methodKeys : ∀ k, k ∈ s.methodRefs ↔ ∃ m ∈ d.calls, m.name = k
  methodRefs : ∀ (k : Text) (i : UInt16), s.methodRefs[k]? = some i →
    ∃ m ∈ d.calls, m.name = k ∧ s.pool.Refers .methodref i o.name k m.descriptor
  fieldKeys : ∀ k, k ∈ s.fieldRefs ↔ k ∈ d.uses
  fieldRefs : ∀ (k : Text) (i : UInt16), s.fieldRefs[k]? = some i →
    s.pool.Refers .fieldref i o.name k Signature.intDescriptor
  fields : List.Forall₂ (FieldInfo.Shows s.pool) s.fields.toList d.fields
  methods : List.Forall₂ (MethodInfo.Shows s.pool) s.methods.toList d.methods
  names : s.names.Nodup
  labels : d.labelled = true →
    s.pool.get? s.codeName = some (.utf8 Attribute.code) ∧
      s.pool.get? s.lineTableName = some (.utf8 Attribute.lineNumberTable) ∧
      s.pool.get? s.stackMapName = some (.utf8 Attribute.stackMapTable)

section
variable {options : Options} {o : Outline} {d : Progress} {s : Skeleton}

theorem Laid.entries_ne_nil (h : Laid options o d s) : s.pool.entries.toList ≠ [] := by
  obtain ⟨_, _, hi⟩ := h.superRef.entry
  exact List.ne_nil_of_mem (Pool.mem_of_get? hi)

theorem Laid.keep (h : Laid options o d s) {q : Pool} (hk : s.pool.Keeps q) (hbuilt : q.Built)
    (hleads : ∀ e ∈ q.entries.toList, e.Leads q)
    (howned : ∀ e ∈ q.entries.toList.tail, e.OwnedBy s.thisClass) :
    Laid options o d { s with pool := q } where
  built := hbuilt
  leads := hleads
  owned := howned
  className := h.className
  classPos := h.classPos
  superInit := h.superInit
  superRef := hk.refers h.superRef
  superClass := hk.className h.superClass
  thisClass := hk.className h.thisClass
  finals := h.finals.imp fun _ _ hf => ⟨hf.1, hk.refers hf.2⟩
  methodKeys := h.methodKeys
  methodRefs := by
    intro k i hi
    obtain ⟨m, hm, hn, hr⟩ := h.methodRefs k i hi
    exact ⟨m, hm, hn, hk.refers hr⟩
  fieldKeys := h.fieldKeys
  fieldRefs := by
    intro k i hi
    exact hk.refers (h.fieldRefs k i hi)
  fields := h.fields.imp fun _ _ hf => hf.mono hk
  methods := h.methods.imp fun _ _ hm => hm.mono hk
  names := h.names
  labels := by
    intro hd
    obtain ⟨h₁, h₂, h₃⟩ := h.labels hd
    exact ⟨hk _ _ h₁, hk _ _ h₂, hk _ _ h₃⟩

theorem Laid.grow (h : Laid options o d s) {es : List Entry} {q : Pool} (hg : s.pool.Grows es q)
    (hes : ∀ e ∈ es, e.Leads q ∧ e.OwnedBy s.thisClass) : Laid options o d { s with pool := q } := by
  refine h.keep hg.keeps ?_ ?_ ?_
  · rw [hg.eq]
    exact h.built.extend hg.unfrozen hg.room fun e he => (hes e he).1.ne_vacant
  · intro e he
    simp only [hg.eq, Pool.toList_extend, List.mem_append] at he
    rcases he with he | he
    · exact (h.leads e he).mono hg.keeps
    · exact (hes e he).1
  · intro e he
    simp only [hg.eq, Pool.toList_extend, List.tail_append_of_ne_nil h.entries_ne_nil,
      List.mem_append] at he
    rcases he with he | he
    · exact h.owned e he
    · exact (hes e he).2

theorem Laid.freeze (h : Laid options o d s) : Laid options o d { s with pool := s.pool.freeze } := by
  have hk : s.pool.Keeps s.pool.freeze := fun i e hi => hi
  exact h.keep hk h.built.freeze (fun e he => (h.leads e he).mono hk) h.owned

/-- A number beyond the pool is the name of no member. -/
theorem Laid.not_mem_names (h : Laid options o d s) {i : UInt16} (hi : s.pool.entries.size < i.toNat) :
    i ∉ s.names := by
  intro hm
  simp only [Skeleton.names, List.mem_append, List.mem_map] at hm
  rcases hm with ⟨f, hf, rfl⟩ | ⟨m, hm, rfl⟩
  · obtain ⟨v, -, hv⟩ := exists_of_forall₂ h.fields hf
    have := Pool.toNat_of_get? hv.name
    omega
  · obtain ⟨v, -, hv⟩ := exists_of_forall₂ h.methods hm
    have := Pool.toNat_of_get? hv.name
    omega

theorem Laid.addField (h : Laid options o d s) {f : FieldInfo} {v : FieldShape} (hf : f.Shows s.pool v)
    (hn : f.name ∉ s.names) :
    Laid options o { d with fields := d.fields ++ [v] } { s with fields := s.fields.push f } :=
  { h with
    fields := by
      show List.Forall₂ _ (s.fields.push f).toList _
      rw [Array.toList_push]
      exact List.rel_append h.fields (.cons hf .nil)
    names := by
      show ((s.fields.push f).toList.map _ ++ _).Nodup
      rw [Array.toList_push, List.map_append, List.append_assoc]
      exact List.nodup_middle.mpr (List.nodup_cons.mpr ⟨hn, h.names⟩) }

theorem Laid.addMethod (h : Laid options o d s) {m : MethodInfo} {v : MethodShape}
    (hm : m.Shows s.pool v) (hn : m.name ∉ s.names) :
    Laid options o { d with methods := d.methods ++ [v] } { s with methods := s.methods.push m } :=
  { h with
    methods := by
      show List.Forall₂ _ (s.methods.push m).toList _
      rw [Array.toList_push]
      exact List.rel_append h.methods (.cons hm .nil)
    names := by
      show (_ ++ (s.methods.push m).toList.map _).Nodup
      rw [Array.toList_push, List.map_append, ← List.append_assoc]
      exact List.nodup_append_comm.mp (List.nodup_cons.mpr ⟨hn, h.names⟩) }

theorem Laid.addFinal (h : Laid options o d s) {f : Final} {r : UInt16}
    (hr : s.pool.Refers .fieldref r o.name f.name Signature.intDescriptor) :
    Laid options o { d with finals := d.finals ++ [f] } { s with finals := s.finals.push (f, r) } :=
  { h with
    finals := by
      show List.Forall₂ _ (s.finals.push (f, r)).toList _
      rw [Array.toList_push]
      exact List.rel_append h.finals (.cons ⟨rfl, hr⟩ .nil) }

theorem Laid.addCall (h : Laid options o d s) {m : Signature} {r : UInt16}
    (hr : s.pool.Refers .methodref r o.name m.name m.descriptor) :
    Laid options o { d with calls := d.calls ++ [m] }
      { s with methodRefs := s.methodRefs.insert m.name r } :=
  { h with
    methodKeys := by
      intro k
      rw [Std.TreeMap.mem_insert, h.methodKeys, Std.LawfulEqOrd.compare_eq_iff_eq]
      simp only [List.mem_append, List.mem_singleton, or_and_right, exists_or, exists_eq_left]
      exact or_comm
    methodRefs := by
      intro k i hi
      rw [Std.TreeMap.getElem?_insert] at hi
      split at hi
      · rename_i hc
        obtain rfl := Std.LawfulEqOrd.eq_of_compare hc
        cases hi
        exact ⟨m, List.mem_append_right _ (List.mem_singleton_self m), rfl, hr⟩
      · obtain ⟨m', hm', hn, hr'⟩ := h.methodRefs k i hi
        exact ⟨m', List.mem_append_left _ hm', hn, hr'⟩ }

theorem Laid.addUse (h : Laid options o d s) {v : Text} {r : UInt16}
    (hr : s.pool.Refers .fieldref r o.name v Signature.intDescriptor) :
    Laid options o { d with uses := d.uses ++ [v] }
      { s with fieldRefs := s.fieldRefs.insert v r } :=
  { h with
    fieldKeys := by
      intro k
      rw [Std.TreeMap.mem_insert, h.fieldKeys, Std.LawfulEqOrd.compare_eq_iff_eq, List.mem_append,
        List.mem_singleton, or_comm, eq_comm]
    fieldRefs := by
      intro k i hi
      rw [Std.TreeMap.getElem?_insert] at hi
      split at hi
      · rename_i hc
        obtain rfl := Std.LawfulEqOrd.eq_of_compare hc
        cases hi
        exact hr
      · exact h.fieldRefs k i hi }

end

/-! ## Steps -/

section
open Build
variable {options : Options} {o : Outline} {d : Progress} {s t : Skeleton}

theorem Laid.add (h : Laid options o d s) {e : Entry} {i : UInt16} (he : ∀ p, e.Leads p)
    (ho : e.OwnedBy s.thisClass) (hs : Build.add e s = .ok (i, t)) :
    Laid options o d t ∧ t.pool.get? i = some e ∧ s.pool.Keeps t.pool ∧ i ∉ s.names ∧
      t.names = s.names := by
  obtain ⟨rfl, hg, ht⟩ := add_ok hs
  have hlt : s.pool.entries.size < s.pool.next.toNat := by
    have := hg.room
    rw [List.length_singleton] at this
    rw [Pool.toNat_next (by omega)]
    exact Nat.lt_succ_self _
  have hl := h.grow hg fun e' he' => by rw [List.mem_singleton.mp he']; exact ⟨he _, ho⟩
  have hpool : t.pool = s.pool.push e := by rw [ht]
  rw [hpool, ← ht] at hl
  refine ⟨hl, hg.get?_next, hg.keeps, h.not_mem_names hlt, ?_⟩
  rw [ht]
  rfl

theorem Laid.text (h : Laid options o d s) {x : Text} {i : UInt16} (hs : Build.text x s = .ok (i, t)) :
    Laid options o d t ∧ t.pool.get? i = some (.utf8 x) ∧ s.pool.Keeps t.pool ∧ i ∉ s.names ∧
      t.names = s.names :=
  h.add (fun _ => trivial) trivial hs

theorem Laid.reference (h : Laid options o d s) {kind : UInt16 → UInt16 → Entry}
    (hk : kind = .fieldref ∨ kind = .methodref) {n x : Text} {r i j : UInt16}
    (hs : Build.reference kind n x s = .ok ((r, i, j), t)) :
    Laid options o d t ∧ t.pool.Refers kind r o.name n x ∧
      t.pool.get? i = some (.utf8 n) ∧ t.pool.get? j = some (.utf8 x) ∧ i ∉ t.names := by
  obtain ⟨es, hg, ht, hes, hr, hi, hj, hlt⟩ := reference_ok h.built hk h.thisClass hs
  have hn := h.not_mem_names hlt
  have hl := h.grow hg hes
  rw [← ht] at hl
  refine ⟨hl, hr, hi, hj, ?_⟩
  rw [ht]
  exact hn

theorem Laid.final (h : Laid options o d s) {f : Final} {u : Unit} (hs : Build.final f s = .ok (u, t)) :
    Laid options o { d with finals := d.finals ++ [f], fields := d.fields ++ [f.plainShape] } t := by
  simp only [Build.final, Build.addField, bind_ok, change_ok] at hs
  obtain ⟨⟨r, i, j⟩, s₁, h₁, _, _, rfl, rfl⟩ := hs
  obtain ⟨hl, hr, hi, hj, hn⟩ := h.reference (.inl rfl) h₁
  exact (hl.addFinal hr).addField ⟨rfl, hi, hj, .none⟩ hn

theorem Laid.referredMethod (h : Laid options o d s) {m : Signature} {u : Unit}
    (hs : Build.referredMethod m s = .ok (u, t)) :
    Laid options o { d with calls := d.calls ++ [m], methods := d.methods ++ [m.shape] } t := by
  simp only [Build.referredMethod, Build.addMethod, bind_ok, change_ok] at hs
  obtain ⟨⟨r, i, j⟩, s₁, h₁, _, _, rfl, rfl⟩ := hs
  obtain ⟨hl, hr, hi, hj, hn⟩ := h.reference (.inr rfl) h₁
  exact (hl.addCall hr).addMethod ⟨rfl, hi, hj, rfl⟩ hn

theorem Laid.referredGlobal (h : Laid options o d s) {v : Text} {u : Unit}
    (hs : Build.referredGlobal v s = .ok (u, t)) :
    Laid options o { d with uses := d.uses ++ [v], fields := d.fields ++ [globalShape v] } t := by
  simp only [Build.referredGlobal, Build.addField, bind_ok, change_ok] at hs
  obtain ⟨⟨r, i, j⟩, s₁, h₁, _, _, rfl, rfl⟩ := hs
  obtain ⟨hl, hr, hi, hj, hn⟩ := h.reference (.inl rfl) h₁
  exact (hl.addUse hr).addField ⟨rfl, hi, hj, .none⟩ hn

theorem Laid.otherGlobal (h : Laid options o d s) {v : Text} {u : Unit}
    (hs : Build.otherGlobal v s = .ok (u, t)) :
    Laid options o { d with fields := d.fields ++ [globalShape v] } t := by
  simp only [Build.otherGlobal, Build.sharedText, Build.addField, bind_ok, see_ok, change_ok] at hs
  obtain ⟨i, s₁, h₁, j, s₂, ⟨found, _, ⟨rfl, rfl⟩, h₂⟩, rfl⟩ := hs
  obtain ⟨hl, hi, -, hn, hnames⟩ := h.text h₁
  rw [← hnames] at hn
  split at h₂
  · obtain ⟨hl₂, hj, hk, -, hnames₂⟩ := hl.text h₂
    rw [← hnames₂] at hn
    exact hl₂.addField ⟨rfl, hk _ _ hi, hj, .none⟩ hn
  · rename_i hfound
    obtain ⟨rfl, rfl⟩ := pure_ok.mp h₂
    exact hl.addField ⟨rfl, hi, hl.built.get?_find hfound, .none⟩ hn

theorem Laid.otherMethod (h : Laid options o d s) {m : Signature} {u : Unit}
    (hs : Build.otherMethod m s = .ok (u, t)) :
    Laid options o { d with methods := d.methods ++ [m.shape] } t := by
  simp only [Build.otherMethod, Build.addMethod, bind_ok, see_ok] at hs
  obtain ⟨found, _, ⟨rfl, rfl⟩, i, s₁, h₁, hs⟩ := hs
  obtain ⟨hl, hi, hk, hn, hnames⟩ := h.text h₁
  rw [← hnames] at hn
  split at hs
  · obtain ⟨j, s₂, h₂, hs⟩ := bind_ok.mp hs
    obtain rfl := change_ok.mp hs
    obtain ⟨hl₂, hj, hk₂, -, hnames₂⟩ := hl.text h₂
    rw [← hnames₂] at hn
    exact hl₂.addMethod ⟨rfl, hk₂ _ _ hi, hj, rfl⟩ hn
  · -- the descriptor was found before the name was added
    rename_i hfound
    obtain ⟨j, s₂, h₂, hs⟩ := bind_ok.mp hs
    obtain ⟨rfl, rfl⟩ := pure_ok.mp h₂
    obtain rfl := change_ok.mp hs
    exact hl.addMethod ⟨rfl, hi, hk _ _ (h.built.get?_find hfound), rfl⟩ hn

theorem Laid.codeHead (h : Laid options o d s) {u : Unit} (hs : Build.codeHead s = .ok (u, t)) :
    Laid options o { d with labelled := true } t := by
  simp only [Build.codeHead, bind_ok, change_ok] at hs
  obtain ⟨i, s₁, h₁, j, s₂, h₂, k, s₃, h₃, rfl⟩ := hs
  obtain ⟨hl₁, hi, -⟩ := h.text h₁
  obtain ⟨hl₂, hj, hk₂, -⟩ := hl₁.text h₂
  obtain ⟨hl₃, hk, hk₃, -⟩ := hl₂.text h₃
  exact { hl₃ with labels := fun _ => ⟨hk₃ _ _ (hk₂ _ _ hi), hk₃ _ _ hj, hk⟩ }

/-- The value of the final whose field stands behind those of `before`. -/
theorem Laid.constant (h : Laid options o d s) {label : UInt16} {f : Final}
    {before after : List FieldShape} (hd : d.fields = before ++ f.plainShape :: after)
    (hlabel : s.pool.get? label = some (.utf8 Attribute.constantValue)) {u : Unit}
    (hs : Build.constant label f before.length s = .ok (u, t)) :
    Laid options o { d with fields := before ++ f.shape :: after } t ∧ s.pool.Keeps t.pool := by
  simp only [Build.constant, bind_ok, change_ok] at hs
  obtain ⟨i, s₁, h₁, rfl⟩ := hs
  obtain ⟨hl, hi, hk, -⟩ := h.add (e := .integer f.value) (fun _ => trivial) trivial h₁
  refine ⟨{ hl with fields := ?_, names := ?_ }, hk⟩
  · show List.Forall₂ _ (s₁.fields.modify _ _).toList _
    have hfields := hl.fields
    rw [hd] at hfields
    rw [Array.toList_modify]
    refine forall₂_modify (fun x hx => ?_) hfields
    exact ⟨hx.access, hx.name, hx.descriptor, .some ⟨hk _ _ hlabel, hi⟩⟩
  · -- the constant leaves the name of its field alone
    have hmap := map_modify (f := FieldInfo.name)
      (g := fun field => { field with constant := some ⟨label, i⟩ }) (fun _ => rfl)
      s₁.fields.toList before.length
    show ((s₁.fields.modify _ _).toList.map _ ++ _).Nodup
    rw [Array.toList_modify, hmap]
    exact hl.names

/-- The values of the finals whose fields stand between `before` and `after`. -/
theorem Laid.constantLoop {label : UInt16} {after : List FieldShape} {u : Unit} :
    ∀ {fs : List Final} {before : List FieldShape} {d : Progress} {s t : Skeleton},
      Laid options o d s → d.fields = before ++ (fs.map Final.plainShape ++ after) →
      s.pool.get? label = some (.utf8 Attribute.constantValue) →
      each (fun (f, i) => Build.constant label f i) (fs.zipIdx before.length) s = .ok (u, t) →
      Laid options o { d with fields := before ++ (fs.map Final.shape ++ after) } t
  | [], before, d, s, t, h, hd, _, hs => by
    cases hs
    rw [List.map_nil, List.nil_append] at hd ⊢
    rw [← hd]
    exact h
  | f :: fs, before, d, s, t, h, hd, hlabel, hs => by
    rw [List.zipIdx_cons] at hs
    obtain ⟨r, h₁, hs⟩ := each_cons_ok.mp hs
    obtain ⟨hl, hk⟩ := h.constant hd hlabel h₁
    have hlen : before.length + 1 = (before ++ [f.shape]).length := by
      rw [List.length_append, List.length_singleton]
    have happ (l : List FieldShape) : before ++ f.shape :: l = (before ++ [f.shape]) ++ l := by
      rw [List.append_assoc, List.singleton_append]
    rw [hlen] at hs
    have := hl.constantLoop (happ (fs.map Final.plainShape ++ after)) (hk _ _ hlabel) hs
    rwa [← happ] at this

theorem Laid.constants (h : Laid options o d s) {fs : List Final} {after : List FieldShape} {u : Unit}
    (hd : d.fields = fs.map Final.plainShape ++ after) (hs : Build.constants fs s = .ok (u, t)) :
    Laid options o { d with fields := fs.map Final.shape ++ after } t := by
  unfold Build.constants at hs
  cases fs with
  | nil =>
    obtain ⟨-, rfl⟩ := pure_ok.mp hs
    rw [List.map_nil, List.nil_append] at hd ⊢
    rw [← hd]
    exact h
  | cons f fs =>
    obtain ⟨label, r, h₁, hs⟩ := bind_ok.mp hs
    obtain ⟨hl, hlabel, -⟩ := h.text h₁
    have hd' : d.fields = [] ++ ((f :: fs).map Final.plainShape ++ after) := hd
    exact hl.constantLoop hd' hlabel hs

end

/-! ## The first two phases -/

/-- The skeleton behind the first two phases: the constructor of the super class
and the class itself. -/
def opening (options : Options) (o : Outline) : Skeleton where
  className := o.name
  classPos := o.pos
  pool := Pool.ofList [.methodref 2 3, .classRef 4, .nameAndType 5 6, .utf8 options.superClass,
    .utf8 constructorName, .utf8 constructorDescriptor, .classRef 8, .utf8 o.name]
  thisClass := 7
  superClass := 2
  superInit := 1
  initName := 5
  initDescriptor := 6
  methods := #[⟨Access.package, 5, 6, none⟩]

theorem opening_ok (options : Options) (o : Outline) :
    ∃ s, Build.head options { className := o.name, classPos := o.pos } = .ok ((), s) ∧
      Build.ownClass s = .ok ((), opening options o) := ⟨_, rfl, rfl⟩

theorem laid_opening (options : Options) (o : Outline) :
    Laid options o { methods := [constructorShape] } (opening options o) where
  built := Pool.Built.empty.extend rfl (by simp [Pool.capacity]) (by simp)
  leads := by
    show ∀ e ∈ [_, _, _, _, _, _, _, _], _
    simp only [List.forall_mem_cons]
    exact ⟨⟨⟨4, rfl⟩, 5, 6, rfl⟩, ⟨_, rfl⟩, ⟨⟨_, rfl⟩, _, rfl⟩, trivial, trivial, trivial,
      ⟨_, rfl⟩, trivial, List.forall_mem_nil _⟩
  owned := by
    show ∀ e ∈ [_, _, _, _, _, _, _], _
    simp only [List.forall_mem_cons]
    exact ⟨trivial, trivial, trivial, trivial, trivial, trivial, trivial, List.forall_mem_nil _⟩
  className := rfl
  classPos := rfl
  superInit := rfl
  superRef := ⟨⟨2, 3, rfl⟩, rfl⟩
  superClass := rfl
  thisClass := rfl
  finals := .nil
  methodKeys := by intro k; simp [opening]
  methodRefs := by intro k i hi; simp [opening] at hi
  fieldKeys := by intro k; simp [opening]
  fieldRefs := by intro k i hi; simp [opening] at hi
  fields := .nil
  methods := .cons ⟨rfl, rfl, rfl, rfl⟩ .nil
  names := by simp [names, opening]
  labels := by intro h; cases h

end Skeleton

/-! ## All phases -/

namespace Outline

def calledMethods (o : Outline) : List Signature :=
  o.methods.filter fun m => o.references.contains m.name

def otherMethods (o : Outline) : List Signature :=
  o.methods.filter fun m => !o.references.contains m.name

def usedGlobals (o : Outline) : List Text := o.globals.filter o.references.contains

def otherGlobals (o : Outline) : List Text := o.globals.filter fun v => !o.references.contains v

def fieldShapes (o : Outline) : List FieldShape :=
  o.finals.map Final.shape ++ (o.usedGlobals.map globalShape ++ o.otherGlobals.map globalShape)

def methodShapes (o : Outline) : List MethodShape :=
  constructorShape :: (o.calledMethods.map Signature.shape ++ o.otherMethods.map Signature.shape)

def progress (o : Outline) : Skeleton.Progress where
  finals := o.finals
  calls := o.calledMethods
  uses := o.usedGlobals
  fields := o.fieldShapes
  methods := o.methodShapes
  labelled := true

end Outline

namespace Skeleton

section
open Build
variable {options : Options} {o : Outline} {d : Progress} {s t : Skeleton}

/-- A loop whose rounds take `f done` on by one item each. -/
theorem Laid.each {α : Type} {step : α → Build Unit} {f : List α → Progress}
    (hstep : ∀ done x s t, Laid options o (f done) s → step x s = .ok ((), t) →
      Laid options o (f (done ++ [x])) t) {xs : List α}
    (h : Laid options o (f []) s) (hs : each step xs s = .ok ((), t)) : Laid options o (f xs) t :=
  each_induct (P := fun done s => Laid options o (f done) s) hstep h hs

theorem laid_finals {fs : List Final} (h : Laid options o { methods := [constructorShape] } s)
    (hs : Build.each Build.final fs s = .ok ((), t)) :
    Laid options o
      { finals := fs, fields := fs.map Final.plainShape, methods := [constructorShape] } t := by
  refine Laid.each (f := fun fs =>
    { finals := fs, fields := fs.map Final.plainShape, methods := [constructorShape] }) ?_ h hs
  intro done f s t hp hs
  simpa using hp.final hs

theorem Laid.setReferences (h : Laid options o d s) (refs : References) :
    Laid options o d { s with references := refs } := { h with }

theorem laid_calls {u : Unit} (h : Laid options o
      { finals := o.finals, fields := o.finals.map Final.plainShape, methods := [constructorShape] } s)
    (hs : (do
      Build.each Build.referredMethod o.calledMethods
      Build.each Build.referredGlobal o.usedGlobals) s = .ok (u, t)) :
    Laid options o
      { finals := o.finals, calls := o.calledMethods, uses := o.usedGlobals,
        fields := o.finals.map Final.plainShape ++ o.usedGlobals.map globalShape,
        methods := constructorShape :: o.calledMethods.map Signature.shape } t := by
  obtain ⟨_, r, h₁, h₂⟩ := bind_ok.mp hs
  have hr := Laid.each (f := fun ms =>
    { finals := o.finals, calls := ms, fields := o.finals.map Final.plainShape,
      methods := constructorShape :: ms.map Signature.shape })
    (fun done m s t hp hs => by simpa using hp.referredMethod hs) h h₁
  refine Laid.each (f := fun vs =>
    { finals := o.finals, calls := o.calledMethods, uses := vs,
      fields := o.finals.map Final.plainShape ++ vs.map globalShape,
      methods := constructorShape :: o.calledMethods.map Signature.shape }) ?_ (by simpa using hr) h₂
  intro done v s t hp hs
  simpa using hp.referredGlobal hs

theorem laid_otherGlobals (h : Laid options o
      { finals := o.finals, calls := o.calledMethods, uses := o.usedGlobals,
        fields := o.finals.map Final.shape ++ o.usedGlobals.map globalShape,
        methods := constructorShape :: o.calledMethods.map Signature.shape } s)
    (hs : Build.each Build.otherGlobal o.otherGlobals s = .ok ((), t)) :
    Laid options o
      { finals := o.finals, calls := o.calledMethods, uses := o.usedGlobals, fields := o.fieldShapes,
        methods := constructorShape :: o.calledMethods.map Signature.shape } t := by
  refine Laid.each (f := fun vs =>
    { finals := o.finals, calls := o.calledMethods, uses := o.usedGlobals,
      fields := o.finals.map Final.shape ++ (o.usedGlobals.map globalShape ++ vs.map globalShape),
      methods := constructorShape :: o.calledMethods.map Signature.shape }) ?_ (by simpa using h) hs
  intro done v s t hp hs
  simpa using hp.otherGlobal hs

theorem laid_otherMethods (h : Laid options o
      { finals := o.finals, calls := o.calledMethods, uses := o.usedGlobals, fields := o.fieldShapes,
        methods := constructorShape :: o.calledMethods.map Signature.shape, labelled := true } s)
    (hs : Build.each Build.otherMethod o.otherMethods s = .ok ((), t)) :
    Laid options o o.progress t := by
  refine Laid.each (f := fun ms =>
    { finals := o.finals, calls := o.calledMethods, uses := o.usedGlobals, fields := o.fieldShapes,
      methods := constructorShape :: (o.calledMethods.map Signature.shape ++ ms.map Signature.shape),
      labelled := true }) ?_ (by simpa using h) hs
  intro done m s t hp hs
  simpa using hp.otherMethod hs

theorem Laid.sourceFile (h : Laid options o d s) {u : Unit}
    (hs : Build.sourceFile options s = .ok (u, t)) :
    Laid options o d t ∧ t.pool.get? t.source.name = some (.utf8 Attribute.sourceFile) ∧
      t.pool.get? t.source.file = some (.utf8 (o.name ++ options.sourceExtension)) := by
  simp only [Build.sourceFile, bind_ok, see_ok, change_ok] at hs
  obtain ⟨i, s₁, h₁, _, _, ⟨rfl, rfl⟩, j, s₂, h₂, rfl⟩ := hs
  obtain ⟨hl₁, hi, -⟩ := h.text h₁
  obtain ⟨hl₂, hj, hk, -⟩ := hl₁.text h₂
  rw [hl₁.className] at hj
  exact ⟨{ hl₂ with }, hk _ _ hi, hj⟩

/-- A layout that succeeds does all its phases, and what the first two leave is known. -/
theorem outcomes_of_layOut {log : Array LogRecord} (h : layOut options o = (.ok s, log)) :
    ∃ r log log', Build.outcomes ((Build.phases options o).drop 2) (opening options o) log = (.ok r, log') ∧
      { r with pool := r.pool.freeze } = s := by
  rw [layOut_eq] at h
  rcases hrun : Build.outcomes (Build.phases options o) { className := o.name, classPos := o.pos } #[]
    with ⟨_ | r, log'⟩
  · simp [hrun] at h
  · simp only [hrun, Prod.mk.injEq, Except.ok.injEq] at h
    obtain ⟨s₁, _, h₁, hrun⟩ := outcomes_cons_ok hrun
    obtain ⟨s₂, _, h₂, hrun⟩ := outcomes_cons_ok hrun
    obtain ⟨t, ht₁, ht₂⟩ := opening_ok options o
    cases h₁.symm.trans ht₁
    cases h₂.symm.trans ht₂
    exact ⟨r, _, _, hrun, h.1⟩

/-- A successful layout has everything of its class. -/
theorem layOut_ok {log : Array LogRecord} (h : layOut options o = (.ok s, log)) :
    Laid options o o.progress s ∧ s.pool.frozen = true ∧
      s.pool.get? s.source.name = some (.utf8 Attribute.sourceFile) ∧
      s.pool.get? s.source.file = some (.utf8 (o.name ++ options.sourceExtension)) := by
  obtain ⟨r, _, _, hrun, rfl⟩ := outcomes_of_layOut h
  obtain ⟨s₃, _, h₃, hrun⟩ := outcomes_cons_ok hrun
  obtain ⟨s₄, _, h₄, hrun⟩ := outcomes_cons_ok hrun
  obtain ⟨s₅, _, h₅, hrun⟩ := outcomes_cons_ok hrun
  obtain ⟨s₆, _, h₆, hrun⟩ := outcomes_cons_ok hrun
  obtain ⟨s₇, _, h₇, hrun⟩ := outcomes_cons_ok hrun
  obtain ⟨s₈, _, h₈, hrun⟩ := outcomes_cons_ok hrun
  obtain ⟨s₉, _, h₉, hrun⟩ := outcomes_cons_ok hrun
  obtain ⟨s₁₀, _, h₁₀, hrun⟩ := outcomes_cons_ok hrun
  cases hrun
  have l₃ := laid_finals (laid_opening options o) h₃
  obtain rfl := change_ok.mp h₄
  have l₅ := laid_calls (l₃.setReferences _) h₅
  have l₇ := laid_otherGlobals (l₅.constants rfl h₆) h₇
  have l₉ := laid_otherMethods (l₇.codeHead h₈) h₉
  obtain ⟨l, hname, hfile⟩ := l₉.sourceFile h₁₀
  exact ⟨l.freeze, rfl, hname, hfile⟩

theorem build_ok {c : ClassDecl} (h : (build options c).1 = .ok s) :
    c.check = none ∧ ∃ log, layOut options.effective c.outline = (.ok s, log) := by
  cases hc : c.check with
  | some f => simp [build_of_breach options hc] at h
  | none =>
    rw [build_of_check options hc] at h
    rcases hl : layOut options.effective c.outline with ⟨_ | t, log⟩
    · simp [hl, Except.mapError] at h
    · simp only [hl, Except.mapError, Except.ok.injEq] at h
      exact ⟨rfl, log, by rw [h]⟩

end

end Skeleton

end ClassForge
