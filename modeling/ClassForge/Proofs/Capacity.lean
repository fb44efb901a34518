import ClassForge.Proofs.Compile
import ClassForge.Proofs.Plan

/-!
# Room for a layout

Layout computes numbers modulo 65536, ahead of the entries that they name, and
near the end of the pool they do wrap. Reduced modulo 65536, every number is
that of the plan (`Skeleton.Follows`), and a step fails exactly when the plan
outgrows the pool (`Skeleton.Realizes`). A plan that fits has no number beyond
its last entry, so nothing has wrapped when a layout succeeds.
-/

namespace ClassForge

/-! ## Numbers modulo 65536 -/

namespace PlanEntry

def narrow : PlanEntry → Entry
  | utf8 text => .utf8 text
  | integer value => .integer value
  | classRef name => .classRef (.ofNat name)
  | nameAndType name descriptor => .nameAndType (.ofNat name) (.ofNat descriptor)
  | fieldref owner member => .fieldref (.ofNat owner) (.ofNat member)
  | methodref owner member => .methodref (.ofNat owner) (.ofNat member)
  | vacant => .vacant

theorem narrow_eq_utf8 {e : PlanEntry} {t : Text} : e.narrow = .utf8 t ↔ e = .utf8 t := by
  cases e <;> simp [narrow]

end PlanEntry

def PlanField.narrow (f : PlanField) : FieldInfo :=
  ⟨f.access, .ofNat f.name, .ofNat f.descriptor, f.constant.map fun c => ⟨.ofNat c.1, .ofNat c.2⟩⟩

def PlanMethod.narrow (m : PlanMethod) : MethodInfo := ⟨m.access, .ofNat m.name, .ofNat m.descriptor, none⟩

namespace Skeleton

structure Follows (p : Plan) (s : Skeleton) : Prop where
  unfrozen : s.pool.frozen = false
  room : p.size ≤ Pool.capacity
  entries : s.pool.entries.toList = p.entries.map PlanEntry.narrow
  first : ∀ t : Text, s.pool.first[t]? = (p.find? t).map UInt16.ofNat
  className : s.className = p.className
  thisClass : s.thisClass = .ofNat p.thisClass
  superClass : s.superClass = .ofNat p.superClass
  superInit : s.superInit = .ofNat p.superInit
  initName : s.initName = .ofNat p.initName
  initDescriptor : s.initDescriptor = .ofNat p.initDescriptor
  codeName : s.codeName = .ofNat p.codeName
  lineTableName : s.lineTableName = .ofNat p.lineTableName
  stackMapName : s.stackMapName = .ofNat p.stackMapName
  source : s.source = ⟨.ofNat p.sourceName, .ofNat p.sourceFile⟩
  fields : s.fields.toList = p.fields.map PlanField.narrow
  methods : s.methods.toList = p.methods.map PlanMethod.narrow
  finals : s.finals.toList = p.finals.map fun x => (x.1, UInt16.ofNat x.2)
  methodRefs : ∀ k : Text, s.methodRefs[k]? = (p.methodRefs k).map UInt16.ofNat
  fieldRefs : ∀ k : Text, s.fieldRefs[k]? = (p.fieldRefs k).map UInt16.ofNat

section
variable {p : Plan} {s : Skeleton}

theorem Follows.size_eq (h : Follows p s) : s.pool.entries.size = p.size := by
  rw [← Array.length_toList, h.entries, List.length_map, Plan.size]

theorem Follows.next_eq (h : Follows p s) : s.pool.next = UInt16.ofNat p.next := by
  rw [Pool.next, h.size_eq, Plan.next]

theorem Follows.push (h : Follows p s) (hs : p.size < Pool.capacity) (e : PlanEntry) :
    Follows (p.push e) { s with pool := s.pool.push e.narrow } :=
  { h with
    unfrozen := h.unfrozen
    room := by
      rw [Plan.size_push]
      exact hs
    entries := by
      show (s.pool.entries.push _).toList = _
      rw [Array.toList_push, h.entries]
      simp [Plan.push]
    first := by
      intro t
      show (s.pool.push e.narrow).first[t]? = _
      rw [Pool.getElem?_first_push, Plan.find?_push, h.first, h.next_eq]
      simp only [PlanEntry.narrow_eq_utf8]
      split <;> cases p.find? t <;> rfl }

/-- The number that a text has is not zero, so a zero means that there is none. -/
theorem Follows.find_eq (h : Follows p s) (t : Text) :
    p.find? t = none ∧ s.pool.find t = 0 ∨
      ∃ i, p.find? t = some i ∧ s.pool.find t = .ofNat i ∧ UInt16.ofNat i ≠ 0 := by
  unfold Pool.find
  rw [h.first t]
  cases hf : p.find? t with
  | none => exact .inl ⟨rfl, rfl⟩
  | some i =>
    refine .inr ⟨i, rfl, rfl, ?_⟩
    have hb := Plan.find?_bounds hf
    have hroom := h.room
    intro hzero
    have := congrArg UInt16.toNat hzero
    simp only [UInt16.toNat_ofNat', Pool.capacity] at this hroom
    have hz : UInt16.toNat 0 = 0 := rfl
    omega

end

theorem map_modify_comm {α β : Type} {f : α → β} {g : α → α} {g' : β → β} (h : ∀ x, f (g x) = g' (f x)) :
    ∀ (l : List α) (i : Nat), (l.modify i g).map f = (l.map f).modify i g'
  | [], i => by simp
  | x :: l, 0 => by simp [h]
  | x :: l, i + 1 => by simp [map_modify_comm h l i]

theorem getElem?_insert_eq {m : Std.TreeMap Text UInt16} {f : Text → Option Nat}
    (h : ∀ k : Text, m[k]? = (f k).map UInt16.ofNat) (name : Text) (i : Nat) (k : Text) :
    (m.insert name (UInt16.ofNat i))[k]? =
      (if k = name then some i else f k).map UInt16.ofNat := by
  rw [Std.TreeMap.getElem?_insert]
  by_cases hk : k = name
  · simp [hk]
  · have hc : ¬ compare name k = .eq := fun hc => hk (Std.LawfulEqOrd.eq_of_compare hc).symm
    simp [hk, hc, h]

/-! ## Steps -/

structure Realizes {α β : Type} (cast : β → α) (r : StateM Plan β) (b : Build α) : Prop where
  grows : ∀ p, p.size ≤ (r p).2.size
  ok : ∀ p s, Follows p s → (r p).2.size ≤ Pool.capacity →
    ∃ t, b s = .ok (cast (r p).1, t) ∧ Follows (r p).2 t
  full : ∀ p s, Follows p s → Pool.capacity < (r p).2.size → b s = .error .full

section
variable {α β γ δ : Type}

theorem Realizes.bind {cast : β → α} {cast' : δ → γ} {r : StateM Plan β} {b : Build α}
    {g : β → StateM Plan δ} {f : α → Build γ} (h : Realizes cast r b)
    (h' : ∀ y, Realizes cast' (g y) (f (cast y))) : Realizes cast' (r >>= g) (b >>= f) where
  grows p := Nat.le_trans (h.grows p) ((h' (r p).1).grows (r p).2)
  ok p s hs hle := by
    have hle' := Nat.le_trans ((h' (r p).1).grows (r p).2) hle
    obtain ⟨t, hb, ht⟩ := h.ok p s hs hle'
    obtain ⟨u, hf, hu⟩ := (h' (r p).1).ok (r p).2 t ht hle
    exact ⟨u, Build.bind_ok.mpr ⟨_, t, hb, hf⟩, hu⟩
  full p s hs hlt := by
    change Pool.capacity < (g (r p).1 (r p).2).2.size at hlt
    rw [Build.bind_apply]
    -- the plan outgrows the pool either at once or behind the first step
    rcases Nat.lt_or_ge Pool.capacity (r p).2.size with hfull | hle
    · rw [h.full p s hs hfull]
    · obtain ⟨t, hb, ht⟩ := h.ok p s hs hle
      rw [hb]
      exact (h' (r p).1).full (r p).2 t ht hlt

theorem realizes_of_size_eq {cast : β → α} {r : StateM Plan β} {b : Build α}
    (hsize : ∀ p, (r p).2.size = p.size)
    (h : ∀ p s, Follows p s → ∃ t, b s = .ok (cast (r p).1, t) ∧ Follows (r p).2 t) :
    Realizes cast r b where
  grows p := Nat.le_of_eq (hsize p).symm
  ok p s hs _ := h p s hs
  full p s hs hlt := by
    have := hs.room
    rw [hsize] at hlt
    omega

theorem realizes_pure (cast : β → α) (y : β) : Realizes cast (pure y) (pure (cast y)) :=
  realizes_of_size_eq (fun _ => rfl) fun _ s hs => ⟨s, rfl, hs⟩

theorem realizes_see {c : β → α} {f : Plan → β} {f' : Skeleton → α}
    (h : ∀ p s, Follows p s → f' s = c (f p)) : Realizes c (Plan.see f) (Build.see f') :=
  realizes_of_size_eq (fun _ => rfl) fun p s hs => ⟨s, Build.see_ok.mpr ⟨h p s hs, rfl⟩, hs⟩

theorem realizes_modify {g : Plan → Plan} {f : Skeleton → Skeleton} (hsize : ∀ p, (g p).size = p.size)
    (h : ∀ p s, Follows p s → Follows (g p) (f s)) : Realizes id (modify g) (Build.change f) :=
  realizes_of_size_eq hsize fun p s hs => ⟨f s, rfl, h p s hs⟩

theorem realizes_next : Realizes UInt16.ofNat (Plan.see Plan.next) Build.next :=
  realizes_see fun _ _ h => h.next_eq

theorem realizes_add (e : PlanEntry) : Realizes UInt16.ofNat (Plan.add e) (Build.add e.narrow) where
  grows p := by
    show p.size ≤ (p.push e).size
    rw [Plan.size_push]
    exact Nat.le_succ _
  ok p s hs hle := by
    have hlt : p.size < Pool.capacity := by
      rw [show ((Plan.add e p).2 : Plan) = p.push e from rfl, Plan.size_push] at hle
      exact hle
    have hadd : s.pool.add e.narrow = .ok (s.pool.next, s.pool.push e.narrow) :=
      Pool.add_eq_ok.mpr ⟨hs.unfrozen, by rw [hs.size_eq]; exact hlt, rfl, rfl⟩
    refine ⟨{ s with pool := s.pool.push e.narrow }, ?_, hs.push hlt e⟩
    rw [Build.add_apply, hadd, hs.next_eq]
    rfl
  full p s hs hlt := by
    have hge : Pool.capacity ≤ s.pool.entries.size := by
      rw [show ((Plan.add e p).2 : Plan) = p.push e from rfl, Plan.size_push] at hlt
      rw [hs.size_eq]
      omega
    have hadd : s.pool.add e.narrow = .error .full := by
      simp [Pool.add, Pool.refusal?, hs.unfrozen, hge]
    rw [Build.add_apply, hadd]
    rfl

theorem realizes_add_of {e : PlanEntry} {e' : Entry} (h : e.narrow = e') :
    Realizes UInt16.ofNat (Plan.add e) (Build.add e') := by
  rw [← h]
  exact realizes_add e

theorem realizes_text (t : Text) : Realizes UInt16.ofNat (Plan.text t) (Build.text t) :=
  realizes_add (.utf8 t)

/-- A look-up: `f` of zero is what is done without a text, and `k` of any other
number what is done with one. -/
theorem realizes_find {cast : δ → γ} {t : Text} {g : Option Nat → StateM Plan δ}
    {f k : UInt16 → Build γ} (hf : ∀ x, x ≠ 0 → f x = k x)
    (hnone : Realizes cast (g none) (f 0))
    (hsome : ∀ i, Realizes cast (g (some i)) (k (.ofNat i))) :
    Realizes cast (Plan.see (·.find? t) >>= g) (Build.see (·.pool.find t) >>= f) where
  grows p := by
    show p.size ≤ (g (p.find? t) p).2.size
    cases p.find? t with
    | none => exact hnone.grows p
    | some i => exact (hsome i).grows p
  ok p s hs hle := by
    change (g (p.find? t) p).2.size ≤ _ at hle
    show ∃ u, f (s.pool.find t) s = .ok (cast (g (p.find? t) p).1, u) ∧ Follows (g (p.find? t) p).2 u
    rcases hs.find_eq t with ⟨hp, hz⟩ | ⟨i, hp, hi, hne⟩
    · rw [hp] at hle ⊢
      rw [hz]
      exact hnone.ok p s hs hle
    · rw [hp] at hle ⊢
      rw [hi, hf _ hne]
      exact (hsome i).ok p s hs hle
  full p s hs hlt := by
    change _ < (g (p.find? t) p).2.size at hlt
    show f (s.pool.find t) s = _
    rcases hs.find_eq t with ⟨hp, hz⟩ | ⟨i, hp, hi, hne⟩
    · rw [hp] at hlt
      rw [hz]
      exact hnone.full p s hs hlt
    · rw [hp] at hlt
      rw [hi, hf _ hne]
      exact (hsome i).full p s hs hlt

theorem realizes_forM {r : β → StateM Plan Unit} {b : β → Build Unit}
    (h : ∀ x, Realizes id (r x) (b x)) : ∀ xs : List β, Realizes id (xs.forM r) (Build.each b xs)
  | [] => realizes_of_size_eq (fun _ => rfl) fun _ s hs => ⟨s, rfl, hs⟩
  | x :: xs => by
    rw [Build.each_cons]
    exact (h x).bind fun _ => realizes_forM h xs

/-! ## Phases -/

def castPair (x : Nat × Nat) : UInt16 × UInt16 := (.ofNat x.1, .ofNat x.2)

def castTriple (x : Nat × Nat × Nat) : UInt16 × UInt16 × UInt16 := (.ofNat x.1, castPair x.2)

theorem realizes_sharedText (t : Text) : Realizes UInt16.ofNat (Plan.sharedText t) (Build.sharedText t) := by
  refine realizes_find (k := fun i => pure i) (fun x hx => if_neg hx) ?_ fun i => ?_
  · exact realizes_text t
  · exact realizes_pure UInt16.ofNat i

theorem realizes_nameAndType (name descriptor : Text) :
    Realizes castPair (Plan.nameAndType name descriptor) (Build.nameAndType name descriptor) := by
  refine realizes_next.bind fun here => ?_
  refine realizes_find (k := fun found => do
    let _ ← Build.add (.nameAndType (.ofNat here + 1) found)
    return (← Build.text name, found)) (fun x hx => ?_) ?_ fun i => ?_
  · rw [if_neg hx]
  · refine (realizes_add_of (by simp [PlanEntry.narrow])).bind fun _ => ?_
    refine (realizes_text name).bind fun i => (realizes_text descriptor).bind fun j => ?_
    exact realizes_pure castPair (i, j)
  · refine (realizes_add_of (by simp [PlanEntry.narrow])).bind fun _ => ?_
    exact (realizes_text name).bind fun j => realizes_pure castPair (j, i)

theorem realizes_reference {kind : Nat → Nat → PlanEntry} {kind' : UInt16 → UInt16 → Entry}
    (hkind : ∀ i j, (kind i j).narrow = kind' (.ofNat i) (.ofNat j)) (name descriptor : Text) :
    Realizes castTriple (Plan.reference kind name descriptor) (Build.reference kind' name descriptor) := by
  refine realizes_next.bind fun here => ?_
  refine (realizes_see (c := UInt16.ofNat) fun _ _ h => h.thisClass).bind fun owner => ?_
  refine (realizes_add_of (by simp [hkind])).bind fun _ => ?_
  exact (realizes_nameAndType name descriptor).bind fun x => realizes_pure castTriple (here, x)

theorem realizes_addField {f : PlanField} {f' : FieldInfo} (hf : f.narrow = f') :
    Realizes id (Plan.addField f) (Build.addField f') := by
  refine realizes_modify (fun _ => rfl) fun p s h => { h with fields := ?_ }
  simp [h.fields, hf]

theorem realizes_addMethod {m : PlanMethod} {m' : MethodInfo} (hm : m.narrow = m') :
    Realizes id (Plan.addMethod m) (Build.addMethod m') := by
  refine realizes_modify (fun _ => rfl) fun p s h => { h with methods := ?_ }
  simp [h.methods, hm]

theorem realizes_head (options : Options) : Realizes id (Plan.head options) (Build.head options) := by
  refine realizes_next.bind fun here => ?_
  refine (realizes_add_of (by simp [PlanEntry.narrow])).bind fun superInit => ?_
  refine (realizes_add_of (by simp [PlanEntry.narrow])).bind fun superClass => ?_
  refine (realizes_add_of (by simp [PlanEntry.narrow])).bind fun _ => ?_
  refine (realizes_text _).bind fun _ => (realizes_text _).bind fun initName => ?_
  refine (realizes_text _).bind fun initDescriptor => ?_
  refine realizes_modify (fun _ => rfl) fun p s h => ?_
  exact { h with superInit := rfl, superClass := rfl, initName := rfl, initDescriptor := rfl }

theorem realizes_ownClass : Realizes id Plan.ownClass Build.ownClass := by
  refine realizes_next.bind fun here => ?_
  refine (realizes_add_of (by simp [PlanEntry.narrow])).bind fun thisClass => ?_
  refine (realizes_see (c := id) fun _ _ h => h.className).bind fun name => ?_
  refine (realizes_text _).bind fun _ => ?_
  refine Realizes.bind (realizes_modify (fun _ => rfl) fun p s h => { h with thisClass := rfl }) fun _ => ?_
  refine (realizes_see (c := UInt16.ofNat) fun _ _ h => h.initName).bind fun initName => ?_
  refine (realizes_see (c := UInt16.ofNat) fun _ _ h => h.initDescriptor).bind fun initDescriptor => ?_
  exact realizes_addMethod rfl

theorem realizes_final (f : Final) : Realizes id (Plan.final f) (Build.final f) := by
  refine (realizes_reference (fun _ _ => rfl) _ _).bind fun ⟨here, name, descriptor⟩ => ?_
  refine Realizes.bind (realizes_modify (fun _ => rfl) fun p s h => { h with finals := ?_ }) fun _ => ?_
  · simp [h.finals]
  · exact realizes_addField rfl

theorem realizes_referredMethod (m : Signature) :
    Realizes id (Plan.referredMethod m) (Build.referredMethod m) := by
  refine (realizes_reference (fun _ _ => rfl) _ _).bind fun ⟨here, name, descriptor⟩ => ?_
  refine Realizes.bind (realizes_modify (fun _ => rfl) fun p s h => { h with methodRefs := ?_ }) fun _ => ?_
  · exact getElem?_insert_eq h.methodRefs m.name here
  · exact realizes_addMethod rfl

theorem realizes_referredGlobal (v : Text) :
    Realizes id (Plan.referredGlobal v) (Build.referredGlobal v) := by
  refine (realizes_reference (fun _ _ => rfl) _ _).bind fun ⟨here, name, descriptor⟩ => ?_
  refine Realizes.bind (realizes_modify (fun _ => rfl) fun p s h => { h with fieldRefs := ?_ }) fun _ => ?_
  · exact getElem?_insert_eq h.fieldRefs v here
  · exact realizes_addField rfl

theorem realizes_constant (label : Nat) (f : Final) (i : Nat) :
    Realizes id (Plan.constant label f i) (Build.constant (.ofNat label) f i) := by
  refine (realizes_add (.integer f.value)).bind fun value => ?_
  refine realizes_modify (fun _ => rfl) fun p s h => { h with fields := ?_ }
  rw [Array.toList_modify, h.fields]
  symm
  apply map_modify_comm
  intro x
  rfl

theorem realizes_constants (finals : List Final) :
    Realizes id (Plan.constants finals) (Build.constants finals) := by
  unfold Plan.constants Build.constants
  split
  · exact realizes_pure id ()
  · exact (realizes_text _).bind fun label =>
      realizes_forM (fun (x : Final × Nat) => realizes_constant label x.1 x.2) _

theorem realizes_otherGlobal (v : Text) : Realizes id (Plan.otherGlobal v) (Build.otherGlobal v) :=
  (realizes_text v).bind fun _ => (realizes_sharedText _).bind fun _ => realizes_addField rfl

theorem realizes_codeHead : Realizes id Plan.codeHead Build.codeHead := by
  refine (realizes_text _).bind fun _ => (realizes_text _).bind fun _ => (realizes_text _).bind fun _ => ?_
  refine realizes_modify (fun _ => rfl) fun p s h => ?_
  exact { h with codeName := rfl, lineTableName := rfl, stackMapName := rfl }

theorem realizes_otherMethod (m : Signature) : Realizes id (Plan.otherMethod m) (Build.otherMethod m) := by
  refine realizes_find (k := fun found => do
    let name ← Build.text m.name
    Build.addMethod ⟨Access.isPublic, name, found, none⟩) (fun x hx => ?_) ?_ fun i => ?_
  · simp only [if_neg hx]
    rfl
  · exact (realizes_text _).bind fun name => (realizes_text _).bind fun descriptor => realizes_addMethod rfl
  · exact (realizes_text _).bind fun name => realizes_addMethod rfl

theorem realizes_sourceText (options : Options) :
    Realizes id (Plan.sourceText options) (Build.sourceFile options) := by
  refine (realizes_text _).bind fun _ => ?_
  refine (realizes_see (c := id) fun _ _ h => h.className).bind fun _ => (realizes_text _).bind fun _ => ?_
  exact realizes_modify (fun _ => rfl) fun p s h => { h with source := rfl }

end

/-! ## All phases -/

theorem realizes_phases (options : Options) (o : Outline) :
    List.Forall₂ (fun r b => Realizes id r b.2) (Plan.phases options o) (Build.phases options o) := by
  refine .cons (realizes_head options) <| .cons realizes_ownClass <|
    .cons (realizes_forM realizes_final _) <| .cons ?_ <| .cons ?_ <| .cons (realizes_constants _) <|
    .cons (realizes_forM realizes_otherGlobal _) <| .cons realizes_codeHead <|
    .cons (realizes_forM realizes_otherMethod _) <| .cons (realizes_sourceText options) .nil
  · exact realizes_of_size_eq (fun _ => rfl) fun p s h => ⟨_, rfl, { h with }⟩
  · exact (realizes_forM realizes_referredMethod _).bind fun _ => realizes_forM realizes_referredGlobal _

section
variable {rs : List (StateM Plan Unit)} {bs : List (Text × Build Unit)}

theorem size_le_of_mem (h : List.Forall₂ (fun r b => Realizes id r b.2) rs bs) {r : StateM Plan Unit}
    (hr : r ∈ rs) (p : Plan) : p.size ≤ (r p).2.size := by
  obtain ⟨b, -, hb⟩ := exists_of_forall₂ h hr
  exact hb.grows p

theorem run_ok_of_le (h : List.Forall₂ (fun r b => Realizes id r b.2) rs bs) {p : Plan} {s : Skeleton}
    (hs : Follows p s) (hle : (rs.forM id p).2.size ≤ Pool.capacity) (log : Array LogRecord) :
    ∃ t log', Build.outcomes bs s log = (.ok t, log') ∧ Follows (rs.forM id p).2 t := by
  induction h generalizing p s log with
  | nil => exact ⟨s, log, rfl, hs⟩
  | @cons r b rs bs hr hrest ih =>
    obtain ⟨t, hb, ht⟩ := hr.ok p s hs (Nat.le_trans (Plan.size_le_forM (fun _ => size_le_of_mem hrest) _) hle)
    rw [Build.outcomes_cons, hb]
    exact ih ht hle _

theorem run_full_of_lt (h : List.Forall₂ (fun r b => Realizes id r b.2) rs bs) {p : Plan} {s : Skeleton}
    (hs : Follows p s) (hlt : Pool.capacity < (rs.forM id p).2.size) (log : Array LogRecord) :
    ∃ log', Build.outcomes bs s log = (.error .full, log') := by
  induction h generalizing p s log with
  | nil => exact absurd hs.room (Nat.not_le_of_lt hlt)
  | @cons r b rs bs hr hrest ih =>
    rw [Build.outcomes_cons]
    rcases Nat.lt_or_ge Pool.capacity (r p).2.size with hfull | hle
    · rw [hr.full p s hs hfull]
      exact ⟨log, rfl⟩
    · obtain ⟨t, hb, ht⟩ := hr.ok p s hs hle
      rw [hb]
      exact ih ht hlt _

end

theorem follows_empty (o : Outline) :
    Follows { className := o.name } { className := o.name, classPos := o.pos } := by
  constructor <;> simp [Plan.find?, Plan.size]

end Skeleton

/-! ## The numbers of a plan -/

def Outline.ownTexts (options : Options) (o : Outline) : List Text :=
  [options.superClass, o.name, o.name ++ options.sourceExtension] ++
    (o.finals.map Final.name ++ (o.globals ++ o.methods.flatMap fun m => [m.name, m.descriptor]))

def Outline.texts (options : Options) (o : Outline) : List Text :=
  [Skeleton.constructorName, Skeleton.constructorDescriptor, Signature.intDescriptor,
    Attribute.constantValue, Attribute.code, Attribute.lineNumberTable, Attribute.stackMapTable,
    Attribute.sourceFile] ++ o.ownTexts options

namespace Outline

variable {options : Options} {o : Outline}

theorem final_mem_texts {f : Final} (h : f ∈ o.finals) : f.name ∈ o.texts options := by
  simp [texts, ownTexts, List.mem_map_of_mem h]

theorem global_mem_texts {v : Text} (h : v ∈ o.globals) : v ∈ o.texts options := by
  simp [texts, ownTexts, h]

theorem method_mem_texts {m : Signature} (h : m ∈ o.methods) :
    m.name ∈ o.texts options ∧ m.descriptor ∈ o.texts options := by
  simp only [texts, ownTexts, List.mem_append, List.mem_flatMap]
  exact ⟨.inr (.inr (.inr (.inr ⟨m, h, by simp⟩))), .inr (.inr (.inr (.inr ⟨m, h, by simp⟩)))⟩

end Outline

namespace Plan

def opening (options : Options) (o : Outline) : Plan where
  className := o.name
  entries := [.methodref 2 3, .classRef 4, .nameAndType 5 6, .utf8 options.superClass,
    .utf8 Skeleton.constructorName, .utf8 Skeleton.constructorDescriptor, .classRef 8, .utf8 o.name]
  thisClass := 7
  superClass := 2
  superInit := 1
  initName := 5
  initDescriptor := 6
  methods := [⟨Access.package, 5, 6⟩]

theorem layOut_eq (options : Options) (o : Outline) :
    layOut options o = (((phases options o).drop 2).forM id (opening options o)).2 := rfl

section
variable {n : Nat} {options : Options} {o : Outline}

theorem sound_opening (hn : 8 ≤ n) :
    Sound n (· ∈ o.texts options) o.name (opening options o) := by
  constructor <;> simp [opening, PlanEntry.Fits, Outline.texts, Outline.ownTexts] <;> omega

theorem Sound.constants {T : Text → Prop} {c : Text} {p : Plan} {finals : List Final} (h : Sound n T c p)
    (ht : T Attribute.constantValue) (hle : (Plan.constants finals p).2.size ≤ n) :
    Sound n T c (Plan.constants finals p).2 := by
  have hgrow : ∀ x ∈ finals.zipIdx, ∀ q : Plan, q.size ≤ (Plan.constant p.next x.1 x.2 q).2.size :=
    fun x _ => (Skeleton.realizes_constant p.next x.1 x.2).grows
  unfold Plan.constants at hle ⊢
  split
  · exact h
  · rename_i hne
    rw [if_neg hne] at hle
    have hlabel := next_le_of_push (Nat.le_trans (size_le_forM hgrow _) hle)
    exact (h.text ht).forM hgrow (fun _ _ _ hq => hq.constant hlabel) hle

/-- No number of a plan lies beyond its last entry, and its texts are those of
the class. -/
theorem sound_layOut (hle : (layOut options o).size ≤ n) :
    Sound n (· ∈ o.texts options) o.name (layOut options o) := by
  have hgrow : ∀ r ∈ (phases options o).drop 2, ∀ p, p.size ≤ (id r p).2.size := fun r hr =>
    Skeleton.size_le_of_mem (Skeleton.realizes_phases options o) (List.mem_of_mem_drop hr)
  have hint : Signature.intDescriptor ∈ o.texts options := by simp [Outline.texts]
  rw [layOut_eq] at hle ⊢
  -- the first two phases add eight entries whatever the class is
  have hn : 8 ≤ n := Nat.le_trans (size_le_forM hgrow (opening options o)) hle
  refine (sound_opening hn).forM hgrow ?_ hle
  simp only [phases, List.drop_succ_cons, List.drop_zero, List.forall_mem_cons, id]
  refine ⟨?_, ?_, ?_, ?_, ?_, ?_, ?_, ?_, List.forall_mem_nil _⟩
  · exact fun q hq => hq.forM (fun f _ => (Skeleton.realizes_final f).grows)
      fun f hf _ hp => hp.final (Outline.final_mem_texts hf) hint
  · exact fun q hq _ => hq
  · intro q hq hle
    have hglobals : ∀ v ∈ o.globals.filter o.references.contains, ∀ p,
        p.size ≤ (referredGlobal v p).2.size := fun v _ => (Skeleton.realizes_referredGlobal v).grows
    refine Sound.forM (hq.forM (fun m _ => (Skeleton.realizes_referredMethod m).grows) ?_ ?_) hglobals ?_ hle
    · intro m hm _ hp
      obtain ⟨hname, hdesc⟩ := Outline.method_mem_texts (List.mem_of_mem_filter hm)
      exact hp.referredMethod hname hdesc
    · exact Nat.le_trans (size_le_forM hglobals _) hle
    · exact fun v hv _ hp => hp.referredGlobal (Outline.global_mem_texts (List.mem_of_mem_filter hv)) hint
  · exact fun q hq => hq.constants (by simp [Outline.texts])
  · exact fun q hq => hq.forM (fun v _ => (Skeleton.realizes_otherGlobal v).grows)
      fun v hv _ hp => hp.otherGlobal (Outline.global_mem_texts (List.mem_of_mem_filter hv)) hint
  · exact fun q hq => hq.codeHead (by simp [Outline.texts]) (by simp [Outline.texts])
      (by simp [Outline.texts])
  · refine fun q hq => hq.forM (fun m _ => (Skeleton.realizes_otherMethod m).grows) ?_
    intro m hm _ hp
    obtain ⟨hname, hdesc⟩ := Outline.method_mem_texts (List.mem_of_mem_filter hm)
    exact hp.otherMethod hname hdesc
  · exact fun q hq => hq.sourceText (by simp [Outline.texts]) (by simp [Outline.texts, Outline.ownTexts])

end

end Plan

/-! ## Skeletons that carry out their plan -/

section
variable {n : Nat} (hn : n ≤ Pool.capacity)
include hn

theorem toNat_ofNat_of_le {i : Nat} (hi : i ≤ n) : (UInt16.ofNat i).toNat = i := by
  rw [Pool.capacity] at hn
  rw [UInt16.toNat_ofNat', Nat.mod_eq_of_lt]
  omega

theorem PlanEntry.widen_narrow {T : Text → Prop} {e : PlanEntry} (h : e.Fits n T) : e.narrow.widen = e := by
  cases e with
  | utf8 _ => rfl
  | integer _ => rfl
  | classRef i => rw [narrow, Entry.widen, toNat_ofNat_of_le hn h]
  | nameAndType i j => rw [narrow, Entry.widen, toNat_ofNat_of_le hn h.1, toNat_ofNat_of_le hn h.2]
  | fieldref i j => rw [narrow, Entry.widen, toNat_ofNat_of_le hn h.1, toNat_ofNat_of_le hn h.2]
  | methodref i j => rw [narrow, Entry.widen, toNat_ofNat_of_le hn h.1, toNat_ofNat_of_le hn h.2]
  | vacant => rfl

theorem PlanField.widen_narrow {f : PlanField} (h : f.Fits n) : f.narrow.widen = f := by
  obtain ⟨access, name, descriptor, constant⟩ := f
  have hname := toNat_ofNat_of_le hn h.name
  have hdescriptor := toNat_ofNat_of_le hn h.descriptor
  cases constant with
  | none => simp [narrow, FieldInfo.widen, hname, hdescriptor]
  | some c =>
    obtain ⟨hlabel, hvalue⟩ := h.constant c rfl
    simp [narrow, FieldInfo.widen, hname, hdescriptor, toNat_ofNat_of_le hn hlabel,
      toNat_ofNat_of_le hn hvalue]

theorem map_toNat_map_ofNat {f : Text → Option Nat} (h : ∀ k i, f k = some i → i ≤ n) (k : Text) :
    ((f k).map UInt16.ofNat).map UInt16.toNat = f k := by
  cases hk : f k with
  | none => rfl
  | some i => simp [toNat_ofNat_of_le hn (h k i hk)]

end

theorem map_map_eq_self {α β : Type} {f : α → β} {g : β → α} {l : List α} (h : ∀ x ∈ l, g (f x) = x) :
    (l.map f).map g = l := by
  rw [List.map_map]
  exact (List.map_congr_left h).trans (List.map_id l)

namespace Skeleton

theorem Follows.widen_eq {p : Plan} {s : Skeleton} {n : Nat} {T : Text → Prop} {c : Text}
    (h : Follows p s) (hp : p.Sound n T c) (hn : n ≤ Pool.capacity) : s.widen = p := by
  have cast {i : Nat} (hi : i ≤ n) := toNat_ofNat_of_le hn hi
  apply Plan.ext
  · exact h.className
  · show s.pool.entries.toList.map Entry.widen = _
    rw [h.entries]
    exact map_map_eq_self fun e he => PlanEntry.widen_narrow hn (hp.entries e he)
  · rw [widen, h.thisClass, cast hp.thisClass]
  · rw [widen, h.superClass, cast hp.superClass]
  · rw [widen, h.superInit, cast hp.superInit]
  · rw [widen, h.initName, cast hp.initName]
  · rw [widen, h.initDescriptor, cast hp.initDescriptor]
  · rw [widen, h.codeName, cast hp.codeName]
  · rw [widen, h.lineTableName, cast hp.lineTableName]
  · rw [widen, h.stackMapName, cast hp.stackMapName]
  · rw [widen, h.source, cast hp.sourceName]
  · rw [widen, h.source, cast hp.sourceFile]
  · show s.fields.toList.map FieldInfo.widen = _
    rw [h.fields]
    exact map_map_eq_self fun f hf => PlanField.widen_narrow hn (hp.fields f hf)
  · show s.methods.toList.map MethodInfo.widen = _
    rw [h.methods]
    refine map_map_eq_self fun m hm => ?_
    rw [PlanMethod.narrow, MethodInfo.widen, cast (hp.methods m hm).1, cast (hp.methods m hm).2]
  · show s.finals.toList.map _ = _
    rw [h.finals]
    exact map_map_eq_self fun x hx => by rw [cast (hp.finals x hx)]
  · funext k
    show s.methodRefs[k]?.map UInt16.toNat = _
    rw [h.methodRefs]
    exact map_toNat_map_ofNat hn hp.methodRefs k
  · funext k
    show s.fieldRefs[k]?.map UInt16.toNat = _
    rw [h.fieldRefs]
    exact map_toNat_map_ofNat hn hp.fieldRefs k

section
variable {options : Options} {o : Outline}

theorem layOut_ok_of_le (h : (Plan.layOut options o).size ≤ Pool.capacity) :
    ∃ s log, layOut options o = (.ok s, log) ∧ s.widen = Plan.layOut options o := by
  obtain ⟨s, log, hrun, hs⟩ := run_ok_of_le (realizes_phases options o) (follows_empty o) h #[]
  refine ⟨{ s with pool := s.pool.freeze }, log, ?_, ?_⟩
  · rw [layOut_eq, hrun]
  · exact hs.widen_eq (Plan.sound_layOut (Nat.le_refl _)) h

theorem layOut_full_of_lt (h : Pool.capacity < (Plan.layOut options o).size) :
    ∃ log, layOut options o = (.error .full, log) := by
  obtain ⟨log, hrun⟩ := run_full_of_lt (realizes_phases options o) (follows_empty o) h #[]
  exact ⟨log, by rw [layOut_eq, hrun]⟩

end

/-! ## Building -/

section
variable {options : Options} {c : ClassDecl}

theorem build_ok_of_le (h : c.check = none)
    (hle : (Plan.layOut options.effective c.outline).size ≤ Pool.capacity) :
    ∃ s, (build options c).1 = .ok s ∧ s.widen = Plan.layOut options.effective c.outline := by
  obtain ⟨s, log, hlay, hs⟩ := layOut_ok_of_le hle
  refine ⟨s, ?_, hs⟩
  rw [build_of_check options h, hlay]
  rfl

theorem build_full_of_lt (h : c.check = none)
    (hlt : Pool.capacity < (Plan.layOut options.effective c.outline).size) :
    (build options c).1 = .error Pool.Refusal.full.failure := by
  obtain ⟨log, hlay⟩ := layOut_full_of_lt hlt
  rw [build_of_check options h, hlay]
  rfl

end

theorem Laid.toNat_counts {options : Options} {o : Outline} {d : Progress} {s : Skeleton}
    (h : s.Laid options o d) :
    s.pool.count.toNat = s.pool.entries.size + 1 ∧
      (UInt16.ofNat s.fields.size).toNat = s.fields.size ∧
      (UInt16.ofNat s.methods.size).toNat = s.methods.size := by
  have hsize := h.built.size_le
  have hcount := h.length_names_le
  rw [Skeleton.names, List.length_append, List.length_map, List.length_map, Array.length_toList,
    Array.length_toList] at hcount
  rw [Pool.capacity] at hsize
  simp only [Pool.count, UInt16.toNat_ofNat']
  exact ⟨Nat.mod_eq_of_lt (by omega), Nat.mod_eq_of_lt (by omega), Nat.mod_eq_of_lt (by omega)⟩

/-- A class is built if and only if its plan fits into a pool. What is built is the
plan, number for number, and there is no failure but that of a full pool. -/
theorem build_iff_plan_fits (options : Options) (c : ClassDecl) (h : c.check = none) :
    ((∃ s, (build options c).1 = .ok s) ↔
      (Plan.layOut options.effective c.outline).entries.length ≤ 65534) ∧
    (∀ s, (build options c).1 = .ok s →
      s.widen = Plan.layOut options.effective c.outline ∧
      s.pool.count.toNat = (Plan.layOut options.effective c.outline).entries.length + 1 ∧
      (UInt16.ofNat s.fields.size).toNat = (Plan.layOut options.effective c.outline).fields.length ∧
      (UInt16.ofNat s.methods.size).toNat = (Plan.layOut options.effective c.outline).methods.length) ∧
    (65534 < (Plan.layOut options.effective c.outline).entries.length →
      (build options c).1 = .error (.diagnosed
        { code := "E0903", message := "constant pool exceeds 65534 entries" } none)) := by
  have hfits : ∀ s, (build options c).1 = .ok s →
      (Plan.layOut options.effective c.outline).size ≤ Pool.capacity := by
    intro s hs
    refine Nat.le_of_not_lt fun hlt => ?_
    rw [build_full_of_lt h hlt] at hs
    cases hs
  refine ⟨⟨fun ⟨s, hs⟩ => hfits s hs, fun hle => ?_⟩, fun s hs => ?_, build_full_of_lt h⟩
  · obtain ⟨s, hs, -⟩ := build_ok_of_le h hle
    exact ⟨s, hs⟩
  · obtain ⟨t, ht, hwiden⟩ := build_ok_of_le h (hfits s hs)
    cases hs.symm.trans ht
    obtain ⟨_, _, _, _, hlaid, _⟩ := laid_of_build hs
    obtain ⟨hpool, hfields, hmethods⟩ := hlaid.toNat_counts
    rw [← hwiden, hpool, hfields, hmethods]
    simp [widen]

theorem build_iff_plan_fits_sample :
    ClassDecl.sample.check = none ∧
      ∃ s, (build {} ClassDecl.sample).1 = .ok s ∧ s.widen = Plan.layOut Options.usual ClassDecl.sample.outline := by
  obtain ⟨hiff, hok, -⟩ := build_iff_plan_fits {} ClassDecl.sample rfl
  obtain ⟨s, hs⟩ := hiff.mpr (by decide +kernel)
  exact ⟨rfl, s, hs, (hok s hs).1⟩

end Skeleton

end ClassForge
