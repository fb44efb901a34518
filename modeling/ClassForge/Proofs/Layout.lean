import ClassForge.Proofs.Pool
import ClassForge.Skeleton

/-!
# Steps of a layout

What each step of laying out a skeleton leaves behind when it succeeds. Entries
are written with the numbers of entries that come later, so a step is described
once it is complete: `Pool.Grows` says which entries it added, and every number
in them leads to an entry of the right kind (`Entry.Leads`).
-/

namespace ClassForge

/-! ## Entries in their pool -/

namespace Entry

def Leads (p : Pool) : Entry → Prop
  | utf8 _ => True
  | integer _ => True
  | classRef n => ∃ t, p.get? n = some (.utf8 t)
  | nameAndType n d => (∃ t, p.get? n = some (.utf8 t)) ∧ ∃ t, p.get? d = some (.utf8 t)
  | fieldref o m => (∃ n, p.get? o = some (.classRef n)) ∧ ∃ n d, p.get? m = some (.nameAndType n d)
  | methodref o m => (∃ n, p.get? o = some (.classRef n)) ∧ ∃ n d, p.get? m = some (.nameAndType n d)
  | vacant => False

def OwnedBy (c : UInt16) : Entry → Prop
  | fieldref o _ => o = c
  | methodref o _ => o = c
  | _ => True

theorem Leads.mono {p q : Pool} (h : p.Keeps q) {e : Entry} (he : e.Leads p) : e.Leads q := by
  cases e with
  | utf8 _ => trivial
  | integer _ => trivial
  | classRef n =>
    obtain ⟨t, ht⟩ := he
    exact ⟨t, h _ _ ht⟩
  | nameAndType n d =>
    obtain ⟨⟨t, ht⟩, u, hu⟩ := he
    exact ⟨⟨t, h _ _ ht⟩, u, h _ _ hu⟩
  | fieldref o m =>
    obtain ⟨⟨n, hn⟩, a, b, hm⟩ := he
    exact ⟨⟨n, h _ _ hn⟩, a, b, h _ _ hm⟩
  | methodref o m =>
    obtain ⟨⟨n, hn⟩, a, b, hm⟩ := he
    exact ⟨⟨n, h _ _ hn⟩, a, b, h _ _ hm⟩
  | vacant => exact he

theorem Leads.ne_vacant {p : Pool} {e : Entry} (he : e.Leads p) : e ≠ .vacant := by
  rintro rfl
  exact he

end Entry

namespace Pool

/-- The number `i` leads to the member `n` of type `d` of class `c`, by an entry of
kind `kind`. -/
structure Refers (p : Pool) (kind : UInt16 → UInt16 → Entry) (i : UInt16) (c n d : Text) : Prop where
  entry : ∃ o m, p.get? i = some (kind o m)
  member : p.memberRef i = .ok (c, n, d)

theorem Keeps.refers {p q : Pool} (h : p.Keeps q) {kind : UInt16 → UInt16 → Entry} {i : UInt16}
    {c n d : Text} (hp : p.Refers kind i c n d) : q.Refers kind i c n d := by
  obtain ⟨o, m, he⟩ := hp.entry
  exact ⟨⟨o, m, h _ _ he⟩, h.memberRef hp.member⟩

/-- `q` is `p` with the entries `es`, for which there was room. -/
structure Grows (p : Pool) (es : List Entry) (q : Pool) : Prop where
  unfrozen : p.frozen = false
  room : p.entries.size + es.length ≤ capacity
  eq : q = p.extend es

theorem Grows.keeps {p q : Pool} {es : List Entry} (h : p.Grows es q) : p.Keeps q := by
  rw [h.eq]; exact keeps_extend p es

theorem grows_push {p : Pool} {e : Entry} (hf : p.frozen = false) (hs : p.entries.size < capacity) :
    p.Grows [e] (p.push e) := ⟨hf, hs, rfl⟩

theorem Grows.trans {p q r : Pool} {a b : List Entry} (h : p.Grows a q) (h' : q.Grows b r) :
    p.Grows (a ++ b) r := by
  obtain ⟨hf, hs, rfl⟩ := h
  obtain ⟨_, hs', rfl⟩ := h'
  refine ⟨hf, ?_, (extend_append p a b).symm⟩
  rw [size_extend] at hs'
  rw [List.length_append]; omega

theorem Grows.size_eq {p q : Pool} {es : List Entry} (h : p.Grows es q) :
    q.entries.size = p.entries.size + es.length := by
  rw [h.eq, size_extend]

theorem Grows.get?_next {p q : Pool} {e : Entry} {es : List Entry} (h : p.Grows (e :: es) q) :
    q.get? p.next = some e := by
  have hs := h.room
  rw [List.length_cons] at hs
  rw [h.eq, @get?_extend_new p (e :: es) p.next 0 (toNat_next (by omega))]
  rfl

end Pool

/-! ## Successful steps -/

namespace Skeleton

namespace Build

/-- What a step makes of a skeleton whose pool has refused nothing so far. -/
def outcome {α : Type} (b : Build α) (s : Skeleton) : Except Pool.Refusal (α × Skeleton) :=
  match b.step ⟨s, none⟩ with
  | (x, ⟨t, none⟩) => .ok (x, t)
  | (_, ⟨_, some r⟩) => .error r

instance {α : Type} : CoeFun (Build α) fun _ => Skeleton → Except Pool.Refusal (α × Skeleton) := ⟨outcome⟩

variable {α β : Type} {s t : Skeleton}

theorem bind_step (b : Build α) (f : α → Build β) (a : Attempt) :
    (b >>= f).step a = (f (b.step a).1).step (b.step a).2 := rfl

/-- Nothing counts of what is done after a refusal. -/
theorem bind_apply (b : Build α) (f : α → Build β) (s : Skeleton) :
    (b >>= f) s = match b s with
      | .ok (x, t) => f x t
      | .error r => .error r := by
  unfold outcome
  rw [bind_step]
  rcases b.step ⟨s, none⟩ with ⟨x, t, _ | r⟩
  · rfl
  · have hr := (f x).refused ⟨t, some r⟩ r rfl
    rcases hf : (f x).step ⟨t, some r⟩ with ⟨y, u, refusal⟩
    rw [hf] at hr
    cases hr
    rfl

theorem bind_ok {b : Build α} {f : α → Build β} {y : β} :
    (b >>= f) s = .ok (y, t) ↔ ∃ x r, b s = .ok (x, r) ∧ f x r = .ok (y, t) := by
  rw [bind_apply]
  cases b s with
  | error e => simp
  | ok x =>
    obtain ⟨x, r⟩ := x
    constructor
    · exact fun h => ⟨x, r, rfl, h⟩
    · rintro ⟨_, _, ⟨rfl, rfl⟩, h⟩
      exact h

theorem pure_ok {x y : α} : (pure x : Build α) s = .ok (y, t) ↔ x = y ∧ s = t := by
  show Except.ok (x, s) = Except.ok (y, t) ↔ _
  simp only [Except.ok.injEq, Prod.mk.injEq]

theorem change_apply (f : Skeleton → Skeleton) (s : Skeleton) : change f s = .ok ((), f s) := rfl

theorem see_apply (f : Skeleton → α) (s : Skeleton) : see f s = .ok (f s, s) := rfl

theorem change_ok {f : Skeleton → Skeleton} {u : Unit} : change f s = .ok (u, t) ↔ f s = t := by
  simp only [change_apply, Except.ok.injEq, Prod.mk.injEq, true_and]

theorem see_ok {f : Skeleton → α} {x : α} : see f s = .ok (x, t) ↔ f s = x ∧ s = t := by
  simp only [see_apply, Except.ok.injEq, Prod.mk.injEq]

theorem next_ok {i : UInt16} : next s = .ok (i, t) ↔ s.pool.next = i ∧ s = t := see_ok

theorem add_apply (e : Entry) (s : Skeleton) :
    add e s = (s.pool.add e).map fun added => (added.1, { s with pool := added.2 }) := by
  unfold outcome add Attempt.add
  cases hadd : s.pool.add e <;> simp [hadd, Except.map]

theorem add_ok {e : Entry} {i : UInt16} (h : add e s = .ok (i, t)) :
    i = s.pool.next ∧ s.pool.Grows [e] t.pool ∧ t = { s with pool := s.pool.push e } := by
  rw [add_apply] at h
  cases hadd : s.pool.add e with
  | error r => rw [hadd] at h; cases h
  | ok x =>
    obtain ⟨j, q⟩ := x
    rw [hadd] at h
    obtain ⟨hf, hs, rfl, rfl⟩ := Pool.add_eq_ok.mp hadd
    cases h
    exact ⟨rfl, Pool.grows_push hf hs, rfl⟩

theorem named_ok {r : Skeleton} {n : Text} {d i j : UInt16}
    (h : add (.nameAndType (s.pool.next + 1) d) s = .ok (j, r)) (h' : text n r = .ok (i, t)) :
    i = s.pool.next + 1 ∧ s.pool.Grows [.nameAndType i d, .utf8 n] t.pool ∧
      t = { s with pool := t.pool } ∧ t.pool.get? i = some (.utf8 n) ∧
      s.pool.entries.size < i.toNat := by
  obtain ⟨-, g₁, e₁⟩ := add_ok h
  obtain ⟨hi, g₂, e₂⟩ := add_ok h'
  have hi' : i = s.pool.next + 1 := by rw [hi, e₁]; exact Pool.next_push _ _
  rw [← hi'] at g₁
  refine ⟨hi', g₁.trans g₂, ?_, ?_, ?_⟩
  · rw [e₂, e₁]
  · rw [hi]; exact g₂.get?_next
  · have hroom := g₂.room
    have hsize := g₁.size_eq
    simp only [List.length_singleton] at hroom hsize
    rw [hi, Pool.toNat_next (by omega)]
    omega

/-- A name with its descriptor: the two texts are where the entry says, and the
text of the name is new. -/
theorem nameAndType_ok (hp : s.pool.Built) {n d : Text} {i j : UInt16}
    (h : nameAndType n d s = .ok ((i, j), t)) :
    ∃ es, s.pool.Grows (.nameAndType i j :: es) t.pool ∧ t = { s with pool := t.pool } ∧
      t.pool.get? i = some (.utf8 n) ∧ t.pool.get? j = some (.utf8 d) ∧
      s.pool.entries.size < i.toNat ∧ ∀ e ∈ es, ∃ x, e = .utf8 x := by
  simp only [nameAndType, bind_ok, next_ok, see_ok] at h
  obtain ⟨here, _, ⟨rfl, rfl⟩, found, _, ⟨rfl, rfl⟩, h⟩ := h
  split at h
  · -- the descriptor is new and comes right behind the name
    simp only [bind_ok, pure_ok] at h
    obtain ⟨_, s₁, h₁, _, s₂, h₂, _, s₃, h₃, hij, rfl⟩ := h
    cases hij
    obtain ⟨hi, g, e, hn, hlt⟩ := named_ok h₁ h₂
    obtain ⟨hj, g', e'⟩ := add_ok h₃
    have hj' : j = s.pool.next + 2 := by
      rw [hj, g.eq]
      show (((s.pool.push _).push _)).next = _
      rw [Pool.next_push, Pool.next_push, UInt16.add_assoc]
      rfl
    rw [← hj'] at g
    refine ⟨[.utf8 n, .utf8 d], g.trans g', ?_, g'.keeps _ _ hn, ?_, hlt, ?_⟩
    · rw [e', e]
    · rw [hj]; exact g'.get?_next
    · intro e he
      simp only [List.mem_cons, List.not_mem_nil, or_false] at he
      rcases he with rfl | rfl <;> exact ⟨_, rfl⟩
  · rename_i hfound
    simp only [bind_ok, pure_ok] at h
    obtain ⟨_, s₁, h₁, _, s₂, h₂, hij, rfl⟩ := h
    cases hij
    obtain ⟨hi, g, e, hn, hlt⟩ := named_ok h₁ h₂
    refine ⟨_, g, e, hn, g.keeps _ _ (hp.get?_find hfound), hlt, ?_⟩
    intro e he
    exact ⟨_, List.mem_singleton.mp he⟩

/-- A reference to a member of the class `c`: its number leads to that member. -/
theorem reference_ok (hp : s.pool.Built) {kind : UInt16 → UInt16 → Entry}
    (hk : kind = .fieldref ∨ kind = .methodref) {c n d : Text}
    (hc : s.pool.className s.thisClass = .ok c) {r i j : UInt16}
    (h : reference kind n d s = .ok ((r, i, j), t)) :
    ∃ es, s.pool.Grows es t.pool ∧ t = { s with pool := t.pool } ∧
      (∀ e ∈ es, e.Leads t.pool ∧ e.OwnedBy s.thisClass) ∧
      t.pool.Refers kind r c n d ∧
      t.pool.get? i = some (.utf8 n) ∧ t.pool.get? j = some (.utf8 d) ∧
      s.pool.entries.size < i.toNat := by
  simp only [reference, bind_ok, next_ok, see_ok, pure_ok] at h
  obtain ⟨_, _, ⟨rfl, rfl⟩, _, _, ⟨rfl, rfl⟩, _, s₁, h₁, ⟨i, j⟩, t, h₂, hij, rfl⟩ := h
  cases hij
  obtain ⟨-, g₁, e₁⟩ := add_ok h₁
  have hv : kind s.thisClass (s.pool.next + 1) ≠ .vacant := by
    rcases hk with rfl | rfl <;> exact Entry.noConfusion
  have hp₁ : s₁.pool.Built := by
    rw [g₁.eq]
    exact hp.extend g₁.unfrozen g₁.room fun e he => by rw [List.mem_singleton.mp he]; exact hv
  obtain ⟨es, g₂, e₂, hi, hj, hlt, hes⟩ := nameAndType_ok hp₁ h₂
  have hnext : s₁.pool.next = s.pool.next + 1 := by rw [g₁.eq]; exact Pool.next_push _ _
  have hnat : t.pool.get? (s.pool.next + 1) = some (.nameAndType i j) := by
    rw [← hnext]; exact g₂.get?_next
  have hthis := (g₁.trans g₂).keeps.className hc
  obtain ⟨cn, hcn, -⟩ := Pool.className_eq_ok.mp hthis
  have href := g₂.keeps _ _ g₁.get?_next
  refine ⟨_, g₁.trans g₂, by rw [e₂, e₁], ?_, ?_, hi, hj, ?_⟩
  · intro e he
    rcases List.mem_cons.mp he with rfl | he
    · rcases hk with rfl | rfl <;> exact ⟨⟨⟨cn, hcn⟩, i, j, hnat⟩, rfl⟩
    · rcases List.mem_cons.mp he with rfl | he
      · exact ⟨⟨⟨n, hi⟩, d, hj⟩, trivial⟩
      · obtain ⟨x, rfl⟩ := hes e he
        exact ⟨trivial, trivial⟩
  · refine ⟨⟨_, _, href⟩, Pool.memberRef_eq_ok.mpr ⟨s.thisClass, s.pool.next + 1, ?_, hthis,
      Pool.nameAndType_eq_ok.mpr ⟨i, j, hnat, hi, hj⟩⟩⟩
    rcases hk with rfl | rfl
    · exact .inl href
    · exact .inr href
  · have hsize := g₁.size_eq
    rw [List.length_singleton] at hsize
    show s.pool.entries.size < i.toNat
    omega

theorem each_cons (step : α → Build Unit) (x : α) (xs : List α) :
    each step (x :: xs) = (step x >>= fun _ => each step xs) := rfl

theorem each_cons_ok {step : α → Build Unit} {x : α} {xs : List α} {u : Unit} :
    each step (x :: xs) s = .ok (u, t) ↔ ∃ r, step x s = .ok ((), r) ∧ each step xs r = .ok (u, t) := by
  rw [each_cons, bind_ok]
  exact ⟨fun ⟨(), r, h⟩ => ⟨r, h⟩, fun ⟨r, h⟩ => ⟨(), r, h⟩⟩

/-- What holds before a loop and is kept in each round holds behind it. -/
theorem each_induct {step : α → Build Unit} {P : List α → Skeleton → Prop}
    (hstep : ∀ done x s t, P done s → step x s = .ok ((), t) → P (done ++ [x]) t) {xs : List α}
    (hp : P [] s) (h : each step xs s = .ok ((), t)) : P xs t := by
  have from_ : ∀ (xs done : List α) {s : Skeleton}, P done s → each step xs s = .ok ((), t) →
      P (done ++ xs) t := by
    intro xs
    induction xs with
    | nil =>
      intro done s hp h
      cases h
      rwa [List.append_nil]
    | cons x xs ih =>
      intro done s hp h
      obtain ⟨r, hx, h⟩ := each_cons_ok.mp h
      have := ih (done ++ [x]) (hstep done x s r hp hx) h
      rwa [List.append_assoc] at this
  exact from_ xs [] hp h

/-! ## Runs -/

def outcomes (phases : List (Text × Build Unit)) (s : Skeleton) (log : Array LogRecord) :
    Except Pool.Refusal Skeleton × Array LogRecord :=
  ((run phases ⟨s, none⟩ log).1.result, (run phases ⟨s, none⟩ log).2)

theorem outcomes_cons (name : Text) (phase : Build Unit) (rest : List (Text × Build Unit)) (s : Skeleton)
    (log : Array LogRecord) :
    outcomes ((name, phase) :: rest) s log = match phase s with
      | .ok (_, t) => outcomes rest t (log.push (.phaseDone name t.pool.size))
      | .error r => (.error r, log) := by
  unfold outcomes outcome
  simp only [run]
  rcases phase.step ⟨s, none⟩ with ⟨_, t, _ | r⟩ <;> rfl

/-- A run of phases succeeds when each does. -/
theorem outcomes_cons_ok {name : Text} {phase : Build Unit} {rest : List (Text × Build Unit)}
    {log log' : Array LogRecord} (h : outcomes ((name, phase) :: rest) s log = (.ok t, log')) :
    ∃ r log, phase s = .ok ((), r) ∧ outcomes rest r log = (.ok t, log') := by
  rw [outcomes_cons] at h
  cases hp : phase s with
  | error e => rw [hp] at h; cases h
  | ok r =>
    obtain ⟨⟨⟩, r⟩ := r
    rw [hp] at h
    exact ⟨r, _, rfl, h⟩

end Build

/-- A builder goes by the outcomes of the phases. -/
theorem layOut_eq (options : Options) (o : Outline) :
    layOut options o =
      match Build.outcomes (Build.phases options o) { className := o.name, classPos := o.pos } #[] with
      | (.ok s, log) => (.ok { s with pool := s.pool.freeze }, log)
      | failed => failed := by
  unfold layOut PoolBuilder.layOut PoolBuilder.begin Build.outcomes
  simp only
  rcases Build.run (Build.phases options o) ⟨{ className := o.name, classPos := o.pos }, none⟩ #[]
    with ⟨⟨s, _ | r⟩, log⟩ <;> rfl

/-- The first phase sets the numbers of the constructor's texts before any other looks
at them, so it does not matter which ones a run starts with. -/
theorem run_phases_start (options : Options) (o : Outline) (initName initDescriptor : UInt16) :
    Build.run (Build.phases options o)
        ⟨{ className := o.name, classPos := o.pos, initName, initDescriptor }, none⟩ #[] =
      Build.run (Build.phases options o) ⟨{ className := o.name, classPos := o.pos }, none⟩ #[] := by
  have hhead : (Build.head options).step
      ⟨{ className := o.name, classPos := o.pos, initName, initDescriptor }, none⟩ =
        (Build.head options).step ⟨{ className := o.name, classPos := o.pos }, none⟩ := rfl
  simp only [Build.phases, Build.run, hhead]

end Skeleton

/-- A builder makes of a class what a new one makes of it. -/
theorem PoolBuilder.build_eq (b : PoolBuilder) (options : Options) (c : ClassDecl) :
    (b.build options c).1 = Skeleton.build options c := by
  have hstart := Skeleton.run_phases_start options.effective c.outline
    b.attempt.skeleton.initName b.attempt.skeleton.initDescriptor
  unfold Skeleton.build PoolBuilder.build
  cases c.check with
  | some f => rfl
  | none =>
    simp only [PoolBuilder.layOut, PoolBuilder.begin, hstart]

namespace Skeleton

theorem build_of_breach (options : Options) {c : ClassDecl} {f : Failure} (h : c.check = some f) :
    build options c = (.error f, #[]) := by
  simp only [build, PoolBuilder.build, h]

theorem build_of_check (options : Options) {c : ClassDecl} (h : c.check = none) :
    build options c =
      ((layOut options.effective c.outline).1.mapError Pool.Refusal.failure,
        (layOut options.effective c.outline).2) := by
  unfold build PoolBuilder.build
  rw [h]
  rfl

end Skeleton

end ClassForge
