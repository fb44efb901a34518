import ClassForge.Proofs.Plan
import ClassForge.Proofs.Resolves

/-!
# Shared descriptors

A descriptor is looked up in the pool and added only if no text reads like it, so
members of one type share one number. The look-up comes before the name of the
member is added, though: a member that is called like its own descriptor, where no
text read so before, has the descriptor a second time right behind its name.
-/

namespace ClassForge

namespace Pool

/-! ## The first text -/

def First (p : Pool) (t : Text) (i : UInt16) : Prop :=
  p.get? i = some (.utf8 t) ∧ ∀ j, p.get? j = some (.utf8 t) → i ≤ j

section
variable {p : Pool} {t : Text}

theorem find_push_of_ne (e : Entry) (h : p.find t ≠ 0) : (p.push e).find t = p.find t := by
  unfold find at *
  cases hi : p.first[t]? with
  | none =>
    rw [hi] at h
    exact absurd rfl h
  | some i => rw [getElem?_first_push, hi, Option.some_or]

theorem find_extend_of_ne (h : p.find t ≠ 0) (es : List Entry) : (p.extend es).find t = p.find t := by
  induction es generalizing p with
  | nil => rfl
  | cons e es ih =>
    have hpush := find_push_of_ne e h
    rw [extend_cons, ih (by rwa [hpush]), hpush]

theorem Built.first_eq_none (h : p.Built) (hf : p.find t = 0) : p.first[t]? = none := by
  unfold find at hf
  cases hi : p.first[t]? with
  | none => rfl
  | some i =>
    have hpos := (toNat_of_get? (h.get?_first hi)).1
    rw [hi, Option.getD_some] at hf
    rw [hf] at hpos
    exact absurd hpos (by decide)

theorem Built.find_push_text (h : p.Built) (hf : p.find t = 0) : (p.push (.utf8 t)).find t = p.next := by
  unfold find
  rw [getElem?_first_push, h.first_eq_none hf, Option.none_or, if_pos rfl]
  rfl

theorem Built.find_push_other (h : p.Built) (hf : p.find t = 0) {e : Entry} (he : e ≠ .utf8 t) :
    (p.push e).find t = 0 := by
  unfold find
  rw [getElem?_first_push, h.first_eq_none hf, Option.none_or, if_neg he]
  rfl

/-- What is found is the first, and what is in the pool is found. -/
theorem Built.find_le (h : p.Built) : ∀ {j : UInt16}, p.get? j = some (.utf8 t) →
    p.find t ≠ 0 ∧ p.find t ≤ j := by
  induction h with
  | empty =>
    intro j hj
    have := toNat_of_get? hj
    simp at this
    omega
  | freeze _ ih => exact ih
  | @add p q e i hb _ hadd ih =>
    obtain ⟨_, hs, -, rfl⟩ := add_eq_ok.mp hadd
    have hnext := toNat_next hs
    have hne : p.next ≠ 0 := by
      intro h0
      rw [h0] at hnext
      exact absurd hnext (by simp)
    intro j hj
    by_cases hlt : j.toNat ≤ p.entries.size
    · -- an entry that was there before
      have hpos := (toNat_of_get? hj).1
      have hold : p.get? j = some (.utf8 t) := by
        rw [get?_eq] at hj ⊢
        rwa [entries_push, Array.toList_push,
          List.getElem?_append_left (by rw [Array.length_toList]; omega)] at hj
      obtain ⟨hfound, hle⟩ := ih hold
      rw [find_push_of_ne e hfound]
      exact ⟨hfound, hle⟩
    · have hj' : j.toNat = p.entries.size + 1 := by
        have := (toNat_of_get? hj).2
        rw [entries_push, Array.size_push] at this
        omega
      have he : e = .utf8 t := by
        have hget := @get?_extend_new p [e] j 0 hj'
        rw [extend_cons, extend_nil, hj] at hget
        exact (Option.some.inj hget).symm
      by_cases hf : p.find t = 0
      · rw [he, hb.find_push_text hf]
        exact ⟨hne, UInt16.le_iff_toNat_le.mpr (by omega)⟩
      · have hfound := (toNat_of_get? (hb.get?_find hf)).2
        rw [find_push_of_ne e hf]
        exact ⟨hf, UInt16.le_iff_toNat_le.mpr (by omega)⟩

theorem Built.first_iff (h : p.Built) {i : UInt16} (hi : i ≠ 0) : p.First t i ↔ p.find t = i := by
  constructor
  · rintro ⟨hget, hleast⟩
    obtain ⟨hne, hle⟩ := h.find_le hget
    exact UInt16.le_antisymm hle (hleast _ (h.get?_find hne))
  · rintro rfl
    exact ⟨h.get?_find hi, fun j hj => (h.find_le hj).2⟩

end

theorem Grows.get?_cases {p q : Pool} {es : List Entry} (h : p.Grows es q) {i : UInt16} {e : Entry}
    (hi : q.get? i = some e) : p.get? i = some e ∨ e ∈ es := by
  have hpos := (toNat_of_get? hi).1
  rw [h.eq, get?_eq, if_neg (by omega), toList_extend] at hi
  by_cases hlt : i.toNat - 1 < p.entries.toList.length
  · rw [List.getElem?_append_left hlt] at hi
    left
    rw [get?_eq, if_neg (by omega), hi]
  · rw [List.getElem?_append_right (by omega)] at hi
    exact .inr (List.mem_of_getElem? hi)

theorem ne_zero_of_get? {p : Pool} {i : UInt16} {e : Entry} (h : p.get? i = some e) : i ≠ 0 := by
  rintro rfl
  cases h

/-! ## Names with their descriptors -/

/-- The descriptor of a name has the number that is found for its text. There are two
exceptions: the name itself is what is found, and the descriptor stands right behind
it; or the constructor's descriptor is also the name of the super class. -/
def Shares (options : Options) (p : Pool) (name descriptor : UInt16) : Prop :=
  ∃ t, p.get? descriptor = some (.utf8 t) ∧
    (p.find t = descriptor ∨
      (p.find t = name ∧ p.get? name = some (.utf8 t) ∧ descriptor = name + 1) ∨
      (name = 5 ∧ descriptor = 6 ∧ t = Skeleton.constructorDescriptor ∧ options.superClass = t))

section
variable {options : Options} {p q : Pool} {es : List Entry} {t : Text}

theorem Grows.shares (h : p.Grows es q) {n d : UInt16} (hp : p.Shares options n d) :
    q.Shares options n d := by
  obtain ⟨t, ht, hd⟩ := hp
  have hfind : p.find t ≠ 0 → q.find t = p.find t := by
    intro hne
    rw [h.eq, find_extend_of_ne hne]
  refine ⟨t, h.keeps _ _ ht, ?_⟩
  rcases hd with hd | ⟨hd, hn, hnext⟩ | hd
  · exact .inl ((hfind (hd ▸ ne_zero_of_get? ht)).trans hd)
  · exact .inr (.inl ⟨(hfind (hd ▸ ne_zero_of_get? hn)).trans hd, h.keeps _ _ hn, hnext⟩)
  · exact .inr (.inr hd)

theorem Grows.shares_found (h : p.Grows es q) (hb : p.Built) (hf : p.find t ≠ 0) (n : UInt16) :
    q.Shares options n (p.find t) := by
  refine ⟨t, h.keeps _ _ (hb.get?_find hf), .inl ?_⟩
  rw [h.eq, find_extend_of_ne hf]

theorem Grows.shares_behind {name : Text} (h : p.Grows [.utf8 name, .utf8 t] q) (hb : p.Built)
    (hf : p.find t = 0) : q.Shares options p.next (p.next + 1) := by
  have hs : p.entries.size + 2 ≤ capacity := h.room
  obtain rfl : q = (p.push (.utf8 name)).push (.utf8 t) := h.eq
  have hn : (p.push (.utf8 name)).next = p.next + 1 := next_push p _
  have hsize : (p.push (.utf8 name)).entries.size = p.entries.size + 1 := Array.size_push ..
  have hname : ((p.push (.utf8 name)).push (.utf8 t)).get? p.next = some (.utf8 name) := h.get?_next
  have htext : ((p.push (.utf8 name)).push (.utf8 t)).get? (p.next + 1) = some (.utf8 t) := by
    rw [← hn]
    exact @get?_extend_new (p.push (.utf8 name)) [.utf8 t] _ 0 (toNat_next (by omega))
  refine ⟨t, htext, ?_⟩
  by_cases ht : name = t
  · -- the name is what is found from now on
    subst ht
    have hfound : (p.push (.utf8 name)).find name = p.next := hb.find_push_text hf
    refine .inr (.inl ⟨?_, hname, rfl⟩)
    rw [find_push_of_ne _ (hfound ▸ ne_zero_of_get? hname), hfound]
  · have hadd : p.add (.utf8 name) = .ok (p.next, p.push (.utf8 name)) :=
      add_eq_ok.mpr ⟨h.unfrozen, by omega, rfl, rfl⟩
    have hbuilt : (p.push (.utf8 name)).Built := hb.add Entry.noConfusion hadd
    have hmissing : (p.push (.utf8 name)).find t = 0 := hb.find_push_other hf (by simp [ht])
    exact .inl (by rw [hbuilt.find_push_text hmissing, hn])

end

end Pool

namespace Skeleton

/-! ## Skeletons whose descriptors are shared -/

structure Dedups (options : Options) (s : Skeleton) : Prop where
  built : s.pool.Built
  entries : ∀ i n d, s.pool.get? i = some (.nameAndType n d) → s.pool.Shares options n d
  fields : ∀ f ∈ s.fields.toList, s.pool.Shares options f.name f.descriptor
  methods : ∀ m ∈ s.methods.toList, s.pool.Shares options m.name m.descriptor

section
open Build
variable {options : Options} {s t : Skeleton} {u : Unit}

theorem Dedups.grow (h : Dedups options s) {es : List Entry} {q : Pool} (hg : s.pool.Grows es q)
    (hv : ∀ e ∈ es, e ≠ .vacant) (hes : ∀ n d, .nameAndType n d ∈ es → q.Shares options n d) :
    Dedups options { s with pool := q } where
  built := by
    rw [hg.eq]
    exact h.built.extend hg.unfrozen hg.room hv
  entries := by
    intro i n d hi
    rcases hg.get?_cases hi with hi | hi
    · exact hg.shares (h.entries i n d hi)
    · exact hes n d hi
  fields := fun f hf => hg.shares (h.fields f hf)
  methods := fun m hm => hg.shares (h.methods m hm)

theorem Dedups.addField (h : Dedups options s) {n d : UInt16} (hn : s.pool.Shares options n d)
    (access : UInt16) : Dedups options { s with fields := s.fields.push ⟨access, n, d, none⟩ } :=
  { h with
    fields := by
      show ∀ f ∈ (s.fields.push _).toList, _
      rw [Array.toList_push]
      exact forall_mem_snoc h.fields hn }

theorem Dedups.addMethod (h : Dedups options s) {n d : UInt16} (hn : s.pool.Shares options n d)
    (access : UInt16) : Dedups options { s with methods := s.methods.push ⟨access, n, d, none⟩ } :=
  { h with
    methods := by
      show ∀ m ∈ (s.methods.push _).toList, _
      rw [Array.toList_push]
      exact forall_mem_snoc h.methods hn }

/-! ## Steps -/

theorem Dedups.add (h : Dedups options s) {e : Entry} {i : UInt16} (hv : e ≠ .vacant)
    (he : ∀ n d, e ≠ .nameAndType n d) (hs : Build.add e s = .ok (i, t)) :
    Dedups options t ∧ i = s.pool.next ∧ s.pool.Grows [e] t.pool := by
  obtain ⟨hi, hg, ht⟩ := add_ok hs
  have hpool : t.pool = s.pool.push e := by rw [ht]
  have hd := h.grow hg (fun x hx => List.mem_singleton.mp hx ▸ hv)
    (fun n d hx => absurd (List.mem_singleton.mp hx).symm (he n d))
  rw [hpool, ← ht] at hd
  exact ⟨hd, hi, hg⟩

theorem Dedups.text (h : Dedups options s) {x : Text} {i : UInt16} (hs : Build.text x s = .ok (i, t)) :
    Dedups options t ∧ i = s.pool.next ∧ s.pool.Grows [.utf8 x] t.pool :=
  h.add Entry.noConfusion (fun _ _ => Entry.noConfusion) hs

theorem shares_nameAndType (hb : s.pool.Built) {n x : Text} {i j : UInt16}
    (hs : Build.nameAndType n x s = .ok ((i, j), t)) : t.pool.Shares options i j := by
  simp only [Build.nameAndType, bind_ok, next_ok, see_ok] at hs
  obtain ⟨here, _, ⟨rfl, rfl⟩, found, _, ⟨rfl, rfl⟩, hs⟩ := hs
  split at hs
  · rename_i hf
    simp only [bind_ok, pure_ok] at hs
    obtain ⟨_, s₁, h₁, _, s₂, h₂, _, s₃, h₃, hij, rfl⟩ := hs
    cases hij
    obtain ⟨-, g₁, e₁⟩ := add_ok h₁
    obtain ⟨hi, g₂, e₂⟩ := add_ok h₂
    obtain ⟨hj, g₃, -⟩ := add_ok h₃
    have hb₁ : s₁.pool.Built := by
      rw [g₁.eq]
      exact hb.extend g₁.unfrozen g₁.room fun e he => by
        rw [List.mem_singleton.mp he]
        exact Entry.noConfusion
    have hf₁ : s₁.pool.find x = 0 := by
      rw [g₁.eq]
      exact hb.find_push_other hf Entry.noConfusion
    have hnext : s₂.pool.next = s₁.pool.next + 1 := by
      rw [g₂.eq]
      exact Pool.next_push _ _
    rw [hi, hj, hnext]
    exact (g₂.trans g₃).shares_behind hb₁ hf₁
  · rename_i hf
    simp only [bind_ok, pure_ok] at hs
    obtain ⟨_, s₁, h₁, _, s₂, h₂, hij, rfl⟩ := hs
    cases hij
    obtain ⟨-, g₁, -⟩ := add_ok h₁
    obtain ⟨-, g₂, -⟩ := add_ok h₂
    exact (g₁.trans g₂).shares_found hb hf i

theorem Dedups.reference (h : Dedups options s) {kind : UInt16 → UInt16 → Entry}
    (hk : kind = .fieldref ∨ kind = .methodref) {n x : Text} {r i j : UInt16}
    (hs : Build.reference kind n x s = .ok ((r, i, j), t)) :
    Dedups options t ∧ t.pool.Shares options i j := by
  simp only [Build.reference, bind_ok, next_ok, see_ok, pure_ok] at hs
  obtain ⟨_, _, ⟨rfl, rfl⟩, _, _, ⟨rfl, rfl⟩, _, s₁, h₁, ⟨i, j⟩, t, h₂, hij, rfl⟩ := hs
  cases hij
  obtain ⟨hd₁, -, -⟩ : Dedups options s₁ ∧ _ := by
    refine h.add ?_ ?_ h₁
    · rcases hk with rfl | rfl <;> exact Entry.noConfusion
    · rcases hk with rfl | rfl <;> exact fun _ _ => Entry.noConfusion
  have hshares : t.pool.Shares options i j := shares_nameAndType hd₁.built h₂
  obtain ⟨es, g, e, -, -, -, hes⟩ := nameAndType_ok hd₁.built h₂
  have hd := hd₁.grow g ?_ ?_
  · rw [← e] at hd
    exact ⟨hd, hshares⟩
  · intro y hy
    rcases List.mem_cons.mp hy with rfl | hy
    · exact Entry.noConfusion
    · obtain ⟨_, rfl⟩ := hes y hy
      exact Entry.noConfusion
  · intro a b hab
    rcases List.mem_cons.mp hab with hab | hab
    · cases hab
      exact hshares
    · obtain ⟨_, hx⟩ := hes _ hab
      cases hx

theorem Dedups.final (h : Dedups options s) {f : Final} (hs : Build.final f s = .ok (u, t)) :
    Dedups options t := by
  simp only [Build.final, Build.addField, bind_ok, change_ok] at hs
  obtain ⟨⟨r, i, j⟩, s₁, h₁, _, _, rfl, rfl⟩ := hs
  obtain ⟨hd, hij⟩ := h.reference (.inl rfl) h₁
  exact { hd.addField hij _ with }

theorem Dedups.referredMethod (h : Dedups options s) {m : Signature}
    (hs : Build.referredMethod m s = .ok (u, t)) : Dedups options t := by
  simp only [Build.referredMethod, Build.addMethod, bind_ok, change_ok] at hs
  obtain ⟨⟨r, i, j⟩, s₁, h₁, _, _, rfl, rfl⟩ := hs
  obtain ⟨hd, hij⟩ := h.reference (.inr rfl) h₁
  exact { hd.addMethod hij _ with }

theorem Dedups.referredGlobal (h : Dedups options s) {v : Text}
    (hs : Build.referredGlobal v s = .ok (u, t)) : Dedups options t := by
  simp only [Build.referredGlobal, Build.addField, bind_ok, change_ok] at hs
  obtain ⟨⟨r, i, j⟩, s₁, h₁, _, _, rfl, rfl⟩ := hs
  obtain ⟨hd, hij⟩ := h.reference (.inl rfl) h₁
  exact { hd.addField hij _ with }

theorem Dedups.constant (h : Dedups options s) {label : UInt16} {f : Final} {i : Nat}
    (hs : Build.constant label f i s = .ok (u, t)) : Dedups options t := by
  simp only [Build.constant, bind_ok, change_ok] at hs
  obtain ⟨j, s₁, h₁, rfl⟩ := hs
  obtain ⟨hd, -⟩ := h.add Entry.noConfusion (fun _ _ => Entry.noConfusion) h₁
  refine { hd with fields := ?_ }
  -- the constant leaves the name and the descriptor of its field alone
  show ∀ f ∈ (s₁.fields.modify _ _).toList, s₁.pool.Shares options f.name f.descriptor
  rw [Array.toList_modify]
  refine forall_mem_modify ?_ i hd.fields
  exact fun _ hx => hx

theorem Dedups.constants (h : Dedups options s) {fs : List Final}
    (hs : Build.constants fs s = .ok (u, t)) : Dedups options t := by
  unfold Build.constants at hs
  split at hs
  · obtain ⟨-, rfl⟩ := pure_ok.mp hs
    exact h
  · obtain ⟨label, s₁, h₁, hs⟩ := bind_ok.mp hs
    exact each_induct (P := fun _ s => Dedups options s) (fun _ _ _ _ hd => hd.constant) (h.text h₁).1 hs

/-- The one place where the name is added before the descriptor is looked up. -/
theorem Dedups.otherGlobal (h : Dedups options s) {v : Text} (hs : Build.otherGlobal v s = .ok (u, t)) :
    Dedups options t := by
  simp only [Build.otherGlobal, Build.sharedText, Build.addField, bind_ok, see_ok, change_ok] at hs
  obtain ⟨i, s₁, h₁, j, s₂, ⟨found, _, ⟨rfl, rfl⟩, h₂⟩, rfl⟩ := hs
  obtain ⟨hd₁, -⟩ := h.text h₁
  split at h₂
  · rename_i hf
    obtain ⟨hd₂, hj, g⟩ := hd₁.text h₂
    have hfound : s₂.pool.find Signature.intDescriptor = j := by
      rw [hj, g.eq]
      exact hd₁.built.find_push_text hf
    refine hd₂.addField ⟨_, ?_, .inl hfound⟩ _
    rw [hj]
    exact g.get?_next
  · rename_i hf
    obtain ⟨rfl, rfl⟩ := pure_ok.mp h₂
    exact hd₁.addField ⟨_, hd₁.built.get?_find hf, .inl rfl⟩ _

theorem Dedups.otherMethod (h : Dedups options s) {m : Signature}
    (hs : Build.otherMethod m s = .ok (u, t)) : Dedups options t := by
  simp only [Build.otherMethod, Build.addMethod, bind_ok, see_ok] at hs
  obtain ⟨found, _, ⟨rfl, rfl⟩, i, s₁, h₁, hs⟩ := hs
  obtain ⟨hd₁, hi, g₁⟩ := h.text h₁
  split at hs
  · rename_i hf
    obtain ⟨j, s₂, h₂, hs⟩ := bind_ok.mp hs
    obtain rfl := change_ok.mp hs
    obtain ⟨hd₂, hj, g₂⟩ := hd₁.text h₂
    have hnext : s₁.pool.next = s.pool.next + 1 := by
      rw [g₁.eq]
      exact Pool.next_push _ _
    refine hd₂.addMethod ?_ _
    rw [hi, hj, hnext]
    exact (g₁.trans g₂).shares_behind h.built hf
  · rename_i hf
    obtain ⟨j, s₂, h₂, hs⟩ := bind_ok.mp hs
    obtain ⟨rfl, rfl⟩ := pure_ok.mp h₂
    obtain rfl := change_ok.mp hs
    exact hd₁.addMethod (g₁.shares_found h.built hf i) _

theorem Dedups.codeHead (h : Dedups options s) (hs : Build.codeHead s = .ok (u, t)) :
    Dedups options t := by
  simp only [Build.codeHead, bind_ok, change_ok] at hs
  obtain ⟨i, s₁, h₁, j, s₂, h₂, k, s₃, h₃, rfl⟩ := hs
  obtain ⟨hd₁, -⟩ := h.text h₁
  obtain ⟨hd₂, -⟩ := hd₁.text h₂
  obtain ⟨hd₃, -⟩ := hd₂.text h₃
  exact { hd₃ with }

theorem Dedups.sourceFile (h : Dedups options s) (hs : Build.sourceFile options s = .ok (u, t)) :
    Dedups options t := by
  simp only [Build.sourceFile, bind_ok, see_ok, change_ok] at hs
  obtain ⟨i, s₁, h₁, _, _, ⟨rfl, rfl⟩, j, s₂, h₂, rfl⟩ := hs
  obtain ⟨hd₁, -⟩ := h.text h₁
  obtain ⟨hd₂, -⟩ := hd₁.text h₂
  exact { hd₂ with }

/-! ## All phases -/

/-- What each phase keeps, a run of phases keeps. -/
theorem Build.outcomes_induct {P : Skeleton → Prop} {phases : List (Text × Build Unit)}
    (hstep : ∀ x ∈ phases, ∀ s t, P s → x.2 s = .ok ((), t) → P t) {log log' : Array LogRecord}
    (hp : P s) (h : Build.outcomes phases s log = (.ok t, log')) : P t := by
  induction phases generalizing s log with
  | nil =>
    cases h
    exact hp
  | cons x phases ih =>
    rw [List.forall_mem_cons] at hstep
    obtain ⟨r, _, hx, h⟩ := outcomes_cons_ok h
    exact ih hstep.2 (hstep.1 s r hp hx) h

theorem Dedups.each {α : Type} {step : α → Build Unit}
    (hstep : ∀ x s t, Dedups options s → step x s = .ok ((), t) → Dedups options t) {xs : List α}
    (h : Dedups options s) (hs : Build.each step xs s = .ok ((), t)) : Dedups options t :=
  each_induct (P := fun _ s => Dedups options s) (fun _ x s t => hstep x s t) h hs

theorem dedups_opening (options : Options) (o : Outline) : Dedups options (opening options o) := by
  have hshares : (opening options o).pool.Shares options 5 6 := by
    refine ⟨constructorDescriptor, rfl, ?_⟩
    by_cases hs : options.superClass = constructorDescriptor
    · exact .inr (.inr ⟨rfl, rfl, rfl, hs⟩)
    · have hname : constructorName ≠ constructorDescriptor := by decide
      left
      simp [opening, Pool.ofList, Pool.find, Pool.getElem?_first_push, Pool.next, hs, hname]
  refine ⟨(laid_opening options o).built, ?_, ?_, ?_⟩
  · intro i n d hi
    have hmem := Pool.mem_of_get? hi
    simp only [opening, Pool.ofList, List.foldl_cons, List.foldl_nil, Pool.entries_push] at hmem
    simp at hmem
    obtain ⟨rfl, rfl⟩ := hmem
    exact hshares
  · intro f hf
    cases hf
  · intro m hm
    rw [List.mem_singleton.mp hm]
    exact hshares

theorem dedups_of_layOut {o : Outline} {log : Array LogRecord} (h : layOut options o = (.ok s, log)) :
    Dedups options s := by
  obtain ⟨r, _, _, hrun, rfl⟩ := outcomes_of_layOut h
  have hd : Dedups options r := by
    refine outcomes_induct ?_ (dedups_opening options o) hrun
    simp only [phases, List.drop_succ_cons, List.drop_zero, List.forall_mem_cons]
    refine ⟨?_, ?_, ?_, ?_, ?_, ?_, ?_, ?_, by simp⟩
    · exact fun s t hd => hd.each fun _ _ _ hd => hd.final
    · intro s t hd hs
      obtain rfl := change_ok.mp hs
      exact { hd with }
    · intro s t hd hs
      obtain ⟨_, s', h₁, h₂⟩ := bind_ok.mp hs
      exact (hd.each (fun _ _ _ hd => hd.referredMethod) h₁).each (fun _ _ _ hd => hd.referredGlobal) h₂
    · exact fun s t hd => hd.constants
    · exact fun s t hd => hd.each fun _ _ _ hd => hd.otherGlobal
    · exact fun s t hd => hd.codeHead
    · exact fun s t hd => hd.each fun _ _ _ hd => hd.otherMethod
    · exact fun s t hd => hd.sourceFile
  exact { hd with built := hd.built.freeze }

end

end Skeleton

/-- Descriptors are shared throughout the skeleton of a class, and what is found for a
text is its first entry. -/
theorem Skeleton.dedups_of_build {options : Options} {c : ClassDecl} {s : Skeleton}
    (h : (build options c).1 = .ok s) :
    Dedups options.effective s ∧ ∀ t i, i ≠ 0 → (s.pool.First t i ↔ s.pool.find t = i) := by
  obtain ⟨-, log, hlay⟩ := build_ok h
  have hd := dedups_of_layOut hlay
  exact ⟨hd, fun t i => hd.built.first_iff⟩

theorem Skeleton.dedups_of_build_sample :
    ∃ s, (Skeleton.build {} ClassDecl.sample).1 = .ok s ∧ Skeleton.Dedups Options.usual s ∧
      ∀ t i, i ≠ 0 → (s.pool.First t i ↔ s.pool.find t = i) := by
  have hs : ∃ s, (Skeleton.build {} ClassDecl.sample).1 = .ok s := ⟨_, rfl⟩
  obtain ⟨s, hs⟩ := hs
  exact ⟨s, hs, dedups_of_build hs⟩

def ClassDecl.selfTyped : ClassDecl where
  symbol := some { name := "K", kind := .classSym }
  finals := [some { name := "I", kind := .const, value := 1, hasValue := true },
    some { name := "n", kind := .const, value := 2, hasValue := true }]

/-- The two finals of one type have two descriptors, and that of the first is not the
first text of the pool that reads so. -/
theorem Skeleton.selfTyped_splits_descriptor :
    ∃ s, (Skeleton.build {} ClassDecl.selfTyped).1 = .ok s ∧
      s.fields.toList.map FieldInfo.descriptor = [12, 11] ∧
      s.pool.get? 11 = some (.utf8 "I") ∧ s.pool.get? 12 = some (.utf8 "I") ∧ s.pool.find "I" = 11 :=
  ⟨_, rfl, rfl, rfl, rfl, rfl⟩

end ClassForge
