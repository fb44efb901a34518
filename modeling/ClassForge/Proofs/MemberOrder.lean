import ClassForge.Proofs.CborRules
import ClassForge.Proofs.DocumentData

/-!
# Reading without regard to order

Each member of a record is read into a part of its own, so members with different
names may change places. Data whose members have been put in the order of their keys is
therefore read as what it was before.
-/

namespace ClassForge

namespace Datum

variable {α β γ : Type}

/-! ## Members that change places -/

/-- Members with different names may be read in either order. -/
def Commutes (step : α → Text → Datum → Option α) : Prop :=
  ∀ a k d k' d', k ≠ k' → (step a k d).bind (step · k' d') = (step a k' d').bind (step · k d)

theorem readMembers_cons (step : α → Text → Datum → Option α) (a : α) (m : Text × Datum)
    (ms : List (Text × Datum)) :
    readMembers step a (m :: ms) = (step a m.1 m.2).bind (readMembers step · ms) := by
  rw [readMembers]
  cases step a m.1 m.2 <;> rfl

theorem Commutes.readMembers_perm {step : α → Text → Datum → Option α} (h : Commutes step)
    {ms ns : List (Text × Datum)} (hp : ms.Perm ns) (hd : (ms.map Prod.fst).Nodup) (a : α) :
    readMembers step a ms = readMembers step a ns := by
  induction hp generalizing a with
  | nil => rfl
  | cons m _ ih =>
    rw [List.map_cons, List.nodup_cons] at hd
    simp only [readMembers_cons, ih hd.2]
  | swap m n ms =>
    simp only [List.map_cons, List.nodup_cons, List.mem_cons, not_or] at hd
    simp only [readMembers_cons, ← Option.bind_assoc]
    rw [h a n.1 n.2 m.1 m.2 hd.1.1]
  | trans hp _ ih₁ ih₂ => rw [ih₁ hd, ih₂ ((hp.map Prod.fst).nodup_iff.mp hd)]

def Independent (r s : α → Datum → Option α) : Prop :=
  ∀ a d d', (r a d).bind (s · d') = (s a d').bind (r · d)

def Beside (r : α → Datum → Option α) (step : α → Text → Datum → Option α) : Prop :=
  ∀ k, Independent r (step · k)

section
variable {r s : α → Datum → Option α} {step : α → Text → Datum → Option α} {key : Text}

theorem Beside.skip : Beside r fun a _ _ => some a := by
  intro k a d d'
  simp only [Option.bind_some, Option.bind_fun_some]

theorem Beside.ite (h : Independent r s) (hs : Beside r step) :
    Beside r fun a k d => if k = key then s a d else step a k d := by
  intro k
  by_cases hk : k = key
  · simp only [hk, if_true]
    exact h
  · simp only [hk, if_false]
    exact hs k

theorem Commutes.skip : Commutes fun (a : α) _ _ => some a := fun _ _ _ _ _ _ => rfl

theorem Commutes.ite (hs : Commutes step) (h : Beside r step) :
    Commutes fun a k d => if k = key then r a d else step a k d := by
  intro a k d k' d' hne
  by_cases hk : k = key
  · have hk' : k' ≠ key := fun hk' => hne (hk.trans hk'.symm)
    simp only [hk, hk', if_true, if_false]
    exact h k' a d d'
  · by_cases hk' : k' = key
    · simp only [hk, hk', if_true, if_false]
      exact (h k a d' d).symm
    · simp only [hk, hk', if_false]
      exact hs a k d k' d' hne

end

theorem bind_map_comm {x : Option β} {y : Option γ} {f : β → α} {g : γ → α} {X : α → Option β}
    {Y : α → Option γ} {F : α → β → α} {G : α → γ → α} (hY : ∀ b, Y (f b) = y)
    (hX : ∀ c, X (g c) = x) (hset : ∀ b c, G (f b) c = F (g c) b) :
    ((x.map f).bind fun a => (Y a).map (G a)) = (y.map g).bind fun a => (X a).map (F a) := by
  cases x with
  | none => cases y <;> simp [hX]
  | some b => cases y <;> simp [hX, hY, hset]

/-! ## Data in the order of its keys -/

theorem sorted_eq (d : Datum) :
    d.sorted = d ∨ (∃ items, d = .list items ∧ d.sorted = .list (items.map sorted)) ∨
      ∃ members ms, d = .record members ∧ d.sorted = .record ms := by
  cases d with
  | list items => exact .inr (.inl ⟨items, rfl, sorted_list items⟩)
  | record members =>
    obtain ⟨ms, -, hsorted⟩ := sorted_record members
    exact .inr (.inr ⟨members, ms, rfl, hsorted⟩)
  | null => exact .inl rfl
  | blank => exact .inl rfl
  | int => exact .inl rfl
  | text => exact .inl rfl
  | unfit => exact .inl rfl

section
variable (d : Datum)

theorem readText_sorted (current : Text) : readText current d.sorted = readText current d := by
  rcases d.sorted_eq with hd | ⟨items, rfl, hd⟩ | ⟨members, ms, rfl, hd⟩ <;> rw [hd] <;> rfl

theorem readInt64_sorted (current : Int64) : readInt64 current d.sorted = readInt64 current d := by
  rcases d.sorted_eq with hd | ⟨items, rfl, hd⟩ | ⟨members, ms, rfl, hd⟩ <;> rw [hd] <;> rfl

theorem readInt32_sorted (current : Int32) : readInt32 current d.sorted = readInt32 current d := by
  rcases d.sorted_eq with hd | ⟨items, rfl, hd⟩ | ⟨members, ms, rfl, hd⟩ <;> rw [hd] <;> rfl

theorem readInt32?_sorted (current : Option Int32) :
    readInt32? current d.sorted = readInt32? current d := by
  rcases d.sorted_eq with hd | ⟨items, rfl, hd⟩ | ⟨members, ms, rfl, hd⟩ <;> rw [hd] <;> rfl

end

theorem readItems_sorted {fresh : α} {read : α → Datum → Option α} {items : List Datum}
    (h : ∀ d ∈ items, ∀ a, read a d.sorted = read a d) (current done : List α) :
    readItems fresh read current (items.map sorted) done = readItems fresh read current items done := by
  induction items generalizing current done with
  | nil => rfl
  | cons d items ih =>
    rw [List.forall_mem_cons] at h
    simp only [List.map_cons, readItems, h.1, ih h.2]

theorem readList_sorted {d : Datum} (h : d.Tidy) {fresh : α} {read : α → Datum → Option α}
    (hread : ∀ {d : Datum}, d.Tidy → ∀ a, read a d.sorted = read a d) (current : Slots α) :
    readList fresh read current d.sorted = readList fresh read current d := by
  rcases d.sorted_eq with hd | ⟨items, rfl, hd⟩ | ⟨members, ms, rfl, hd⟩
  · rw [hd]
  · rw [hd]
    cases h with
    | list hitems =>
      cases items with
      | nil => rfl
      | cons d items => exact readItems_sorted (fun d hd => hread (hitems d hd)) _ _
  · rw [hd]
    rfl

/-- Members in the order of their keys are read as they are in any other. -/
theorem Commutes.readMembers_sorted {step : α → Text → Datum → Option α} (h : Commutes step)
    {members : List (Text × Datum)} (hd : (members.map Prod.fst).Nodup)
    (hstep : ∀ m ∈ members, ∀ a k, step a k m.2.sorted = step a k m.2) :
    ∃ ms, sorted (.record members) = .record ms ∧
      ∀ a, readMembers step a ms = readMembers step a members := by
  obtain ⟨ms, hperm, hsorted⟩ := sorted_record members
  refine ⟨ms, hsorted, fun a => ?_⟩
  have hd' : ((members.map fun m => (m.1, m.2.sorted)).map Prod.fst).Nodup := by
    rw [List.map_map]
    exact hd
  rw [← h.readMembers_perm hperm.symm hd']
  clear hperm hsorted hd hd'
  induction members generalizing a with
  | nil => rfl
  | cons m members ih =>
    rw [List.forall_mem_cons] at hstep
    simp only [List.map_cons, readMembers_cons, hstep.1, ih hstep.2]

theorem readRecord_sorted {d : Datum} (h : d.Tidy) {step : α → Text → Datum → Option α}
    (hcomm : Commutes step)
    (hstep : ∀ {d : Datum}, d.Tidy → ∀ a k, step a k d.sorted = step a k d) (a : α) :
    readRecord step a d.sorted = readRecord step a d := by
  rcases d.sorted_eq with hd | ⟨items, rfl, hd⟩ | ⟨members, ms, rfl, hd⟩
  · rw [hd]
  · rw [hd]
    rfl
  · cases h with
    | record _ hkeys hdata =>
      obtain ⟨ms', hd', hread⟩ := hcomm.readMembers_sorted hkeys fun m hm => hstep (hdata m hm)
      rw [hd']
      exact hread a

end Datum

open Datum

/-! ## Declarations -/

namespace FinalItem

theorem commutes : Commutes readMember := by
  unfold readMember
  repeat' apply Commutes.ite
  all_goals repeat' apply Beside.ite
  all_goals first
    | exact .skip
    | exact fun _ _ _ => bind_map_comm (fun _ => rfl) (fun _ => rfl) fun _ _ => rfl

theorem read_sorted {d : Datum} (h : d.Tidy) (f : FinalItem) : read f d.sorted = read f d := by
  refine readRecord_sorted h commutes (fun _ f k => ?_) f
  simp only [readMember, readText_sorted, readInt32?_sorted, readInt64_sorted]

end FinalItem

namespace VarItem

theorem commutes : Commutes readMember := by
  unfold readMember
  repeat' apply Commutes.ite
  all_goals repeat' apply Beside.ite
  all_goals first
    | exact .skip
    | exact fun _ _ _ => bind_map_comm (fun _ => rfl) (fun _ => rfl) fun _ _ => rfl

theorem read_sorted {d : Datum} (h : d.Tidy) (v : VarItem) : read v d.sorted = read v d := by
  refine readRecord_sorted h commutes (fun _ v k => ?_) v
  simp only [readMember, readText_sorted, readInt64_sorted]

end VarItem

/-! ## Nodes -/

namespace NodeDraft

def readField (n : NodeDraft) (d : Datum) : Field → Option NodeDraft
  | .kind => (d.readText n.kind).map fun kind => { n with kind }
  | .line => (d.readInt64 n.line).map fun line => { n with line }
  | .column => (d.readInt64 n.column).map fun column => { n with column }
  | .name => (d.readText n.name).map fun name => { n with name }
  | .op => (d.readText n.op).map fun op => { n with op }
  | .value => (d.readInt32 n.value).map fun value => { n with value }
  | .left => (read? n.left d).map fun left => { n with left }
  | .right => (read? n.right d).map fun right => { n with right }
  | .cond => (read? n.cond d).map fun cond => { n with cond }
  | .thenItems => (readList n.thenItems d).map fun thenItems => { n with thenItems }
  | .elseItems => (readList n.elseItems d).map fun elseItems => { n with elseItems }
  | .args => (readList n.args d).map fun args => { n with args }

theorem readMember_eq (n : NodeDraft) (k : Text) (d : Datum) :
    readMember n k d = match Field.ofKey? k with
      | none => some n
      | some field => readField n d field := by
  simp only [readMember, readMembers]
  cases Field.ofKey? k with
  | none => rfl
  | some field => cases field <;> simp only [readField] <;> split <;> simp [*]

theorem readField_comm (n : NodeDraft) (d d' : Datum) {f g : Field} (h : f ≠ g) :
    (readField n d f).bind (readField · d' g) = (readField n d' g).bind (readField · d f) := by
  cases f <;> cases g
  all_goals first
    | exact absurd rfl h
    | exact bind_map_comm (fun _ => rfl) (fun _ => rfl) fun _ _ => rfl

theorem key_of_ofKey? {k : Text} {f : Field} (h : Field.ofKey? k = some f) : f.key = k := by
  simpa using List.find?_some h

theorem commutes : Commutes readMember := by
  intro n k d k' d' hne
  simp only [readMember_eq]
  cases hk : Field.ofKey? k with
  | none => simp
  | some f =>
    cases hk' : Field.ofKey? k' with
    | none => simp
    | some g =>
      refine readField_comm n d d' ?_
      rintro rfl
      exact hne ((key_of_ofKey? hk).symm.trans (key_of_ofKey? hk'))

structure ReadsSorted (d : Datum) : Prop where
  node : ∀ n, read n d.sorted = read n d
  option : ∀ n, read? n d.sorted = read? n d
  list : ∀ ns, readList ns d.sorted = readList ns d

theorem ReadsSorted.member {d : Datum} (h : ReadsSorted d) (n : NodeDraft) (k : Text) :
    readMember n k d.sorted = readMember n k d := by
  simp only [readMember_eq]
  cases Field.ofKey? k with
  | none => rfl
  | some field =>
    cases field <;> simp only [readField, readText_sorted, readInt64_sorted, readInt32_sorted, h.option,
      h.list]

theorem readItems_sorted {items : List Datum} (h : ∀ d ∈ items, ReadsSorted d)
    (current done : List NodeDraft) :
    readItems current (items.map sorted) done = readItems current items done := by
  induction items generalizing current done with
  | nil => rfl
  | cons d items ih =>
    rw [List.forall_mem_cons] at h
    simp only [List.map_cons, readItems, h.1.node, ih h.2]

theorem readsSorted {d : Datum} (h : d.Tidy) : ReadsSorted d := by
  induction h with
  | null => exact ⟨fun _ => rfl, fun _ => rfl, fun _ => rfl⟩
  | int _ _ => exact ⟨fun _ => rfl, fun _ => rfl, fun _ => rfl⟩
  | text _ _ => exact ⟨fun _ => rfl, fun _ => rfl, fun _ => rfl⟩
  | @list items _ ih =>
    constructor
    all_goals rw [sorted_list]
    · exact fun _ => rfl
    · exact fun _ => rfl
    · intro ns
      cases items with
      | nil => rfl
      | cons d items => exact readItems_sorted ih ns.all []
  | record _ hd _ ih =>
    obtain ⟨ms, hsorted, hread⟩ := commutes.readMembers_sorted hd fun m hm => (ih m hm).member
    simp only [← readMembers_eq] at hread
    constructor
    all_goals rw [hsorted]
    · exact hread
    · intro n
      rw [read?, read?, hread]
    · exact fun _ => rfl

end NodeDraft

/-! ## Methods and documents -/

namespace MethodDraft

theorem commutes : Commutes readMember := by
  unfold readMember
  repeat' apply Commutes.ite
  all_goals repeat' apply Beside.ite
  all_goals first
    | exact .skip
    | exact fun _ _ _ => bind_map_comm (fun _ => rfl) (fun _ => rfl) fun _ _ => rfl

theorem read_sorted {d : Datum} (h : d.Tidy) (m : MethodDraft) : read m d.sorted = read m d := by
  refine readRecord_sorted h commutes (fun h m k => ?_) m
  simp only [readMember, readText_sorted, readInt64_sorted, readList_sorted h VarItem.read_sorted,
    (NodeDraft.readsSorted h).list]

end MethodDraft

theorem Draft.commutes : Commutes readMember := by
  unfold readMember
  repeat' apply Commutes.ite
  all_goals repeat' apply Beside.ite
  all_goals first
    | exact .skip
    | exact fun _ _ _ => bind_map_comm (fun _ => rfl) (fun _ => rfl) fun _ _ => rfl

theorem Document.ofDatum?_sorted {d : Datum} (h : d.Tidy) : ofDatum? d.sorted = ofDatum? d := by
  rw [ofDatum?, ofDatum?, readRecord_sorted h Draft.commutes fun h c k => ?_]
  simp only [Draft.readMember, readText_sorted, readInt64_sorted, readList_sorted h FinalItem.read_sorted,
    readList_sorted h VarItem.read_sorted, readList_sorted h MethodDraft.read_sorted]

end ClassForge
