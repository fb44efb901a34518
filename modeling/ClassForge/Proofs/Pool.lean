import ClassForge.Pool

/-!
# Growing pools

Entries keep their numbers while a pool grows, and with them everything that a
number leads to. `Pool.Built` holds of the pools that come about by adding
entries one by one; in these every text that is found stands where the look-up
says.
-/

namespace ClassForge.Pool

/-! ## One more entry -/

@[simp] theorem entries_push (p : Pool) (e : Entry) : (p.push e).entries = p.entries.push e := rfl

theorem next_push (p : Pool) (e : Entry) : (p.push e).next = p.next + 1 := by
  simp only [next, entries_push, Array.size_push, UInt16.ofNat_add]
  rfl

theorem toNat_next {p : Pool} (h : p.entries.size < capacity) : p.next.toNat = p.entries.size + 1 := by
  simp only [next, UInt16.toNat_ofNat', capacity] at *
  omega

/-- The first entry of a text is kept, and a new text has the number that was next. -/
theorem getElem?_first_push (p : Pool) (e : Entry) (t : Text) :
    (p.push e).first[t]? = p.first[t]?.or (if e = .utf8 t then some p.next else none) := by
  cases e with
  | utf8 u =>
    have hfirst : (p.push (.utf8 u)).first = p.first.insertIfNew u p.next := rfl
    rw [hfirst, Std.TreeMap.getElem?_insertIfNew]
    by_cases h : u = t
    · subst h
      by_cases hm : u ∈ p.first <;> simp [hm]
    · have hc : ¬ compare u t = .eq := fun hc => h (Std.LawfulEqOrd.eq_of_compare hc)
      simp [h, hc]
  | _ => simp [push]

theorem refusal?_eq_none {p : Pool} :
    p.refusal? = none ↔ p.frozen = false ∧ p.entries.size < capacity := by
  unfold refusal?
  cases hf : p.frozen with
  | true => simp
  | false =>
    by_cases hs : capacity ≤ p.entries.size
    · simp [hs]
    · simpa [hs] using Nat.lt_of_not_le hs

theorem add_eq_ok {p q : Pool} {e : Entry} {i : UInt16} :
    p.add e = .ok (i, q) ↔
      p.frozen = false ∧ p.entries.size < capacity ∧ i = p.next ∧ q = p.push e := by
  unfold add
  cases h : p.refusal? with
  | some r =>
    have : ¬ (p.frozen = false ∧ p.entries.size < capacity) := by
      rw [← refusal?_eq_none, h]; simp
    simp only [reduceCtorEq, false_iff]
    exact fun ⟨hf, hs, _⟩ => this ⟨hf, hs⟩
  | none =>
    obtain ⟨hf, hs⟩ := refusal?_eq_none.mp h
    simp only [Except.ok.injEq, Prod.mk.injEq, hf, hs, true_and]
    exact ⟨fun ⟨hi, hq⟩ => ⟨hi.symm, hq.symm⟩, fun ⟨hi, hq⟩ => ⟨hi.symm, hq.symm⟩⟩

/-! ## Several entries -/

def extend (p : Pool) (es : List Entry) : Pool := es.foldl push p

@[simp] theorem extend_nil (p : Pool) : p.extend [] = p := rfl

theorem extend_cons (p : Pool) (e : Entry) (es : List Entry) :
    p.extend (e :: es) = (p.push e).extend es := rfl

theorem extend_append (p : Pool) (a b : List Entry) : p.extend (a ++ b) = (p.extend a).extend b :=
  List.foldl_append

@[simp] theorem toList_extend (p : Pool) (es : List Entry) :
    (p.extend es).entries.toList = p.entries.toList ++ es := by
  induction es generalizing p with
  | nil => simp
  | cons e es ih => simp [extend_cons, ih]

@[simp] theorem size_extend (p : Pool) (es : List Entry) :
    (p.extend es).entries.size = p.entries.size + es.length := by
  rw [← Array.length_toList, toList_extend, List.length_append, Array.length_toList]

@[simp] theorem frozen_extend (p : Pool) (es : List Entry) : (p.extend es).frozen = p.frozen := by
  induction es generalizing p with
  | nil => rfl
  | cons e es ih => exact ih (p.push e)

/-! ## Looking up a number -/

theorem get?_eq (p : Pool) (i : UInt16) :
    p.get? i = if i.toNat = 0 then none else p.entries.toList[i.toNat - 1]? := by
  have : i = 0 ↔ i.toNat = 0 := by rw [← UInt16.toNat_inj]; rfl
  simp only [get?, this, Array.getElem?_toList]

theorem toNat_of_get? {p : Pool} {i : UInt16} {e : Entry} (h : p.get? i = some e) :
    0 < i.toNat ∧ i.toNat ≤ p.entries.size := by
  rw [get?_eq] at h
  split at h
  · cases h
  · obtain ⟨hlt, _⟩ := List.getElem?_eq_some_iff.mp h
    rw [Array.length_toList] at hlt
    omega

theorem mem_of_get? {p : Pool} {i : UInt16} {e : Entry} (h : p.get? i = some e) :
    e ∈ p.entries.toList := by
  rw [get?_eq] at h
  split at h
  · cases h
  · exact List.mem_of_getElem? h

def Keeps (p q : Pool) : Prop := ∀ i e, p.get? i = some e → q.get? i = some e

theorem keeps_extend (p : Pool) (es : List Entry) : Keeps p (p.extend es) := by
  intro i e h
  obtain ⟨hpos, hle⟩ := toNat_of_get? h
  rw [get?_eq] at h ⊢
  rw [toList_extend, List.getElem?_append_left (by rw [Array.length_toList]; omega)]
  exact h

theorem get?_extend_new {p : Pool} {es : List Entry} {i : UInt16} {k : Nat}
    (hi : i.toNat = p.entries.size + 1 + k) : (p.extend es).get? i = es[k]? := by
  rw [get?_eq, if_neg (by omega), toList_extend,
    List.getElem?_append_right (by rw [Array.length_toList]; omega), Array.length_toList]
  congr 1
  omega

/-! ## Following references -/

theorem bind_eq_ok {ε α β : Type} {x : Except ε α} {f : α → Except ε β} {y : β} :
    (x >>= f) = .ok y ↔ ∃ a, x = .ok a ∧ f a = .ok y := by
  cases x <;> simp [bind, Except.bind]

theorem entry_eq_ok {p : Pool} {i : UInt16} {e : Entry} : p.entry i = .ok e ↔ p.get? i = some e := by
  unfold entry
  cases p.get? i <;> simp

theorem utf8_eq_ok {p : Pool} {i : UInt16} {t : Text} :
    p.utf8 i = .ok t ↔ p.get? i = some (.utf8 t) := by
  simp only [utf8, bind_eq_ok, entry_eq_ok]
  constructor
  · rintro ⟨e, he, h⟩
    cases e with
    | utf8 t' => cases h; exact he
    | _ => cases h
  · exact fun h => ⟨_, h, rfl⟩

theorem className_eq_ok {p : Pool} {i : UInt16} {t : Text} :
    p.className i = .ok t ↔ ∃ n, p.get? i = some (.classRef n) ∧ p.get? n = some (.utf8 t) := by
  simp only [className, bind_eq_ok, entry_eq_ok]
  constructor
  · rintro ⟨e, he, h⟩
    cases e with
    | classRef n => exact ⟨n, he, utf8_eq_ok.mp h⟩
    | _ => cases h
  · exact fun ⟨n, hi, hn⟩ => ⟨_, hi, utf8_eq_ok.mpr hn⟩

theorem nameAndType_eq_ok {p : Pool} {i : UInt16} {n d : Text} :
    p.nameAndType i = .ok (n, d) ↔
      ∃ a b, p.get? i = some (.nameAndType a b) ∧ p.get? a = some (.utf8 n) ∧ p.get? b = some (.utf8 d) := by
  simp only [nameAndType, bind_eq_ok, entry_eq_ok]
  constructor
  · rintro ⟨e, he, h⟩
    cases e with
    | nameAndType a b =>
      simp only [bind_eq_ok, utf8_eq_ok] at h
      obtain ⟨n', hn, d', hd, h⟩ := h
      cases h
      exact ⟨a, b, he, hn, hd⟩
    | _ => cases h
  · rintro ⟨a, b, hi, ha, hb⟩
    refine ⟨_, hi, ?_⟩
    simp only [bind_eq_ok, utf8_eq_ok]
    exact ⟨n, ha, d, hb, rfl⟩

theorem memberRef_eq_ok {p : Pool} {i : UInt16} {c n d : Text} :
    p.memberRef i = .ok (c, n, d) ↔
      ∃ o m, (p.get? i = some (.fieldref o m) ∨ p.get? i = some (.methodref o m)) ∧
        p.className o = .ok c ∧ p.nameAndType m = .ok (n, d) := by
  have parts (o m : UInt16) : (do return (← p.className o, ← p.nameAndType m)) = .ok (c, n, d) ↔
      p.className o = .ok c ∧ p.nameAndType m = .ok (n, d) := by
    simp only [bind_eq_ok]
    constructor
    · rintro ⟨c', ho, x, hm, h⟩
      cases h
      exact ⟨ho, hm⟩
    · exact fun ⟨ho, hm⟩ => ⟨c, ho, (n, d), hm, rfl⟩
  simp only [memberRef, bind_eq_ok, entry_eq_ok]
  constructor
  · rintro ⟨e, he, h⟩
    cases e with
    | fieldref o m => exact ⟨o, m, .inl he, (parts o m).mp h⟩
    | methodref o m => exact ⟨o, m, .inr he, (parts o m).mp h⟩
    | _ => cases h
  · rintro ⟨o, m, hi | hi, h⟩ <;> exact ⟨_, hi, (parts o m).mpr h⟩

section
variable {p q : Pool} (h : Keeps p q)
include h

theorem Keeps.className {i : UInt16} {t : Text} (hp : p.className i = .ok t) : q.className i = .ok t := by
  obtain ⟨n, hi, hn⟩ := className_eq_ok.mp hp
  exact className_eq_ok.mpr ⟨n, h _ _ hi, h _ _ hn⟩

theorem Keeps.nameAndType {i : UInt16} {n d : Text} (hp : p.nameAndType i = .ok (n, d)) :
    q.nameAndType i = .ok (n, d) := by
  obtain ⟨a, b, hi, ha, hb⟩ := nameAndType_eq_ok.mp hp
  exact nameAndType_eq_ok.mpr ⟨a, b, h _ _ hi, h _ _ ha, h _ _ hb⟩

theorem Keeps.memberRef {i : UInt16} {c n d : Text} (hp : p.memberRef i = .ok (c, n, d)) :
    q.memberRef i = .ok (c, n, d) := by
  obtain ⟨o, m, hi, ho, hm⟩ := memberRef_eq_ok.mp hp
  exact memberRef_eq_ok.mpr ⟨o, m, hi.imp (h _ _) (h _ _), h.className ho, h.nameAndType hm⟩

end

/-! ## Pools built by adding -/

/-- The pool comes about by adding entries, and may be frozen. -/
inductive Built : Pool → Prop
  | empty : Built {}
  | add {p q : Pool} {e : Entry} {i : UInt16} : Built p → e ≠ .vacant → p.add e = .ok (i, q) → Built q
  | freeze {p : Pool} : Built p → Built p.freeze

theorem Built.size_le {p : Pool} (h : Built p) : p.entries.size ≤ capacity := by
  induction h with
  | empty => exact Nat.zero_le _
  | add _ _ hadd _ =>
    obtain ⟨_, hs, _, rfl⟩ := add_eq_ok.mp hadd
    rw [entries_push, Array.size_push]; exact hs
  | freeze _ ih => exact ih

/-- A text that is found stands where the look-up says. -/
theorem Built.get?_first {p : Pool} (h : Built p) :
    ∀ {t : Text} {i : UInt16}, p.first[t]? = some i → p.get? i = some (.utf8 t) := by
  induction h with
  | empty => intro t i hi; simp at hi
  | @add p q e i₀ _ _ hadd ih =>
    obtain ⟨_, hs, rfl, rfl⟩ := add_eq_ok.mp hadd
    have hkeep := keeps_extend p [e]
    intro t i hi
    cases e with
    | utf8 t' =>
      have hfirst : (p.push (.utf8 t')).first = p.first.insertIfNew t' p.next := rfl
      rw [hfirst, Std.TreeMap.getElem?_insertIfNew] at hi
      split at hi
      · rename_i hc
        obtain rfl := Std.LawfulEqOrd.eq_of_compare hc.1
        cases hi
        exact @get?_extend_new p [.utf8 t'] p.next 0 (toNat_next hs)
      · exact hkeep _ _ (ih hi)
    | _ => exact hkeep _ _ (ih hi)
  | freeze _ ih => exact ih

theorem Built.get?_find {p : Pool} (h : Built p) {t : Text} (hf : p.find t ≠ 0) :
    p.get? (p.find t) = some (.utf8 t) := by
  unfold find at *
  cases hi : p.first[t]? with
  | none => rw [hi] at hf; exact absurd rfl hf
  | some i => exact h.get?_first hi

/-- A pool is known by its entries. -/
theorem Built.ofList_entries {p : Pool} (h : Built p) :
    ofList p.entries.toList = { p with frozen := false } := by
  induction h with
  | empty => rfl
  | @add p q e i _ _ hadd ih =>
    obtain ⟨_, _, _, rfl⟩ := add_eq_ok.mp hadd
    have : ofList (p.entries.push e).toList = (ofList p.entries.toList).push e := by
      simp only [ofList, Array.toList_push, List.foldl_append, List.foldl_cons, List.foldl_nil]
    rw [entries_push, this, ih]
    rfl
  | freeze _ ih => exact ih

theorem Built.extend {p : Pool} (h : Built p) (ho : p.frozen = false) :
    ∀ {es : List Entry}, p.entries.size + es.length ≤ capacity → (∀ e ∈ es, e ≠ .vacant) →
      Built (p.extend es) := by
  intro es hs hv
  induction es generalizing p with
  | nil => exact h
  | cons e es ih =>
    rw [List.length_cons] at hs
    have hadd : p.add e = .ok (p.next, p.push e) := add_eq_ok.mpr ⟨ho, by omega, rfl, rfl⟩
    refine ih (h.add (hv e (List.mem_cons_self ..)) hadd) ho ?_ fun e he => hv e (List.mem_cons_of_mem _ he)
    rw [entries_push, Array.size_push]; omega

end ClassForge.Pool
