import Mathlib.Data.List.Nodup
import ClassForge.Scope

/-!
# The history of scopes

Scopes are made one after the other, each inside an earlier one or inside none, and
declarations are offered to them in any order. A scope takes the first declaration of each
name. At every time a name means, seen from a scope, what the nearest scope around it
says that declares the name: `History.forest_answers`.
-/

namespace ClassForge

/-! ## One scope -/

namespace Scope

theorem get?_push (s : Scope) (sym : Symbol) (name : Text) :
    (s.push sym).get? name = if name = sym.name then some sym else s.get? name := by
  show (s.index.insert sym.name sym)[name]? = _
  rw [Std.TreeMap.getElem?_insert]
  by_cases h : name = sym.name
  · simp [h]
  · have hc : ¬ compare sym.name name = .eq := fun hc => h (Std.LawfulEqOrd.eq_of_compare hc).symm
    simp [h, hc, get?]

theorem contains_eq (s : Scope) (name : Text) : s.contains name = (s.get? name).isSome :=
  Std.TreeMap.contains_eq_isSome_getElem?

theorem isSome_find?_name {syms : List Symbol} {name : Text} :
    (syms.find? (·.name = name)).isSome ↔ name ∈ syms.map Symbol.name := by
  simp [List.find?_isSome, List.mem_map]

theorem find?_name_eq_none {syms : List Symbol} {name : Text} :
    syms.find? (·.name = name) = none ↔ name ∉ syms.map Symbol.name := by
  rw [← isSome_find?_name, Option.not_isSome_iff_eq_none]

theorem find?_name_eq_some {syms : List Symbol} (h : (syms.map Symbol.name).Nodup) {name : Text}
    {sym : Symbol} : syms.find? (·.name = name) = some sym ↔ sym ∈ syms ∧ sym.name = name := by
  constructor
  · intro hfind
    exact ⟨List.mem_of_find?_eq_some hfind, by simpa using List.find?_some hfind⟩
  · rintro ⟨hmem, rfl⟩
    obtain ⟨first, hfirst⟩ := Option.isSome_iff_exists.mp
      (isSome_find?_name.mpr (List.mem_map_of_mem hmem))
    have hname : first.name = sym.name := by simpa using List.find?_some hfirst
    rw [hfirst, List.inj_on_of_nodup_map h (List.mem_of_find?_eq_some hfirst) hmem hname]

structure Lists (syms : List Symbol) (s : Scope) : Prop where
  symbols : s.symbols.toList = syms
  get? : ∀ name, s.get? name = syms.find? (·.name = name)

theorem lists_empty : Lists [] {} where
  symbols := rfl
  get? name := by simp [Scope.get?]

section
variable {syms : List Symbol} {s : Scope} {sym : Symbol}

theorem Lists.push (h : Lists syms s) (hname : sym.name ∉ syms.map Symbol.name) :
    Lists (syms ++ [sym]) (s.push sym) where
  symbols := by
    show (s.symbols.push sym).toList = _
    rw [Array.toList_push, h.symbols]
  get? name := by
    rw [get?_push, List.find?_append, h.get?]
    by_cases heq : sym.name = name
    · subst heq
      simp [find?_name_eq_none.mpr hname]
    · simp [heq, Ne.symm heq]

theorem Lists.insert? (h : Lists syms s) :
    s.insert? sym = if sym.name ∈ syms.map Symbol.name then none else some (s.push sym) := by
  unfold Scope.insert?
  simp only [contains_eq, h.get?, isSome_find?_name]

end

end Scope

/-! ## Histories -/

namespace ScopeForest

/-- What was done from the start until there were `n` scopes and no more: a new scope is inside
none or inside one that is there, and symbols are offered to scopes that are there. -/
inductive History : Nat → Type where
  | start : History 0
  | grow {n : Nat} (h : History n) (parent : Option (Fin n)) : History (n + 1)
  | offer {n : Nat} (h : History n) (i : Fin n) (sym : Symbol) : History n

namespace History

variable {n : Nat}

/-- The scopes that are there. A symbol that is refused leaves them as they are. -/
def forest : {n : Nat} → History n → ScopeForest
  | _, start => {}
  | _, grow h parent => h.forest.grow (parent.map Fin.val)
  | _, offer h i sym => (h.forest.insert? i sym).getD h.forest

/-- The symbols that scope `i` took, in order: of each name the first that was offered. -/
def declared : {n : Nat} → History n → Nat → List Symbol
  | _, start, _ => []
  | _, grow h _, i => h.declared i
  | _, offer h j sym, i =>
    if i = j ∧ ∀ first ∈ h.declared i, first.name ≠ sym.name then h.declared i ++ [sym]
    else h.declared i

def names (h : History n) (i : Nat) : List Text := (h.declared i).map Symbol.name

def parent : {n : Nat} → History n → Nat → Option Nat
  | _, start, _ => none
  | n + 1, grow h outer, i => if i = n then outer.map Fin.val else h.parent i
  | _, offer h _ _, i => h.parent i

section
variable {h : History n} {i : Nat} {j : Fin n} {sym : Symbol}

theorem declared_offer : (h.offer j sym).declared i =
    if i = j ∧ sym.name ∉ h.names i then h.declared i ++ [sym] else h.declared i := by
  simp [declared, names, List.mem_map]

theorem declared_offer_new (hname : sym.name ∉ h.names j) :
    (h.offer j sym).declared j = h.declared j ++ [sym] := by
  rw [declared_offer, if_pos ⟨rfl, hname⟩]

theorem declared_offer_taken (hname : sym.name ∈ h.names j) :
    (h.offer j sym).declared i = h.declared i := by
  rw [declared_offer, if_neg]
  rintro ⟨rfl, hnew⟩
  exact hnew hname

theorem declared_offer_of_ne (hij : i ≠ j) : (h.offer j sym).declared i = h.declared i := by
  rw [declared_offer, if_neg fun hand => hij hand.1]

end

theorem declared_of_le {i : Nat} : ∀ {n : Nat} (h : History n), n ≤ i → h.declared i = []
  | _, start, _ => rfl
  | _, grow h _, hi => h.declared_of_le (Nat.le_of_succ_le hi)
  | _, offer h j sym, hi => by
    rw [declared_offer_of_ne (by omega), h.declared_of_le hi]

theorem parent_lt {i p : Nat} : ∀ {n : Nat} (h : History n), h.parent i = some p → p < i
  | _, start, hp => by cases hp
  | n + 1, grow h outer, hp => by
    unfold parent at hp
    split at hp
    · rename_i hi
      obtain ⟨q, -, rfl⟩ := Option.map_eq_some_iff.mp hp
      rw [hi]
      exact q.isLt
    · exact h.parent_lt hp
  | _, offer h _ _, hp => h.parent_lt hp

theorem nodup_names (i : Nat) : ∀ {n : Nat} (h : History n), (h.names i).Nodup
  | _, start => List.nodup_nil
  | _, grow h _ => h.nodup_names i
  | _, offer h j sym => by
    have ih := h.nodup_names i
    unfold names
    rw [declared_offer]
    split
    · rename_i hnew
      rw [List.map_append, List.map_singleton, ← List.concat_eq_append]
      exact ih.concat hnew.2
    · exact ih

/-! ## What one operation keeps -/

structure Records (h : History n) (f : ScopeForest) : Prop where
  size : f.nodes.size = n
  node : ∀ i < n, ∃ s, f.nodes[i]? = some (h.parent i, s) ∧ Scope.Lists (h.declared i) s

section
variable {h : History n} {f : ScopeForest} {i : Nat}

theorem Records.scope (hf : Records h f) (hi : i < n) : Scope.Lists (h.declared i) (f.scope i) := by
  obtain ⟨s, hs, hlists⟩ := hf.node i hi
  unfold ScopeForest.scope
  rw [hs]
  exact hlists

theorem Records.grow (hf : Records h f) (outer : Option (Fin n)) :
    Records (h.grow outer) (f.grow (outer.map Fin.val)) where
  size := by
    show (f.nodes.push _).size = _
    rw [Array.size_push, hf.size]
  node i hi := by
    show ∃ s, (f.nodes.push _)[i]? = _ ∧ _
    rw [Array.getElem?_push, hf.size]
    by_cases hn : i = n
    · refine ⟨{}, by simp [hn, parent], ?_⟩
      show Scope.Lists (h.declared i) {}
      rw [h.declared_of_le (Nat.le_of_eq hn.symm)]
      exact Scope.lists_empty
    · obtain ⟨s, hs, hlists⟩ := hf.node i (by omega)
      exact ⟨s, by simpa [hn, parent] using hs, hlists⟩

theorem Records.insert? (hf : Records h f) (j : Fin n) (sym : Symbol) :
    f.insert? j sym =
      if sym.name ∈ h.names j then none
      else some { nodes := f.nodes.modify j fun (outer, _) => (outer, (f.scope j).push sym) } := by
  unfold ScopeForest.insert?
  rw [(hf.scope j.isLt).insert?]
  change Option.map _ (if sym.name ∈ h.names j then none else _) = _
  by_cases hname : sym.name ∈ h.names j
  · rw [if_pos hname, if_pos hname, Option.map_none]
  · rw [if_neg hname, if_neg hname, Option.map_some]

theorem Records.offer (hf : Records h f) (j : Fin n) (sym : Symbol) :
    Records (h.offer j sym) ((f.insert? j sym).getD f) := by
  rw [hf.insert?]
  by_cases hname : sym.name ∈ h.names j
  · rw [if_pos hname, Option.getD_none]
    refine ⟨hf.size, fun i hi => ?_⟩
    rw [declared_offer_taken hname]
    exact hf.node i hi
  · rw [if_neg hname, Option.getD_some]
    refine ⟨by simp [hf.size], fun i hi => ?_⟩
    obtain ⟨s, hs, hlists⟩ := hf.node i hi
    rw [Array.getElem?_modify, hs]
    by_cases hij : i = j
    · refine ⟨(f.scope j).push sym, by simp [hij, parent], ?_⟩
      rw [hij, declared_offer_new hname]
      exact (hf.scope j.isLt).push hname
    · refine ⟨s, by simp [Ne.symm hij, parent], ?_⟩
      rw [declared_offer_of_ne hij]
      exact hlists

end

theorem records_forest : ∀ {n : Nat} (h : History n), Records h h.forest
  | _, start => ⟨rfl, fun i hi => absurd hi (Nat.not_lt_zero i)⟩
  | _, grow h outer => h.records_forest.grow outer
  | _, offer h j sym => h.records_forest.offer j sym

/-! ## Looking outwards -/

/-- What the search for `name` that starts in scope `i` comes to: it goes from scope to scope
outwards, up to the first that declares the name. -/
inductive Finds (h : History n) (name : Text) : Nat → Option Symbol → Prop where
  | here {i : Nat} {sym : Symbol} (hmem : sym ∈ h.declared i) (hname : sym.name = name) :
    Finds h name i (some sym)
  | outward {i p : Nat} {found : Option Symbol} (hname : name ∉ h.names i)
    (hparent : h.parent i = some p) (hfound : Finds h name p found) : Finds h name i found
  | nowhere {i : Nat} (hname : name ∉ h.names i) (hparent : h.parent i = none) : Finds h name i none

inductive Free (h : History n) (name : Text) (p : Nat) : Nat → Prop where
  | there (hname : name ∉ h.names p) : Free h name p p
  | outward {i q : Nat} (hname : name ∉ h.names i) (hparent : h.parent i = some q)
    (hfree : Free h name p q) : Free h name p i

section
variable {h : History n} {name : Text} {i : Nat}

theorem chain_forest (hi : i < n) :
    h.forest.chain i = h.forest.scope i :: (h.parent i).elim [] h.forest.chain := by
  obtain ⟨s, hs, -⟩ := h.records_forest.node i hi
  have hscope : h.forest.scope i = s := by
    unfold ScopeForest.scope
    rw [hs]
  rw [ScopeForest.chain, hs, hscope]
  cases hp : h.parent i with
  | none => rfl
  | some p => simp [h.parent_lt hp]

theorem lookup?_forest (hi : i < n) :
    Scope.lookup? (h.forest.chain i) name =
      ((h.declared i).find? (·.name = name)).or
        ((h.parent i).elim none fun p => Scope.lookup? (h.forest.chain p) name) := by
  unfold Scope.lookup?
  rw [chain_forest hi, List.findSome?_cons, (h.records_forest.scope hi).get?]
  cases (h.declared i).find? (·.name = name) with
  | some sym => rfl
  | none => cases h.parent i <;> rfl

theorem lookup?_of_mem (hi : i < n) {sym : Symbol} (hmem : sym ∈ h.declared i) (hname : sym.name = name) :
    Scope.lookup? (h.forest.chain i) name = some sym := by
  rw [lookup?_forest hi, (Scope.find?_name_eq_some (h.nodup_names i)).mpr ⟨hmem, hname⟩, Option.some_or]

theorem lookup?_of_not_mem (hi : i < n) (hname : name ∉ h.names i) :
    Scope.lookup? (h.forest.chain i) name =
      (h.parent i).elim none fun p => Scope.lookup? (h.forest.chain p) name := by
  rw [lookup?_forest hi, Scope.find?_name_eq_none.mpr hname, Option.none_or]

theorem Finds.lookup?_eq {found : Option Symbol} (hfinds : Finds h name i found) (hi : i < n) :
    Scope.lookup? (h.forest.chain i) name = found := by
  induction hfinds with
  | here hmem hname => exact lookup?_of_mem hi hmem hname
  | outward hname hparent _ ih =>
    rw [lookup?_of_not_mem hi hname, hparent]
    exact ih (Nat.lt_trans (h.parent_lt hparent) hi)
  | nowhere hname hparent =>
    rw [lookup?_of_not_mem hi hname, hparent]
    rfl

/-- The search ends, as every scope is younger than the one around it. -/
theorem finds_lookup? (hi : i < n) : Finds h name i (Scope.lookup? (h.forest.chain i) name) := by
  induction i using Nat.strongRecOn with
  | ind i ih =>
    by_cases hname : name ∈ h.names i
    · obtain ⟨sym, hmem, hsym⟩ := List.mem_map.mp hname
      rw [lookup?_of_mem hi hmem hsym]
      exact .here hmem hsym
    · rw [lookup?_of_not_mem hi hname]
      cases hparent : h.parent i with
      | none => exact .nowhere hname hparent
      | some p =>
        have hp := h.parent_lt hparent
        exact .outward hname hparent (ih p hp (Nat.lt_trans hp hi))

theorem Free.not_mem {p : Nat} (hfree : Free h name p i) : name ∉ h.names p := by
  induction hfree with
  | there hname => exact hname
  | outward _ _ _ ih => exact ih

/-- A symbol that scope `p` takes is seen from further in. -/
theorem Free.finds {p : Fin n} {sym : Symbol} (hfree : Free h sym.name p i) :
    Finds (h.offer p sym) sym.name i (some sym) := by
  have hmem : sym ∈ (h.offer p sym).declared p := by
    rw [declared_offer_new hfree.not_mem]
    exact List.mem_concat_self
  induction hfree with
  | there _ => exact .here hmem rfl
  | @outward i q hname hparent _ ih =>
    by_cases hip : i = p
    · subst hip
      exact .here hmem rfl
    · have hparent' : (h.offer p sym).parent i = some q := hparent
      refine .outward ?_ hparent' ih
      unfold names
      rwa [declared_offer_of_ne hip]

end

/-- After any history a scope has each of its names once, in its list as in its index, and it
refuses a name that it has and no other. A search outwards from it ends, at the nearest scope
that declares the name then. -/
theorem forest_answers (h : History n) (i : Fin n) :
    h.forest.nodes.size = n ∧
    (h.forest.scope i).symbols.toList = h.declared i ∧
    (h.names i).Nodup ∧
    (∀ name sym, (h.forest.scope i).get? name = some sym ↔ sym ∈ h.declared i ∧ sym.name = name) ∧
    (h.forest.scope i).params = (h.declared i).filter (·.kind = .param) ∧
    (∀ sym, h.forest.insert? i sym =
      if sym.name ∈ h.names i then none else some (h.offer i sym).forest) ∧
    (∀ sym, sym.name ∈ h.names i → (h.offer i sym).forest = h.forest) ∧
    (∀ name found, Scope.lookup? (h.forest.chain i) name = found ↔ Finds h name i found) ∧
    ∀ (p : Fin n) sym, Free h sym.name p i →
      Scope.lookup? ((h.offer p sym).forest.chain i) sym.name = some sym := by
  have hrecords := h.records_forest
  have hscope := hrecords.scope i.isLt
  refine ⟨hrecords.size, hscope.symbols, h.nodup_names i, ?_, ?_, ?_, ?_, ?_, ?_⟩
  · intro name sym
    rw [hscope.get?]
    exact Scope.find?_name_eq_some (h.nodup_names i)
  · unfold Scope.params
    rw [hscope.symbols]
  · intro sym
    rw [forest, hrecords.insert?]
    by_cases hname : sym.name ∈ h.names i
    · rw [if_pos hname, if_pos hname]
    · rw [if_neg hname, if_neg hname, Option.getD_some]
  · intro sym hname
    rw [forest, hrecords.insert?, if_pos hname, Option.getD_none]
  · intro name found
    constructor
    · rintro rfl
      exact finds_lookup? i.isLt
    · intro hfinds
      exact hfinds.lookup?_eq i.isLt
  · intro p sym hfree
    exact hfree.finds.lookup?_eq i.isLt

def nested : History 2 :=
  let outer := (start.grow none).offer 0 { name := "g", kind := .var }
  let inner := (outer.grow (some 0)).offer 1 { name := "b", kind := .param }
  let more := (inner.offer 1 { name := "l", kind := .var }).offer 1 { name := "a", kind := .param }
  more.offer 1 { name := "l", kind := .param }

theorem forest_answers_nested :
    (nested.forest.scope 1).params.map Symbol.name = [("b" : Text), "a"] ∧
      nested.forest.insert? 1 { name := "l", kind := .var } = none ∧
      Scope.lookup? (nested.forest.chain 1) "g" = some { name := "g", kind := .var } ∧
      Scope.lookup? (nested.forest.chain 1) "k" = none ∧
      Scope.lookup? ((nested.offer 0 { name := "k", kind := .const }).forest.chain 1) "k" =
        some { name := "k", kind := .const } := by
  obtain ⟨-, -, -, -, hparams, hinsert, -, hlookup, hlater⟩ := nested.forest_answers 1
  have hfree : Free nested "k" 0 1 := .outward (by decide) rfl (.there (by decide))
  refine ⟨?_, ?_, ?_, ?_, ?_⟩
  · exact (congrArg (List.map Symbol.name) hparams).trans (by decide)
  · exact (hinsert _).trans (if_pos (by decide))
  · exact (hlookup _ _).mpr (.outward (by decide) rfl (.here (by decide) rfl))
  · exact (hlookup _ _).mpr (.outward (by decide) rfl (.nowhere (by decide) rfl))
  · exact hlater 0 { name := "k", kind := .const } hfree

end History

end ScopeForest

end ClassForge
