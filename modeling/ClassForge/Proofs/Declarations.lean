import Mathlib.Data.List.Induction
import Mathlib.Data.List.Nodup
import ClassForge.Document.Resolve
import ClassForge.Proofs.ScopeHistory

/-!
# What a document declares

The declarations of a document come in order, each for the class or for the
body of one method. One is repeated if an earlier one of the same place has its
name, and then the earlier one stays in force. So a name in the body of a method
means the first declaration of that name among those of the method, failing that
among those of the class: `Document.meaning?`.
-/

namespace ClassForge

/-! ## Repeated keys -/

section
variable {α β κ : Type} [BEq κ] [LawfulBEq κ]

/-- The items whose key an earlier item has. -/
def repeats (key : α → κ) (xs : List α) : List α :=
  (xs.zipIdx.filter fun x => key x.1 ∈ (xs.take x.2).map key).map Prod.fst

variable {key : α → κ}

theorem repeats_concat (xs : List α) (x : α) :
    repeats key (xs ++ [x]) = repeats key xs ++ if key x ∈ xs.map key then [x] else [] := by
  unfold repeats
  rw [List.zipIdx_append, List.filter_append, List.map_append]
  congr 1
  · congr 1
    apply List.filter_congr
    intro y hy
    have hlt : y.2 < xs.length := by simpa using (List.mem_zipIdx' hy).1
    rw [List.take_append_of_le_length (Nat.le_of_lt hlt)]
  · by_cases h : key x ∈ xs.map key
    · simp only [List.mem_map] at h
      simp [h]
    · simp only [List.mem_map] at h
      simp [h]

theorem repeats_eq_nil (xs : List α) : repeats key xs = [] ↔ (xs.map key).Nodup := by
  induction xs using List.reverseRecOn with
  | nil => simp [repeats]
  | append_singleton xs x ih =>
    rw [repeats_concat, List.append_eq_nil_iff, ih, List.map_append, List.map_singleton,
      ← List.concat_eq_append, List.nodup_concat]
    by_cases h : key x ∈ xs.map key
    · simp only [h, ↓reduceIte, List.cons_ne_nil, and_false, not_true_eq_false, false_and]
    · simp only [h, ↓reduceIte, and_true, not_false_eq_true, true_and]

theorem repeats_append_of_disjoint {xs ys : List α} (h : ∀ y ∈ ys, key y ∉ xs.map key) :
    repeats key (xs ++ ys) = repeats key xs ++ repeats key ys := by
  induction ys using List.reverseRecOn with
  | nil => simp [repeats]
  | append_singleton ys y ih =>
    have hmem : key y ∈ (xs ++ ys).map key ↔ key y ∈ ys.map key := by
      rw [List.map_append, List.mem_append]
      exact or_iff_right (h y (by simp))
    rw [← List.append_assoc, repeats_concat, repeats_concat, ih fun z hz => h z (by simp [hz]),
      List.append_assoc]
    simp only [hmem]

theorem repeats_map {κ' : Type} [BEq κ'] [LawfulBEq κ'] {k : β → κ'} {f : β → α}
    (h : ∀ x y, key (f x) = key (f y) ↔ k x = k y) (xs : List β) :
    repeats key (xs.map f) = (repeats k xs).map f := by
  induction xs using List.reverseRecOn with
  | nil => simp [repeats]
  | append_singleton xs x ih =>
    have hmem : key (f x) ∈ (xs.map f).map key ↔ k x ∈ xs.map k := by
      simp only [List.map_map, List.mem_map, Function.comp_apply, h]
    rw [List.map_append, List.map_singleton, repeats_concat, repeats_concat, ih, List.map_append]
    congr 1
    by_cases hx : k x ∈ xs.map k
    · rw [if_pos (hmem.mpr hx), if_pos hx, List.map_singleton]
    · rw [if_neg (fun hf => hx (hmem.mp hf)), if_neg hx, List.map_nil]

end

/-! ## Declarations one after the other -/

namespace Declared

structure Holds (syms : List Symbol) (faults : List Diagnostic) (d : Declared) : Prop where
  get? : ∀ name, d.scope.get? name = syms.find? (·.name = name)
  faults : d.faults = faults.reverse

theorem holds_empty : Holds [] [] {} where
  get? name := by simp [Scope.get?]
  faults := rfl

variable {syms : List Symbol} {faults : List Diagnostic} {d : Declared}

theorem add_eq (d : Declared) (sym : Symbol) :
    d.add sym = if d.scope.contains sym.name then ⟨d.scope, twice sym :: d.faults⟩
      else ⟨d.scope.push sym, d.faults⟩ := rfl

theorem Holds.add (h : Holds syms faults d) (sym : Symbol) :
    Holds (syms ++ [sym]) (faults ++ if sym.name ∈ syms.map Symbol.name then [twice sym] else [])
      (d.add sym) := by
  have hcontains : d.scope.contains sym.name = true ↔ sym.name ∈ syms.map Symbol.name := by
    rw [Scope.contains_eq, h.get?, Scope.isSome_find?_name]
  by_cases hmem : sym.name ∈ syms.map Symbol.name
  · obtain ⟨first, hfirst⟩ := Option.isSome_iff_exists.mp (Scope.isSome_find?_name.mpr hmem)
    rw [add_eq, if_pos (hcontains.mpr hmem), if_pos hmem]
    refine ⟨fun name => ?_, by simp [h.faults]⟩
    rw [h.get?, List.find?_append]
    by_cases hname : sym.name = name
    · subst hname
      rw [hfirst, Option.some_or]
    · simp [hname]
  · have hnone : syms.find? (·.name = sym.name) = none := Scope.find?_name_eq_none.mpr hmem
    rw [add_eq, if_neg (fun hc => hmem (hcontains.mp hc)), if_neg hmem]
    refine ⟨fun name => ?_, by simp [h.faults]⟩
    rw [Scope.get?_push, List.find?_append, h.get?]
    by_cases hname : sym.name = name
    · subst hname
      simp [hnone]
    · simp [hname, Ne.symm hname]

theorem Holds.addFaults (h : Holds syms faults d) (more : List Diagnostic) :
    Holds syms (faults ++ more) { d with faults := more.reverse ++ d.faults } where
  get? := h.get?
  faults := by rw [h.faults, List.reverse_append]

theorem holds_addAll (syms : List Symbol) :
    Holds syms ((repeats Symbol.name syms).map twice) (addAll {} syms) := by
  induction syms using List.reverseRecOn with
  | nil => exact holds_empty
  | append_singleton syms sym ih =>
    have hadd := ih.add sym
    rw [repeats_concat, List.map_append, apply_ite (List.map twice), List.map_singleton, List.map_nil]
    rw [addAll, List.foldl_append]
    exact hadd

end Declared

/-! ## Documents -/

def MethodItem.ownSymbols (c : Document) (m : MethodItem) : List Symbol :=
  m.params.map (VarItem.symbol c .param) ++ m.locals.map (VarItem.symbol c .var)

namespace Document

/-- The declarations of a method, the number of which is `i`: of its body, then
its own in the class. -/
def methodDeclarations (c : Document) (m : MethodItem) (i : Nat) : List (Option Nat × Symbol) :=
  (m.ownSymbols c).map (some i, ·) ++ [(none, m.symbol c)]

/-- The declarations in the order of the document if its methods are `ms`, each
with the number of the method that it is for; those without are for the class. -/
def declarations (c : Document) (ms : List MethodItem) : List (Option Nat × Symbol) :=
  c.memberSymbols.map (none, ·) ++ ms.zipIdx.flatMap fun x => c.methodDeclarations x.1 x.2

def declaredKey (x : Option Nat × Symbol) : Option Nat × Text := (x.1, x.2.name)

def repeated (c : Document) (ms : List MethodItem) : List Symbol :=
  (repeats declaredKey (c.declarations ms)).map Prod.snd

def members (c : Document) (ms : List MethodItem) : List Symbol :=
  c.memberSymbols ++ ms.map (MethodItem.symbol c)

def meaning? (c : Document) (m : MethodItem) (name : Text) : Option Symbol :=
  (m.ownSymbols c ++ c.members c.methods).find? (·.name = name)

theorem members_concat (c : Document) (ms : List MethodItem) (m : MethodItem) :
    c.members (ms ++ [m]) = c.members ms ++ [m.symbol c] := by
  simp [members]

theorem map_repeats (i : Option Nat) (syms : List Symbol) :
    (repeats declaredKey (syms.map fun sym => (i, sym))).map Prod.snd = repeats Symbol.name syms := by
  rw [repeats_map (k := Symbol.name) (by simp [declaredKey]), List.map_map]
  exact List.map_id _

theorem repeated_nil (c : Document) : c.repeated [] = repeats Symbol.name c.memberSymbols := by
  rw [repeated, declarations, List.zipIdx_nil, List.flatMap_nil, List.append_nil, map_repeats]

theorem declarations_concat (c : Document) (ms : List MethodItem) (m : MethodItem) :
    c.declarations (ms ++ [m]) = c.declarations ms ++ c.methodDeclarations m ms.length := by
  simp [declarations, List.zipIdx_append]

theorem lt_of_mem_declarations {c : Document} {ms : List MethodItem} {i : Nat} {sym : Symbol}
    (h : (some i, sym) ∈ c.declarations ms) : i < ms.length := by
  simp only [declarations, methodDeclarations, List.mem_append, List.mem_map, List.mem_flatMap] at h
  rcases h with ⟨_, _, h⟩ | ⟨x, hx, ⟨_, _, h⟩ | h⟩
  · cases h
  · cases h
    exact (List.mem_zipIdx' hx).1
  · simp at h

theorem declaredKey_mem (c : Document) (ms : List MethodItem) (sym : Symbol) :
    declaredKey (none, sym) ∈ (c.declarations ms).map declaredKey ↔
      sym.name ∈ (c.members ms).map Symbol.name := by
  induction ms using List.reverseRecOn with
  | nil => simp [declarations, members, declaredKey]
  | append_singleton ms m ih =>
    rw [declarations_concat, List.map_append, List.mem_append, ih]
    simp [members, methodDeclarations, declaredKey, or_assoc]

/-- What is repeated in a method and of a method, behind what is repeated before. -/
theorem repeated_concat (c : Document) (ms : List MethodItem) (m : MethodItem) :
    c.repeated (ms ++ [m]) = c.repeated ms ++ (repeats Symbol.name (m.ownSymbols c) ++
      if (m.symbol c).name ∈ (c.members ms).map Symbol.name then [m.symbol c] else []) := by
  -- the number of the method is new, so its body repeats nothing from before
  have hnew : ∀ x ∈ (m.ownSymbols c).map (some ms.length, ·),
      declaredKey x ∉ (c.declarations ms).map declaredKey := by
    intro x hx hmem
    obtain ⟨sym, -, rfl⟩ := List.mem_map.mp hx
    obtain ⟨⟨i, sym'⟩, hdecl, heq⟩ := List.mem_map.mp hmem
    obtain ⟨rfl, -⟩ := Prod.mk.inj heq
    exact Nat.lt_irrefl _ (lt_of_mem_declarations hdecl)
  have htaken : declaredKey (none, m.symbol c) ∈
      (c.declarations ms ++ (m.ownSymbols c).map (some ms.length, ·)).map declaredKey ↔
      (m.symbol c).name ∈ (c.members ms).map Symbol.name := by
    rw [List.map_append, List.mem_append, declaredKey_mem]
    simp [declaredKey]
  rw [repeated, declarations_concat, methodDeclarations, ← List.append_assoc, repeats_concat,
    repeats_append_of_disjoint hnew, List.map_append, List.map_append, map_repeats, List.append_assoc]
  congr 2
  simp only [htaken]
  split <;> rfl

theorem holds_declared (c : Document) (ms : List MethodItem) :
    Declared.Holds (c.members ms) ((c.repeated ms).map Declared.twice)
      (ms.foldl c.declareMethod (Declared.addAll {} c.memberSymbols)) := by
  induction ms using List.reverseRecOn with
  | nil =>
    rw [repeated_nil, members, List.map_nil, List.append_nil]
    exact Declared.holds_addAll _
  | append_singleton ms m ih =>
    have hadd := (ih.addFaults ((repeats Symbol.name (m.ownSymbols c)).map Declared.twice)).add (m.symbol c)
    rw [← (Declared.holds_addAll (m.ownSymbols c)).faults] at hadd
    rw [List.foldl_append, members_concat, repeated_concat, List.map_append, List.map_append,
      apply_ite (List.map Declared.twice), ← List.append_assoc]
    exact hadd

theorem repeated_eq_nil (c : Document) (ms : List MethodItem) :
    c.repeated ms = [] ↔ ((c.members ms).map Symbol.name).Nodup ∧
      ∀ m ∈ ms, ((m.ownSymbols c).map Symbol.name).Nodup := by
  induction ms using List.reverseRecOn with
  | nil => simp [repeated_nil, members, repeats_eq_nil]
  | append_singleton ms m ih =>
    rw [repeated_concat, List.append_eq_nil_iff, List.append_eq_nil_iff, ih, repeats_eq_nil,
      members_concat, List.map_append, List.map_singleton, ← List.concat_eq_append, List.nodup_concat,
      List.forall_mem_append]
    by_cases h : (m.symbol c).name ∈ (c.members ms).map Symbol.name
    · simp only [h, ↓reduceIte, List.cons_ne_nil, and_false, not_true_eq_false, false_and]
    · simp only [h, ↓reduceIte, and_true, not_false_eq_true, true_and, List.forall_mem_singleton, and_assoc]

theorem faults_declared (c : Document) :
    c.declared.faults = ((c.repeated c.methods).map Declared.twice).reverse :=
  (c.holds_declared c.methods).faults

/-- Two scopes, one inside the other, are searched like one list. -/
theorem bind?_binder (c : Document) (m : MethodItem) (name : Text) :
    (c.binder c.declared.scope m).bind? name = c.meaning? m name := by
  have hinner : (m.declared c).scope.get? name = (m.ownSymbols c).find? (·.name = name) :=
    (Declared.holds_addAll (m.ownSymbols c)).get? name
  have houter : c.declared.scope.get? name = (c.members c.methods).find? (·.name = name) :=
    (c.holds_declared c.methods).get? name
  show [(m.declared c).scope, c.declared.scope].findSome? (·.get? name) = _
  rw [meaning?, List.find?_append, ← hinner, ← houter, List.findSome?_cons, List.findSome?_cons,
    List.findSome?_nil]
  cases (m.declared c).scope.get? name with
  | some sym => rfl
  | none => cases c.declared.scope.get? name <;> rfl

/-! ## Names -/

end Document

def MethodItem.ownNames (m : MethodItem) : List Text :=
  m.params.map VarItem.name ++ m.locals.map VarItem.name

theorem MethodItem.map_ownSymbols (c : Document) (m : MethodItem) :
    (m.ownSymbols c).map Symbol.name = m.ownNames := by
  rw [ownSymbols, ownNames, List.map_append, List.map_map, List.map_map]
  rfl

namespace Document

theorem map_members (c : Document) :
    (c.members c.methods).map Symbol.name =
      c.finals.map FinalItem.name ++ c.globals.map VarItem.name ++ c.methods.map MethodItem.name := by
  rw [members, memberSymbols, List.map_append, List.map_append, List.map_map, List.map_map, List.map_map]
  rfl

theorem find?_name_cases (syms : List Symbol) (name : Text) :
    (name ∈ syms.map Symbol.name ∧ ∃ sym ∈ syms, syms.find? (·.name = name) = some sym) ∨
      (name ∉ syms.map Symbol.name ∧ syms.find? (·.name = name) = none) := by
  rw [← Scope.isSome_find?_name]
  cases h : syms.find? (·.name = name) with
  | none => simp
  | some sym => exact .inl ⟨rfl, sym, List.mem_of_find?_eq_some h, rfl⟩

/-- A name means a parameter or local, failing that a final, failing that a global,
failing that a method. -/
theorem meaning?_cases (c : Document) (m : MethodItem) (name : Text) :
    (name ∈ m.ownNames ∧
      ∃ sym, c.meaning? m name = some sym ∧ (sym.kind = .param ∨ sym.kind = .var)) ∨
    (name ∉ m.ownNames ∧ name ∈ c.finals.map FinalItem.name ∧
      ∃ sym, c.meaning? m name = some sym ∧ sym.kind = .const) ∨
    (name ∉ m.ownNames ∧ name ∉ c.finals.map FinalItem.name ∧ name ∈ c.globals.map VarItem.name ∧
      ∃ sym, c.meaning? m name = some sym ∧ sym.kind = .var) ∨
    (name ∉ m.ownNames ∧ name ∉ c.finals.map FinalItem.name ∧ name ∉ c.globals.map VarItem.name ∧
      name ∈ c.methods.map MethodItem.name ∧
      ∃ sym, c.meaning? m name = some sym ∧ sym.kind = .proc) ∨
    (name ∉ m.ownNames ∧ name ∉ c.finals.map FinalItem.name ∧ name ∉ c.globals.map VarItem.name ∧
      name ∉ c.methods.map MethodItem.name ∧ c.meaning? m name = none) := by
  have hown := find?_name_cases (m.ownSymbols c) name
  have hfinals := find?_name_cases (c.finals.map (FinalItem.symbol c)) name
  have hglobals := find?_name_cases (c.globals.map (VarItem.symbol c .var)) name
  have hmethods := find?_name_cases (c.methods.map (MethodItem.symbol c)) name
  rw [MethodItem.map_ownSymbols] at hown
  rw [List.map_map] at hfinals hglobals hmethods
  simp only [meaning?, members, memberSymbols, List.find?_append]
  rcases hown with ⟨ho, sym, hsym, hfo⟩ | ⟨ho, hfo⟩
  · refine .inl ⟨ho, sym, by rw [hfo]; rfl, ?_⟩
    simp only [MethodItem.ownSymbols, List.mem_append, List.mem_map] at hsym
    rcases hsym with ⟨v, -, rfl⟩ | ⟨v, -, rfl⟩
    · exact .inl rfl
    · exact .inr rfl
  rw [hfo]
  rcases hfinals with ⟨hf, sym, hsym, hff⟩ | ⟨hf, hff⟩
  · obtain ⟨f, -, rfl⟩ := List.mem_map.mp hsym
    exact .inr (.inl ⟨ho, hf, _, by rw [hff]; rfl, rfl⟩)
  rw [hff]
  rcases hglobals with ⟨hg, sym, hsym, hfg⟩ | ⟨hg, hfg⟩
  · obtain ⟨v, -, rfl⟩ := List.mem_map.mp hsym
    exact .inr (.inr (.inl ⟨ho, hf, hg, _, by rw [hfg]; rfl, rfl⟩))
  rw [hfg]
  rcases hmethods with ⟨hm, sym, hsym, hfm⟩ | ⟨hm, hfm⟩
  · obtain ⟨p, -, rfl⟩ := List.mem_map.mp hsym
    exact .inr (.inr (.inr (.inl ⟨ho, hf, hg, hm, _, by rw [hfm]; rfl, rfl⟩)))
  · exact .inr (.inr (.inr (.inr ⟨ho, hf, hg, hm, by rw [hfm]; rfl⟩)))

end Document

end ClassForge
