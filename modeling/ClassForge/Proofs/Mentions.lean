import ClassForge.ClassDecl
import ClassForge.Node.Walk

/-!
# What bodies mention

A body mentions the names of its variables and calls, at whatever depth. The
collected references are exactly these names: visiting a node is a fold over its
children, so it reaches every node below and no other.
-/

namespace ClassForge

namespace Node

inductive Reaches : Node → Node → Prop where
  | self (n : Node) : Reaches n n
  | child {n c m : Node} : c ∈ n.children → Reaches c m → Reaches n m

theorem reaches_iff {n m : Node} : n.Reaches m ↔ m = n ∨ ∃ c ∈ n.children, c.Reaches m := by
  constructor
  · intro h
    cases h with
    | self => exact .inl rfl
    | child hc hm => exact .inr ⟨_, hc, hm⟩
  · rintro (rfl | ⟨c, hc, hm⟩)
    · exact .self m
    · exact .child hc hm

/-! ## Visiting -/

section
variable {enter : Node → Bool}

theorem visitOption_eq (o : Option Node) (done : List Node) :
    visitOption enter o done = o.toList.foldl (fun done c => visit enter c done) done := by
  cases o <;> rfl

theorem visitArgs_eq (args : List (Option Node)) (done : List Node) :
    visitArgs enter args done = (args.filterMap id).foldl (fun done c => visit enter c done) done := by
  induction args generalizing done with
  | nil => rfl
  | cons a args ih =>
    cases a with
    | none => exact ih done
    | some n => exact ih (visit enter n done)

theorem visit_eq {n : Node} (h : enter n = true) (done : List Node) :
    visit enter n done = n.children.foldl (fun done c => visit enter c done) (n :: done) := by
  cases n with
  | mk kind pos name op value sym left right cond thenBranch elseBranch args next =>
    rw [visit, if_pos h]
    simp only [children, List.foldl_append, ← visitOption_eq, ← visitArgs_eq]
    cases next <;> rfl

end

theorem sizeOf_le_weight {c : Node} {cs : List Node} (h : c ∈ cs) : sizeOf c ≤ weight cs := by
  induction cs with
  | nil => cases h
  | cons d cs ih =>
    rw [weight_cons]
    rcases List.mem_cons.mp h with rfl | h
    · exact Nat.le_add_right _ _
    · exact Nat.le_trans (ih h) (Nat.le_add_left _ _)

theorem sizeOf_lt_of_mem_children {n c : Node} (h : c ∈ n.children) : sizeOf c < sizeOf n :=
  Nat.lt_of_le_of_lt (sizeOf_le_weight h) (weight_children_lt n)

/-! ## The order of visiting -/

section
variable {enter : Node → Bool}

theorem foldl_visit {cs : List Node}
    (h : ∀ c ∈ cs, ∀ done, visit enter c done = (c.preorder enter).reverse ++ done) (done : List Node) :
    cs.foldl (fun done c => visit enter c done) done =
      (cs.flatMap (preorder enter)).reverse ++ done := by
  induction cs generalizing done with
  | nil => rfl
  | cons c cs ih =>
    rw [List.foldl_cons, h c (List.mem_cons_self ..), ih fun d hd => h d (List.mem_cons_of_mem _ hd)]
    simp

theorem visit_of_refused {n : Node} (h : enter n = false) (done : List Node) :
    visit enter n done = n :: done := by
  cases n with
  | mk kind pos name op value sym left right cond thenBranch elseBranch args next =>
    rw [visit]
    exact if_neg (Bool.eq_false_iff.mp h)

theorem visit_eq_preorder (n : Node) (done : List Node) :
    visit enter n done = (n.preorder enter).reverse ++ done := by
  rw [preorder, List.reverse_reverse]
  cases h : enter n with
  | false => rw [visit_of_refused h, visit_of_refused h, List.singleton_append]
  | true =>
    have hchildren : ∀ c ∈ n.children, ∀ done, visit enter c done = (c.preorder enter).reverse ++ done :=
      fun c hc => visit_eq_preorder c
    rw [visit_eq h, visit_eq h, foldl_visit hchildren, foldl_visit hchildren]
    simp
termination_by sizeOf n
decreasing_by exact sizeOf_lt_of_mem_children hc

theorem preorder_eq (n : Node) :
    n.preorder enter = n :: if enter n then n.children.flatMap (preorder enter) else [] := by
  rw [preorder]
  cases h : enter n with
  | false => rw [visit_of_refused h]; rfl
  | true =>
    rw [visit_eq h, foldl_visit fun c _ => visit_eq_preorder c]
    simp

/-- A stack is worked off one node after the other. -/
theorem walkLoop_eq (stack done : List Node) :
    walkLoop enter stack done = done.reverse ++ stack.flatMap (preorder enter) := by
  induction stack, done using walkLoop.induct enter with
  | case1 done => simp [walkLoop]
  | case2 n rest done h ih =>
    rw [walkLoop, if_pos h, ih, List.flatMap_cons, preorder_eq, if_pos h]
    simp
  | case3 n rest done h ih =>
    rw [walkLoop, if_neg h, ih, List.flatMap_cons, preorder_eq, if_neg h]
    simp

theorem walk_eq_preorder (n : Node) : n.walk enter = n.preorder enter := by
  rw [walk, walkLoop_eq]
  simp

end

theorem all_eq (n : Node) : n.all = n :: n.children.flatMap all := preorder_eq n

theorem mem_all {n m : Node} : m ∈ n.all ↔ n.Reaches m := by
  rw [all_eq, List.mem_cons, List.mem_flatMap, reaches_iff]
  refine or_congr_right (exists_congr fun c => and_congr_right fun hc => ?_)
  have := sizeOf_lt_of_mem_children hc
  exact mem_all
termination_by sizeOf n

end Node

/-! ## Collected references -/

namespace References

theorem contains_insert (r : References) (name x : Text) :
    (r.insert name).contains x = true ↔ name = x ∨ r.contains x = true := by
  unfold insert contains
  by_cases h : r.seen.contains name = true
  · rw [if_pos h]
    constructor
    · exact .inr
    · rintro (rfl | hx)
      · exact h
      · exact hx
  · rw [if_neg h, Std.TreeSet.contains_insert, Bool.or_eq_true, beq_iff_eq,
      Std.LawfulEqOrd.compare_eq_iff_eq]

theorem contains_foldl_insertNode (r : References) (ns : List Node) (x : Text) :
    (ns.foldl insertNode r).contains x = true ↔
      (∃ n ∈ ns, n.kind.isReference = true ∧ n.name = x) ∨ r.contains x = true := by
  induction ns generalizing r with
  | nil => simp
  | cons n ns ih =>
    rw [List.foldl_cons, ih, insertNode]
    by_cases h : n.kind.isReference = true
    · rw [if_pos h, contains_insert]
      simp only [List.mem_cons, exists_eq_or_imp, h, true_and]
      rw [← or_assoc, or_comm (a := n.name = x)]
    · rw [if_neg h]
      simp only [List.mem_cons, exists_eq_or_imp, h, false_and, Bool.false_eq_true, false_or]

theorem contains_collect (bodies : List Node) (x : Text) :
    (collect bodies).contains x = true ↔
      ∃ body ∈ bodies, ∃ n, body.Reaches n ∧ n.kind.isReference = true ∧ n.name = x := by
  have from_ : ∀ (bodies : List Node) (r : References),
      (bodies.foldl (fun r body => body.all.foldl insertNode r) r).contains x = true ↔
        (∃ body ∈ bodies, ∃ n, body.Reaches n ∧ n.kind.isReference = true ∧ n.name = x) ∨
          r.contains x = true := by
    intro bodies
    induction bodies with
    | nil => simp
    | cons body bodies ih =>
      intro r
      rw [List.foldl_cons, ih, contains_foldl_insertNode]
      simp only [List.mem_cons, exists_eq_or_imp, Node.mem_all]
      rw [← or_assoc, or_comm (a := ∃ n, _)]
  rw [collect, from_]
  simp [contains]

end References

namespace ClassDecl

/-- Some body has a variable or a call of name `x`. -/
def Mentions (c : ClassDecl) (x : Text) : Prop :=
  ∃ m body n, some m ∈ c.methods ∧ m.body = some body ∧ body.Reaches n ∧
    (n.kind = .var ∨ n.kind = .call) ∧ n.name = x

theorem contains_references (c : ClassDecl) (x : Text) :
    c.references.contains x = true ↔ c.Mentions x := by
  have hkind (k : NodeKind) : k.isReference = true ↔ k = .var ∨ k = .call := by
    cases k <;> simp [NodeKind.isReference]
  rw [references, References.contains_collect]
  simp only [bodies, List.mem_filterMap, Option.bind_eq_some_iff, hkind]
  constructor
  · rintro ⟨body, ⟨_, hm, m, rfl, hbody⟩, n, hn⟩
    exact ⟨m, body, n, hm, hbody, hn⟩
  · rintro ⟨m, body, n, hm, hbody, hn⟩
    exact ⟨body, ⟨_, hm, m, rfl, hbody⟩, n, hn⟩

instance (c : ClassDecl) (x : Text) : Decidable (c.Mentions x) :=
  decidable_of_iff _ (c.contains_references x)

end ClassDecl

end ClassForge
