import Mathlib.Data.List.Basic
import Mathlib.Logic.Function.Iterate
import ClassForge.Proofs.Mentions

/-!
# Walks and addresses

The address of a node says by which edges it is reached from the root, so two nodes that
look alike still have addresses of their own. Addresses are ordered like words, an edge by
its place among the parts of a node. In this order a walk meets what lies open to it:
every address on whose way no node is refused, each once, and no other.
-/

namespace ClassForge

inductive Edge where
  | cond
  | thenBranch
  | elseBranch
  | left
  | right
  | arg (i : Nat)
  | next
  deriving DecidableEq

namespace Edge

/-- The place of an edge among all of a node: by part, then by number of the argument. -/
def rank : Edge → Nat × Nat
  | cond => (0, 0)
  | thenBranch => (1, 0)
  | elseBranch => (2, 0)
  | left => (3, 0)
  | right => (4, 0)
  | arg i => (5, i)
  | next => (6, 0)

instance : LT Edge := ⟨fun e f => e.rank.1 < f.rank.1 ∨ e.rank.1 = f.rank.1 ∧ e.rank.2 < f.rank.2⟩

theorem lt_iff {e f : Edge} :
    e < f ↔ e.rank.1 < f.rank.1 ∨ e.rank.1 = f.rank.1 ∧ e.rank.2 < f.rank.2 := Iff.rfl

instance (e f : Edge) : Decidable (e < f) := decidable_of_iff _ lt_iff.symm

end Edge

namespace Node

/-! ## Edges of a node -/

def child? (n : Node) : Edge → Option Node
  | .cond => n.cond
  | .thenBranch => n.thenBranch
  | .elseBranch => n.elseBranch
  | .left => n.left
  | .right => n.right
  | .arg i => n.args[i]?.join
  | .next => n.next

def edges (n : Node) : List Edge :=
  [.cond, .thenBranch, .elseBranch, .left, .right] ++ ((List.range n.args.length).map .arg ++ [.next])

theorem pairwise_edges (n : Node) : n.edges.Pairwise (· < ·) := by
  have hparts : [Edge.cond, .thenBranch, .elseBranch, .left, .right].Pairwise (· < ·) := by decide
  have hargs : ((List.range n.args.length).map Edge.arg).Pairwise (· < ·) := by
    rw [List.pairwise_map]
    exact List.pairwise_lt_range.imp fun h => .inr ⟨rfl, h⟩
  rw [edges, List.pairwise_append, List.pairwise_append]
  refine ⟨hparts, ⟨hargs, List.pairwise_singleton .., ?_⟩, ?_⟩
  · simp [Edge.lt_iff, Edge.rank]
  · intro e he f hf
    simp only [List.mem_append, List.mem_map, List.mem_singleton] at hf
    simp only [List.mem_cons, List.not_mem_nil, or_false] at he
    obtain ⟨i, -, rfl⟩ | rfl := hf <;> obtain rfl | rfl | rfl | rfl | rfl := he <;> simp [Edge.lt_iff, Edge.rank]

theorem mem_edges {n c : Node} {e : Edge} (h : n.child? e = some c) : e ∈ n.edges := by
  cases e with
  | arg i =>
    have hlt : i < n.args.length := by
      by_contra hge
      simp [child?, List.getElem?_eq_none (Nat.le_of_not_lt hge)] at h
    simp [edges, hlt]
  | _ => simp [edges]

theorem flatMap_range_join {α : Type} (l : List (Option α)) :
    (List.range l.length).flatMap (fun i => l[i]?.join.toList) = l.filterMap id := by
  induction l with
  | nil => rfl
  | cons a l ih =>
    rw [List.length_cons, List.range_succ_eq_map, List.flatMap_cons, List.flatMap_map]
    cases a <;> simpa using ih

/-- The children of a node are what its edges lead to, in the order of the edges. -/
theorem children_eq (n : Node) : n.children = n.edges.flatMap fun e => (n.child? e).toList := by
  have hargs : ((List.range n.args.length).map Edge.arg).flatMap (fun e => (n.child? e).toList) =
      n.args.filterMap id := by
    rw [List.flatMap_map]
    exact flatMap_range_join n.args
  rw [edges, List.flatMap_append, List.flatMap_append, hargs]
  simp [child?, children]

theorem mem_children {n c : Node} : c ∈ n.children ↔ ∃ e, n.child? e = some c := by
  simp only [children_eq, List.mem_flatMap, Option.mem_toList]
  exact ⟨fun ⟨e, _, h⟩ => ⟨e, h⟩, fun ⟨e, h⟩ => ⟨e, mem_edges h, h⟩⟩

theorem sizeOf_child?_lt {n c : Node} {e : Edge} (h : n.child? e = some c) : sizeOf c < sizeOf n :=
  sizeOf_lt_of_mem_children (mem_children.mpr ⟨e, h⟩)

/-! ## Addresses -/

def at? : Node → List Edge → Option Node
  | n, [] => some n
  | n, e :: a => (n.child? e).bind fun c => c.at? a

theorem reaches_iff_at? {n m : Node} : n.Reaches m ↔ ∃ a, n.at? a = some m := by
  constructor
  · intro h
    induction h with
    | self n => exact ⟨[], rfl⟩
    | child hc _ ih =>
      obtain ⟨e, he⟩ := mem_children.mp hc
      obtain ⟨a, ha⟩ := ih
      exact ⟨e :: a, by rw [at?, he]; exact ha⟩
  · rintro ⟨a, ha⟩
    induction a generalizing n with
    | nil =>
      cases ha
      exact .self _
    | cons e a ih =>
      obtain ⟨c, hc, hm⟩ := Option.bind_eq_some_iff.mp ha
      exact .child (mem_children.mpr ⟨e, hc⟩) (ih hm)

section
variable (enter : Node → Bool)

/-- There is a node at the address, and none on the way to it is refused. -/
def Opens (n : Node) (a : List Edge) : Prop :=
  (n.at? a).isSome ∧ ∀ b, b <+: a → b ≠ a → ∃ m, n.at? b = some m ∧ enter m = true

theorem opens_nil (n : Node) : n.Opens enter [] :=
  ⟨rfl, fun _ hb hne => absurd (List.prefix_nil.mp hb) hne⟩

theorem opens_cons {n : Node} {e : Edge} {a : List Edge} :
    n.Opens enter (e :: a) ↔ enter n = true ∧ ∃ c, n.child? e = some c ∧ c.Opens enter a := by
  constructor
  · rintro ⟨hsome, hway⟩
    obtain ⟨m, hm, henter⟩ := hway [] (List.nil_prefix ..) (by simp)
    cases hm
    obtain ⟨x, hx⟩ := Option.isSome_iff_exists.mp hsome
    obtain ⟨c, hc, hx⟩ := Option.bind_eq_some_iff.mp hx
    refine ⟨henter, c, hc, Option.isSome_iff_exists.mpr ⟨x, hx⟩, fun b hb hne => ?_⟩
    obtain ⟨m, hm, henter⟩ := hway (e :: b) (List.cons_prefix_cons.mpr ⟨rfl, hb⟩) (by simpa using hne)
    rw [at?, hc] at hm
    exact ⟨m, hm, henter⟩
  · rintro ⟨henter, c, hc, hsome, hway⟩
    refine ⟨by rw [at?, hc]; exact hsome, fun b hb hne => ?_⟩
    rcases List.prefix_cons_iff.mp hb with rfl | ⟨b', rfl, hb'⟩
    · exact ⟨n, rfl, henter⟩
    · obtain ⟨m, hm, henter⟩ := hway b' hb' (by simpa using hne)
      exact ⟨m, by rw [at?, hc]; exact hm, henter⟩

/-! ## Visited nodes with their addresses -/

def located (n : Node) : List (List Edge × Node) :=
  ([], n) :: if enter n then
    n.edges.flatMap fun e =>
      (n.child? e).attach.toList.flatMap fun c => (located c.1).map fun x => (e :: x.1, x.2)
  else []
termination_by sizeOf n
decreasing_by exact sizeOf_child?_lt c.2

def behind (n : Node) (e : Edge) : List (List Edge × Node) :=
  (n.child? e).toList.flatMap fun c => (c.located enter).map fun x => (e :: x.1, x.2)

theorem located_eq (n : Node) :
    n.located enter = ([], n) :: if enter n then n.edges.flatMap (n.behind enter) else [] := by
  have hbehind (e : Edge) : ((n.child? e).attach.toList.flatMap fun c =>
      (c.1.located enter).map fun x => (e :: x.1, x.2)) = n.behind enter e := by
    unfold behind
    cases n.child? e <;> simp
  rw [located]
  simp only [hbehind]

variable {enter}

theorem mem_behind {n m : Node} {e : Edge} {a : List Edge} :
    (a, m) ∈ n.behind enter e ↔
      ∃ c b, n.child? e = some c ∧ (b, m) ∈ c.located enter ∧ a = e :: b := by
  simp only [behind, List.mem_flatMap, Option.mem_toList, List.mem_map, Prod.mk.injEq, Prod.exists]
  constructor
  · rintro ⟨c, hc, b, m', hm, rfl, rfl⟩
    exact ⟨c, b, hc, hm, rfl⟩
  · rintro ⟨c, b, hc, hm, rfl⟩
    exact ⟨c, hc, b, m, hm, rfl, rfl⟩

theorem map_snd_located (n : Node) : (n.located enter).map Prod.snd = n.preorder enter := by
  rw [located_eq, preorder_eq, children_eq, List.flatMap_assoc, List.map_cons]
  split
  · rw [List.map_flatMap]
    refine congrArg (n :: ·) (List.flatMap_congr fun e _ => ?_)
    cases hc : n.child? e with
    | none => simp [behind, hc]
    | some c =>
      have := sizeOf_child?_lt hc
      simpa [behind, hc, Function.comp_def] using map_snd_located c
  · rfl
termination_by sizeOf n

theorem mem_located {n m : Node} {a : List Edge} :
    (a, m) ∈ n.located enter ↔ n.at? a = some m ∧ n.Opens enter a := by
  induction a generalizing n with
  | nil =>
    have hbehind (e : Edge) : ([], m) ∉ n.behind enter e := by simp [mem_behind]
    have hrest : ([], m) ∉ (if enter n then n.edges.flatMap (n.behind enter) else []) := by
      split <;> simp [hbehind]
    rw [located_eq, List.mem_cons, or_iff_left hrest, and_iff_left (opens_nil enter n), at?]
    simp [eq_comm]
  | cons e a ih =>
    have hhead : (e :: a, m) ≠ ([], n) := by simp
    rw [located_eq, List.mem_cons, or_iff_right hhead, opens_cons, at?]
    cases henter : enter n with
    | false => simp
    | true =>
      simp only [↓reduceIte, List.mem_flatMap, mem_behind, List.cons.injEq, true_and,
        Option.bind_eq_some_iff]
      constructor
      · rintro ⟨e', -, c, b, hc, hm, rfl, rfl⟩
        obtain ⟨hat, hopen⟩ := ih.mp hm
        exact ⟨⟨c, hc, hat⟩, c, hc, hopen⟩
      · rintro ⟨⟨c, hc, hat⟩, c', hc', hopen⟩
        cases hc.symm.trans hc'
        exact ⟨e, mem_edges hc, c, a, hc, ih.mpr ⟨hat, hopen⟩, rfl, rfl⟩

/-- If no node is refused, every address lies open. -/
theorem mem_located_all {n m : Node} {a : List Edge} :
    (a, m) ∈ n.located (fun _ => true) ↔ n.at? a = some m := by
  rw [mem_located, and_iff_left_iff_imp]
  intro ha
  induction a generalizing n with
  | nil => exact opens_nil _ n
  | cons e a ih =>
    obtain ⟨c, hc, ha⟩ := Option.bind_eq_some_iff.mp ha
    exact (opens_cons _).mpr ⟨rfl, c, hc, ih ha⟩

/-- A node comes before what lies below it, and what lies behind an edge before what lies
behind a later one. -/
theorem pairwise_located (n : Node) : (n.located enter).Pairwise fun x y => x.1 < y.1 := by
  have hbelow : ∀ e x, x ∈ n.behind enter e → ∃ b, x.1 = e :: b := by
    rintro e ⟨a, m⟩ hx
    obtain ⟨c, b, -, -, rfl⟩ := mem_behind.mp hx
    exact ⟨b, rfl⟩
  rw [located_eq]
  split
  · rw [List.pairwise_cons, List.pairwise_flatMap]
    refine ⟨?_, ?_, n.pairwise_edges.imp fun {e f} hlt => ?_⟩
    · intro x hx
      obtain ⟨e, -, hx⟩ := List.mem_flatMap.mp hx
      obtain ⟨b, hb⟩ := hbelow e x hx
      rw [hb]
      exact List.nil_lt_cons ..
    · intro e _
      unfold behind
      cases hc : n.child? e with
      | none => simp
      | some c =>
        have := sizeOf_child?_lt hc
        rw [Option.toList_some, List.flatMap_singleton, List.pairwise_map]
        exact (pairwise_located c).imp fun h => List.cons_lt_cons_iff.mpr (.inr ⟨rfl, h⟩)
    · intro x hx y hy
      obtain ⟨b, hb⟩ := hbelow e x hx
      obtain ⟨b', hb'⟩ := hbelow f y hy
      rw [hb, hb']
      exact List.cons_lt_cons_iff.mpr (.inl hlt)
  · exact List.pairwise_singleton ..
termination_by sizeOf n

/-! ## The loop -/

/-- One turn of the loop: the topmost node is visited and, unless it is refused, replaced by
its children. -/
def walkStep (enter : Node → Bool) : List Node × List Node → List Node × List Node
  | ([], done) => ([], done)
  | (n :: rest, done) => (if enter n then n.children ++ rest else rest, n :: done)

/-- The loop takes one turn for each node that it visits, and then nothing is left. -/
theorem iterate_walkStep (stack done : List Node) :
    (walkStep enter)^[(stack.flatMap (preorder enter)).length] (stack, done) =
      ([], (stack.flatMap (preorder enter)).reverse ++ done) := by
  induction stack, done using walkLoop.induct enter with
  | case1 done => rfl
  | case2 n rest done h ih =>
    have hvisits : (n :: rest).flatMap (preorder enter) =
        n :: (n.children ++ rest).flatMap (preorder enter) := by
      rw [List.flatMap_cons, preorder_eq, if_pos h, List.flatMap_append, List.cons_append]
    rw [hvisits, List.length_cons, Function.iterate_succ_apply, walkStep, if_pos h, ih]
    simp
  | case3 n rest done h ih =>
    have hvisits : (n :: rest).flatMap (preorder enter) = n :: rest.flatMap (preorder enter) := by
      rw [List.flatMap_cons, preorder_eq, if_neg h, List.singleton_append]
    rw [hvisits, List.length_cons, Function.iterate_succ_apply, walkStep, if_neg h, ih]
    simp

end

/-- A walk visits a node and, unless it is refused, what lies below it, one child after the
other, in one turn of the loop for each visit. It visits the addresses that lie open, each
once and in their order: what lies below a refused node, the statements that follow it
included, is left out, and nothing else is. -/
theorem walk_visits (enter : Node → Bool) (root : Node) :
    root.walk enter = root.preorder enter ∧
    root.walk enter = root :: (if enter root then
      (root.cond.toList ++ root.thenBranch.toList ++ root.elseBranch.toList ++ root.left.toList ++
        root.right.toList ++ root.args.filterMap id ++ root.next.toList).flatMap (walk enter)
      else []) ∧
    (walkStep enter)^[(root.walk enter).length] ([root], []) = ([], (root.walk enter).reverse) ∧
    ∃ visits : List (List Edge), visits.Pairwise (· < ·) ∧
      (∀ a, a ∈ visits ↔ root.Opens enter a) ∧
      visits.map root.at? = (root.walk enter).map some := by
  have hwalk : walk enter = preorder enter := funext walk_eq_preorder
  rw [hwalk]
  refine ⟨rfl, preorder_eq root, ?_, (root.located enter).map Prod.fst, ?_, ?_, ?_⟩
  · have hturns := @iterate_walkStep enter [root] []
    rwa [List.flatMap_singleton, List.append_nil] at hturns
  · rw [List.pairwise_map]
    exact pairwise_located root
  · intro a
    constructor
    · intro ha
      obtain ⟨⟨_, m⟩, hm, rfl⟩ := List.mem_map.mp ha
      exact (mem_located.mp hm).2
    · intro ha
      obtain ⟨m, hm⟩ := Option.isSome_iff_exists.mp ha.1
      exact List.mem_map.mpr ⟨(a, m), mem_located.mpr ⟨hm, ha⟩, rfl⟩
  · rw [← map_snd_located, List.map_map, List.map_map]
    apply List.map_congr_left
    rintro ⟨a, m⟩ hm
    exact (mem_located.mp hm).1

end Node

end ClassForge
