import ClassForge.Node

/-!
# Walking with an explicit stack

The same visit as `Node.preorder`, with the nodes still to come in a list, so
that a long chain of statements costs no depth.
-/

namespace ClassForge.Node

/-- The size of all nodes of a list; it bounds what is left of a walk. -/
noncomputable def weight : List Node → Nat
  | [] => 0
  | n :: rest => sizeOf n + weight rest

theorem weight_cons (n : Node) (rest : List Node) : weight (n :: rest) = sizeOf n + weight rest :=
  rfl

theorem weight_append (a b : List Node) : weight (a ++ b) = weight a + weight b := by
  induction a with
  | nil => simp [weight]
  | cons n rest ih => simp [weight, ih, Nat.add_assoc]

theorem weight_toList_lt (o : Option Node) : weight o.toList < sizeOf o := by
  cases o <;> simp [weight]

theorem weight_filterMap_lt (args : List (Option Node)) :
    weight (args.filterMap id) < sizeOf args := by
  induction args with
  | nil => simp [weight]
  | cons a rest ih =>
    cases a <;> simp [weight] at ih ⊢ <;> omega

theorem weight_children_lt (n : Node) : weight n.children < sizeOf n := by
  have hc := weight_toList_lt n.cond
  have ht := weight_toList_lt n.thenBranch
  have he := weight_toList_lt n.elseBranch
  have hl := weight_toList_lt n.left
  have hr := weight_toList_lt n.right
  have ha := weight_filterMap_lt n.args
  have hn := weight_toList_lt n.next
  cases n
  simp only [children, weight_append, mk.sizeOf_spec] at *
  omega

/-- Visits the nodes of the stack, topmost first; `done` holds the visited
nodes, backwards. -/
def walkLoop (enter : Node → Bool) : (stack done : List Node) → List Node
  | [], done => done.reverse
  | n :: rest, done =>
    if enter n then walkLoop enter (n.children ++ rest) (n :: done)
    else walkLoop enter rest (n :: done)
termination_by stack => weight stack
decreasing_by
  · have := weight_children_lt n
    simp only [weight_append, weight_cons]
    omega
  · have : 0 < sizeOf n := by cases n; simp only [mk.sizeOf_spec]; omega
    simp only [weight_cons]
    omega

/-- The nodes from `root` on in the order of visiting; what lies below a node
that `enter` refuses is left out. -/
def walk (enter : Node → Bool) (root : Node) : List Node := walkLoop enter [root] []

end ClassForge.Node
