import ClassForge.Proofs.BoundClasses

/-!
# Binding keeps the bodies

A body is read back from its nodes: along `next` for the statements, and below each
node for what it uses. What comes out is the body of the document, item by item, so
binding neither drops nor adds nor moves an item, and a walk over the bound body meets
each item once.
-/

namespace ClassForge

/-! ## Reading a body back -/

namespace Node

mutual

/-- The item that a node shows, whatever follows the node. -/
def item : Node → NodeItem
  | ⟨kind, pos, name, op, value, _, left, right, cond, thenBranch, elseBranch, args, _⟩ =>
    { kind := kind.name, line := pos.line, column := pos.column, name, op, value
      left := itemOf left, right := itemOf right, cond := itemOf cond
      thenItems := chainItems thenBranch, elseItems := chainItems elseBranch
      args := argItems args }

def itemOf : Option Node → Option NodeItem
  | none => none
  | some n => some n.item

/-- The items of a statement and of those that follow it. -/
def chainItems : Option Node → List NodeItem
  | none => []
  | some n =>
    n.item ::
      match n with
      | ⟨_, _, _, _, _, _, _, _, _, _, _, _, next⟩ => chainItems next

def argItems : List (Option Node) → List NodeItem
  | [] => []
  | none :: rest => argItems rest
  | some n :: rest => n.item :: argItems rest

end

theorem item_eq (n : Node) : n.item =
    { kind := n.kind.name, line := n.pos.line, column := n.pos.column, name := n.name, op := n.op
      value := n.value, left := itemOf n.left, right := itemOf n.right, cond := itemOf n.cond
      thenItems := chainItems n.thenBranch, elseItems := chainItems n.elseBranch
      args := argItems n.args } := by
  cases n
  rfl

theorem chainItems_cons (n : Node) (next : Option Node) :
    chainItems (some { n with next }) = n.item :: chainItems next := by
  cases n
  rfl

theorem argItems_map_some (ns : List Node) : argItems (ns.map some) = ns.map item := by
  induction ns with
  | nil => rfl
  | cons n ns ih => rw [List.map_cons, argItems, ih, List.map_cons]

theorem children_next {n : Node} (h : n.next = none) (next : Option Node) :
    { n with next }.children = n.children ++ next.toList := by
  simp [children, h]

end Node

namespace NodeItem

mutual

/-- An item with nothing but what its kind uses, where a variable that means a final is
a constant. -/
def shown (c : Document) (m : MethodItem) : NodeItem → NodeItem
  | ⟨kind, line, column, name, op, value, left, right, cond, thenItems, elseItems, args⟩ =>
    { kind := boundWord c m { kind, name }, line, column, name, op, value
      left :=
        if kind ∈ [("assign" : Text), "binary", "return", "unary"] then shownOption c m left else none
      right := if kind ∈ [("assign" : Text), "binary"] then shownOption c m right else none
      cond := if kind ∈ [("if" : Text), "while"] then shownOption c m cond else none
      thenItems := if kind ∈ [("if" : Text), "while"] then shownList c m thenItems else []
      elseItems := if kind = "if" then shownList c m elseItems else []
      args := if kind = "call" then shownList c m args else [] }

def shownOption (c : Document) (m : MethodItem) : Option NodeItem → Option NodeItem
  | none => none
  | some item => some (item.shown c m)

def shownList (c : Document) (m : MethodItem) : List NodeItem → List NodeItem
  | [] => []
  | item :: rest => item.shown c m :: shownList c m rest

end

/-- The items that are reached from an item through what their kinds use: the item, its
values, then the statements below it. -/
def reached (item : NodeItem) : List NodeItem :=
  item :: (item.values.attach.flatMap (fun part => reached part.1) ++
    item.blocks.attach.flatMap fun part => reached part.1)
termination_by sizeOf item
decreasing_by
  · exact sizeOf_lt_of_mem_values part.2
  · exact sizeOf_lt_of_mem_blocks part.2

theorem reached_eq (item : NodeItem) :
    item.reached = item :: (item.values.flatMap reached ++ item.blocks.flatMap reached) := by
  rw [reached, List.flatMap_subtype fun _ _ => rfl, List.flatMap_subtype fun _ _ => rfl]
  simp

section
variable (c : Document) (m : MethodItem)

theorem shownList_eq (items : List NodeItem) : shownList c m items = items.map (shown c m) := by
  induction items with
  | nil => rfl
  | cons item items ih => rw [shownList, ih, List.map_cons]

theorem shown_of_known {item : NodeItem} {k : NodeKind} : NodeKind.parse? item.kind = some k →
    item.shown c m =
      { kind := item.boundWord c m, line := item.line, column := item.column, name := item.name
        op := item.op, value := item.value
        left :=
          match k with
          | .assign | .binary | .ret | .unary => shownOption c m item.left
          | _ => none
        right :=
          match k with
          | .assign | .binary => shownOption c m item.right
          | _ => none
        cond :=
          match k with
          | .ifElse | .whileLoop => shownOption c m item.cond
          | _ => none
        thenItems :=
          match k with
          | .ifElse | .whileLoop => shownList c m item.thenItems
          | _ => []
        elseItems :=
          match k with
          | .ifElse => shownList c m item.elseItems
          | _ => []
        args :=
          match k with
          | .call => shownList c m item.args
          | _ => [] } := by
  intro hk
  obtain ⟨hkind, hmem, hne⟩ := NodeKind.parse?_eq_some.mp hk
  obtain ⟨kind, line, column, name, op, value, left, right, cond, thenItems, elseItems, args⟩ := item
  subst hkind
  cases k with
  | invalid => exact absurd rfl hne
  | other n => simp [NodeKind.named] at hmem
  | _ => rfl

end

end NodeItem

structure Label where
  kind : Text
  pos : Position
  name : Text
  op : Text
  value : Int32
  deriving DecidableEq

def Node.label (n : Node) : Label := ⟨n.kind.name, n.pos, n.name, n.op, n.value⟩

def NodeItem.label (c : Document) (m : MethodItem) (item : NodeItem) : Label :=
  ⟨item.boundWord c m, item.pos c, item.name, item.op, item.value⟩

/-! ## The node of an item -/

namespace Binder

variable {c : Document} {m : MethodItem}

/-- The item has a node that shows it, and the nodes from there on are those of the
items that are reached from it. -/
structure Keeps (b : Binder) (c : Document) (m : MethodItem) (item : NodeItem) (n : Node) : Prop where
  bound : b.node? item = some n
  shows : n.item = item.shown c m
  walks : n.all.map Node.label = item.reached.map (NodeItem.label c m)

theorem next_of_node? {b : Binder} {item : NodeItem} {n : Node} (h : b.node? item = some n) :
    n.next = none := by
  rw [node?_eq] at h
  obtain ⟨k, -, rfl⟩ := Option.map_eq_some_iff.mp h
  rfl

theorem nodes_eq (b : Binder) (items : List NodeItem) (done : List Node) :
    b.nodes items done = (items.filterMap b.node?).reverse ++ done := by
  induction items generalizing done with
  | nil => rfl
  | cons item items ih =>
    rw [nodes]
    cases hn : b.node? item with
    | none => rw [ih, List.filterMap_cons_none hn]
    | some n =>
      simp only [ih, List.filterMap_cons_some hn, List.reverse_cons, List.append_assoc]
      rfl

section
variable {b : Binder}

theorem keeps_option {o : Option NodeItem} (h : ∀ i ∈ o.toList, ∃ n, b.Keeps c m i n) :
    Node.itemOf (b.option o) = NodeItem.shownOption c m o ∧
      ((b.option o).toList.flatMap Node.all).map Node.label =
        (o.toList.flatMap NodeItem.reached).map (NodeItem.label c m) := by
  cases o with
  | none => exact ⟨rfl, rfl⟩
  | some item =>
    obtain ⟨n, hn⟩ := h item (by simp)
    rw [option, hn.bound, Node.itemOf, NodeItem.shownOption, hn.shows]
    simpa using hn.walks

theorem keeps_args {items : List NodeItem} (h : ∀ i ∈ items, ∃ n, b.Keeps c m i n) :
    (items.filterMap b.node?).map Node.item = NodeItem.shownList c m items ∧
      ((items.filterMap b.node?).flatMap Node.all).map Node.label =
        (items.flatMap NodeItem.reached).map (NodeItem.label c m) := by
  induction items with
  | nil => exact ⟨rfl, rfl⟩
  | cons item items ih =>
    obtain ⟨n, hn⟩ := h item (List.mem_cons_self ..)
    obtain ⟨hitems, hnodes⟩ := ih fun i hi => h i (List.mem_cons_of_mem _ hi)
    rw [List.filterMap_cons_some hn.bound]
    constructor
    · rw [List.map_cons, hn.shows, hitems, NodeItem.shownList]
    · rw [List.flatMap_cons, List.map_append, hn.walks, hnodes, List.flatMap_cons, List.map_append]

/-- A list of statements, each of which has a node, becomes a chain of these nodes. -/
theorem keeps_link {items : List NodeItem}
    (h : ∀ i ∈ items, ∃ n, b.Keeps c m i n ∧ n.kind.isStatement = true) :
    Node.chainItems (link (b.statements items [])) = NodeItem.shownList c m items ∧
      ((link (b.statements items [])).toList.flatMap Node.all).map Node.label =
        (items.flatMap NodeItem.reached).map (NodeItem.label c m) := by
  induction items with
  | nil => exact ⟨rfl, rfl⟩
  | cons item items ih =>
    obtain ⟨n, hn, hstatement⟩ := h item (List.mem_cons_self ..)
    obtain ⟨hitems, hnodes⟩ := ih fun i hi => h i (List.mem_cons_of_mem _ hi)
    rw [link_statements_cons, hn.bound]
    simp only [hstatement, ↓reduceIte]
    constructor
    · rw [Node.chainItems_cons, hn.shows, hitems, NodeItem.shownList]
    · -- what follows comes behind all that lies below
      have hwalks := hn.walks
      rw [Node.all_eq] at hwalks
      rw [Option.toList_some, List.flatMap_singleton, Node.all_eq,
        Node.children_next (next_of_node? hn.bound), List.flatMap_cons, List.map_append, ← hwalks, ← hnodes]
      simp [Node.label]

end

section
variable {item : NodeItem} {k : NodeKind} (hk : NodeKind.parse? item.kind = some k)
  (hvalue : ∀ i ∈ item.values, ∃ n, (c.binder c.declared.scope m).Keeps c m i n)
  (hblock : ∀ i ∈ item.blocks, ∃ n, (c.binder c.declared.scope m).Keeps c m i n ∧
    n.kind.isStatement = true)
include hk hvalue hblock

theorem item_bound : ((c.binder c.declared.scope m).bound k item).item = item.shown c m := by
  rw [NodeItem.values_of_known hk] at hvalue
  rw [NodeItem.blocks_of_known hk] at hblock
  rw [NodeItem.shown_of_known c m hk, Node.item_eq, ← name_boundKind c m hk]
  cases k with
  | assign | binary =>
    obtain ⟨hleft, hright⟩ := List.forall_mem_append.mp hvalue
    rw [← (keeps_option hleft).1, ← (keeps_option hright).1]
    rfl
  | ret | unary =>
    rw [← (keeps_option hvalue).1]
    rfl
  | ifElse =>
    obtain ⟨hthen, helse⟩ := List.forall_mem_append.mp hblock
    rw [← (keeps_option hvalue).1, ← (keeps_link hthen).1, ← (keeps_link helse).1]
    rfl
  | whileLoop =>
    rw [← (keeps_option hvalue).1, ← (keeps_link hblock).1]
    rfl
  | call =>
    have hargs : Node.argItems ((((c.binder c.declared.scope m).nodes item.args []).map some).reverse) =
        NodeItem.shownList c m item.args := by
      rw [nodes_eq, List.append_nil, ← List.map_reverse, List.reverse_reverse, Node.argItems_map_some]
      exact (keeps_args hvalue).1
    rw [← hargs]
    rfl
  | _ => rfl

theorem labels_bound : ((c.binder c.declared.scope m).bound k item).all.map Node.label =
    item.reached.map (NodeItem.label c m) := by
  have hlabel : ((c.binder c.declared.scope m).bound k item).label = item.label c m := by
    rw [NodeItem.label, ← name_boundKind c m hk]
    rfl
  rw [NodeItem.values_of_known hk] at hvalue
  rw [NodeItem.blocks_of_known hk] at hblock
  rw [Node.all_eq, children_bound, NodeItem.reached_eq, NodeItem.values_of_known hk,
    NodeItem.blocks_of_known hk, List.map_cons, List.map_cons, hlabel]
  congr 1
  cases k with
  | assign | binary =>
    obtain ⟨hleft, hright⟩ := List.forall_mem_append.mp hvalue
    simp only [List.flatMap_append, List.map_append, (keeps_option hleft).2, (keeps_option hright).2,
      List.flatMap_nil, List.append_nil]
  | ret | unary => simp only [(keeps_option hvalue).2, List.flatMap_nil, List.append_nil]
  | ifElse =>
    obtain ⟨hthen, helse⟩ := List.forall_mem_append.mp hblock
    simp only [List.flatMap_append, List.map_append, (keeps_option hvalue).2, (keeps_link hthen).2,
      (keeps_link helse).2]
  | whileLoop =>
    simp only [List.flatMap_append, List.map_append, (keeps_option hvalue).2, (keeps_link hblock).2]
  | call =>
    simp only [nodes_eq, List.append_nil, List.reverse_reverse, (keeps_args hvalue).2, List.flatMap_nil]
  | _ => rfl

end

section
variable (hfaults : ∀ listed item, m.Has listed item → item.fault? c m = none)
  (hplaces : ∀ item, m.Has true item → item.kind ∉ NodeKind.valueWords)

include hfaults in
theorem exists_kind {listed : Bool} {item : NodeItem} (h : m.Has listed item) :
    ∃ k, NodeKind.parse? item.kind = some k := by
  have hf := hfaults listed item h
  cases hk : NodeKind.parse? item.kind with
  | none =>
    rw [NodeItem.fault?_of_unknown c m hk] at hf
    cases hf
  | some k => exact ⟨k, rfl⟩

include hplaces in
theorem isStatement_boundKind {b : Binder} {item : NodeItem} (h : m.Has true item) {k : NodeKind}
    (hk : NodeKind.parse? item.kind = some k) : (b.boundKind k item.name).isStatement = true := by
  have hword := NodeKind.isSome_parse?.mp (by rw [hk]; rfl)
  have hstatement := (NodeKind.isStatement_iff hk).mpr
    ((List.mem_append.mp hword).resolve_right (hplaces item h))
  cases k with
  | var | const => cases hstatement
  | _ => exact hstatement

include hfaults hplaces

/-- Every item of a body without a fault has a node that keeps it. -/
theorem exists_keeps {listed : Bool} {item : NodeItem} (h : m.Has listed item) :
    ∃ n, (c.binder c.declared.scope m).Keeps c m item n ∧
      (listed = true → n.kind.isStatement = true) := by
  obtain ⟨k, hk⟩ := exists_kind hfaults h
  have hvalue : ∀ i ∈ item.values, ∃ n, (c.binder c.declared.scope m).Keeps c m i n := by
    intro i hi
    obtain ⟨n, hn, -⟩ := exists_keeps (.value h hi)
    exact ⟨n, hn⟩
  have hblock : ∀ i ∈ item.blocks, ∃ n, (c.binder c.declared.scope m).Keeps c m i n ∧
      n.kind.isStatement = true := by
    intro i hi
    obtain ⟨n, hn, hstatement⟩ := exists_keeps (.block h hi)
    exact ⟨n, hn, hstatement rfl⟩
  refine ⟨_, ⟨by rw [node?_eq, hk, Option.map_some], item_bound hk hvalue hblock,
    labels_bound hk hvalue hblock⟩, ?_⟩
  rintro rfl
  exact isStatement_boundKind hplaces h hk
termination_by sizeOf item
decreasing_by
  · exact NodeItem.sizeOf_lt_of_mem_values hi
  · exact NodeItem.sizeOf_lt_of_mem_blocks hi

end

end Binder

/-! ## The body of a method -/

def Node.Uses (n v : Node) : Prop :=
  n.cond = some v ∨ n.left = some v ∨ n.right = some v ∨ some v ∈ n.args

namespace Binder

variable {b : Binder} {k : NodeKind} {item : NodeItem} {next : Option Node}

theorem next_of_uses {v : Node} (h : ({ b.bound k item with next } : Node).Uses v) : v.next = none := by
  have hoption : ∀ {o : Option NodeItem}, b.option o = some v → v.next = none := by
    intro o ho
    cases o with
    | none => cases ho
    | some i => exact next_of_node? ho
  rcases h with h | h | h | h
  · cases k with
    | ifElse | whileLoop => exact hoption h
    | _ => cases h
  · cases k with
    | assign | binary | ret | unary => exact hoption h
    | _ => cases h
  · cases k with
    | assign | binary => exact hoption h
    | _ => cases h
  · cases k with
    | call =>
      obtain ⟨n, hn, heq⟩ := List.mem_map.mp (List.mem_reverse.mp h)
      cases heq
      obtain ⟨i, -, hi⟩ := ((b.mem_nodes).mp hn).resolve_right List.not_mem_nil
      exact next_of_node? hi
    | _ => cases h

theorem none_not_mem_args : none ∉ ({ b.bound k item with next } : Node).args := by
  intro h
  cases k with
  | call =>
    obtain ⟨n, -, hn⟩ := List.mem_map.mp (List.mem_reverse.mp h)
    cases hn
  | _ => cases h

end Binder

namespace Document

/-- A chain of nodes is the body of `m`, item by item, and nothing else. -/
structure Mirrors (c : Document) (m : MethodItem) (body : Option Node) : Prop where
  items : Node.chainItems body = m.body.map (NodeItem.shown c m)
  args : ∀ first ∈ body, ∀ n, first.Reaches n → none ∉ n.args
  values : ∀ first ∈ body, ∀ n, first.Reaches n → ∀ v, n.Uses v → v.next = none
  /-- A walk over the body visits one node for each item that is reached, in their order. -/
  walk : (body.toList.flatMap (Node.walk fun _ => true)).map Node.label =
    (m.body.flatMap NodeItem.reached).map (NodeItem.label c m)

theorem mirrors_methodDecl {c : Document} (hv : c.violations = []) {m : MethodItem} (hm : m ∈ c.methods) :
    c.Mirrors m (c.methodDecl c.declared.scope m).body := by
  obtain ⟨hfaults, hplaces⟩ := (c.violations_eq_nil.mp hv).2 m hm
  have hbody : ∀ i ∈ m.body, ∃ n, (c.binder c.declared.scope m).Keeps c m i n ∧
      n.kind.isStatement = true := by
    intro i hi
    obtain ⟨n, hn, hstatement⟩ := Binder.exists_keeps hfaults hplaces (.body hi)
    exact ⟨n, hn, hstatement rfl⟩
  have hcomes : ∀ first ∈ (c.methodDecl c.declared.scope m).body, ∀ n, first.Reaches n →
      (c.binder c.declared.scope m).Comes m n := fun first hfirst n hn =>
    (Binder.comes_of_link (fun i hi => .body hi) (Option.mem_toList.mpr hfirst)).reaches hn
  obtain ⟨hitems, hwalks⟩ := Binder.keeps_link hbody
  refine ⟨?_, fun first hfirst n hn => ?_, fun first hfirst n hn v hv => ?_, ?_⟩
  · rw [← NodeItem.shownList_eq]
    exact hitems
  · obtain ⟨listed, item, k, rest, -, -, -, rfl⟩ := hcomes first hfirst n hn
    exact Binder.none_not_mem_args
  · obtain ⟨listed, item, k, rest, -, -, -, rfl⟩ := hcomes first hfirst n hn
    exact Binder.next_of_uses hv
  · rw [← hwalks]
    exact congrArg (List.map Node.label)
      (List.flatMap_congr fun n _ => Node.walk_eq_preorder n)

/-- A resolved class has the methods of the document in their order, each with the body
that the document gives it. -/
theorem mirrors_of_resolve (c : Document) (k : ClassDecl) (h : c.resolve = .ok k) :
    List.Forall₂ (fun m d => ∃ decl, d = some decl ∧ decl.symbol = some (m.symbol c) ∧
      c.Mirrors m decl.body) c.methods k.methods := by
  obtain ⟨-, hv, rfl⟩ := resolve_eq_ok h
  have hmethods : c.classDecl.methods = c.methods.map fun m => some (c.methodDecl c.declared.scope m) := rfl
  rw [hmethods, List.forall₂_map_right_iff, List.forall₂_same]
  exact fun m hm => ⟨_, rfl, rfl, mirrors_methodDecl hv hm⟩

def branching : Document where
  file := "B.sst"
  className := "B"
  finals := [{ name := "top", value := some 9 }]
  methods := [
    { name := "m", type := "int", params := [{ name := "p" }],
      body := [
        { kind := "if", line := 2, cond := some { kind := "var", name := "top" },
          thenItems := [
            { kind := "call", line := 3, name := "m", args := [{ kind := "var", name := "p" }] },
            { kind := "assign", line := 4, left := some { kind := "var", name := "p" },
              right := some { kind := "const", name := "top" } }],
          elseItems := [{ kind := "return", line := 5 }] },
        { kind := "return", line := 6, left := some { kind := "number", value := 1 },
          right := some { kind := "number", value := 2 } }] }]

theorem mirrors_of_resolve_branching :
    ∃ k decl, branching.resolve = .ok k ∧ k.methods = [some decl] ∧
      Node.chainItems decl.body = [
        { kind := "if", line := 2, cond := some { kind := "const", name := "top" },
          thenItems := [
            { kind := "call", line := 3, name := "m", args := [{ kind := "var", name := "p" }] },
            { kind := "assign", line := 4, left := some { kind := "var", name := "p" },
              right := some { kind := "const", name := "top" } }],
          elseItems := [{ kind := "return", line := 5 }] },
        { kind := "return", line := 6, left := some { kind := "number", value := 1 } }] := by
  have hk : branching.resolve = .ok branching.classDecl := rfl
  obtain ⟨d, ds, ⟨decl, rfl, -, hdecl⟩, hrest, hmethods⟩ :=
    List.forall₂_cons_left_iff.mp (mirrors_of_resolve branching _ hk)
  obtain rfl := List.forall₂_nil_left_iff.mp hrest
  exact ⟨_, decl, hk, hmethods, hdecl.items.trans rfl⟩

end Document

end ClassForge
