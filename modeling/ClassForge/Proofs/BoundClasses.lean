import Mathlib.Data.List.Infix
import ClassForge.Proofs.Binding
import ClassForge.Proofs.Contract
import ClassForge.Proofs.Mentions

/-!
# Bound classes keep the contract

Every node of a bound body is the node of an item of the document, so an item
without a fault makes a node without a breach. What is left to the check of a
bound class is what a document may say freely: the class name, the values of the
finals and the types of the methods.
-/

namespace ClassForge

/-! ## The node of an item -/

namespace Binder

def bound (b : Binder) (k : NodeKind) (item : NodeItem) : Node where
  kind := b.boundKind k item.name
  pos := b.pos item.line item.column
  name := item.name
  op := item.op
  value := item.value
  sym :=
    match k with
    | .var | .const | .call => b.bind? item.name
    | _ => none
  left :=
    match k with
    | .assign | .binary | .ret | .unary => b.option item.left
    | _ => none
  right :=
    match k with
    | .assign | .binary => b.option item.right
    | _ => none
  cond :=
    match k with
    | .ifElse | .whileLoop => b.option item.cond
    | _ => none
  thenBranch :=
    match k with
    | .ifElse | .whileLoop => link (b.statements item.thenItems [])
    | _ => none
  elseBranch :=
    match k with
    | .ifElse => link (b.statements item.elseItems [])
    | _ => none
  args :=
    match k with
    | .call => ((b.nodes item.args []).map some).reverse
    | _ => []

variable (b : Binder)

theorem node?_eq (item : NodeItem) :
    b.node? item = (NodeKind.parse? item.kind).map fun k => b.bound k item := by
  obtain ⟨kind, line, column, name, op, value, left, right, cond, thenItems, elseItems, args⟩ := item
  rw [node?]
  cases NodeKind.parse? kind with
  | none => rfl
  | some k => cases k <;> rfl

theorem children_bound (k : NodeKind) (item : NodeItem) :
    (b.bound k item).children =
      match k with
      | .assign | .binary => (b.option item.left).toList ++ (b.option item.right).toList
      | .ret | .unary => (b.option item.left).toList
      | .ifElse =>
        (b.option item.cond).toList ++ ((link (b.statements item.thenItems [])).toList ++
          (link (b.statements item.elseItems [])).toList)
      | .whileLoop => (b.option item.cond).toList ++ (link (b.statements item.thenItems [])).toList
      | .call => (b.nodes item.args []).reverse
      | _ => [] := by
  cases k with
  | assign | binary =>
    show [] ++ [] ++ [] ++ (b.option item.left).toList ++ (b.option item.right).toList ++ [] ++ [] = _
    simp
  | ret | unary =>
    show [] ++ [] ++ [] ++ (b.option item.left).toList ++ [] ++ [] ++ [] = _
    simp
  | ifElse =>
    show (b.option item.cond).toList ++ (link (b.statements item.thenItems [])).toList ++
      (link (b.statements item.elseItems [])).toList ++ [] ++ [] ++ [] ++ [] = _
    simp
  | whileLoop =>
    show (b.option item.cond).toList ++ (link (b.statements item.thenItems [])).toList ++
      [] ++ [] ++ [] ++ [] ++ [] = _
    simp
  | call =>
    show ((b.nodes item.args []).map some).reverse.filterMap id ++ [] = _
    rw [List.append_nil, ← List.map_reverse, List.filterMap_map]
    exact List.filterMap_some
  | _ => rfl

theorem mem_nodes {items : List NodeItem} {done : List Node} {n : Node} :
    n ∈ b.nodes items done ↔ (∃ item ∈ items, b.node? item = some n) ∨ n ∈ done := by
  induction items generalizing done with
  | nil => simp [nodes]
  | cons item items ih =>
    rw [nodes]
    cases hn : b.node? item with
    | none =>
      rw [ih]
      simp [hn]
    | some x =>
      rw [ih]
      simp [hn, eq_comm, or_left_comm, or_assoc]

theorem statements_eq (items : List NodeItem) (done : List Node) :
    b.statements items done = b.statements items [] ++ done := by
  induction items generalizing done with
  | nil => rfl
  | cons item items ih =>
    rw [statements, statements]
    cases b.node? item with
    | none => exact ih done
    | some n =>
      simp only
      split
      · rw [ih, ih [n]]
        simp
      · exact ih done

theorem link_statements_cons (item : NodeItem) (items : List NodeItem) :
    link (b.statements (item :: items) []) =
      match b.node? item with
      | some n =>
        if n.kind.isStatement then some { n with next := link (b.statements items []) }
        else link (b.statements items [])
      | none => link (b.statements items []) := by
  rw [statements]
  cases b.node? item with
  | none => rfl
  | some n =>
    simp only
    split
    · rw [statements_eq, link, List.foldl_append]
      rfl
    · rfl

/-! ## The nodes of a body -/

/-- The node is that of an item of the body of `m`, followed by that of statements
of the body. -/
def Comes (m : MethodItem) (x : Node) : Prop :=
  ∃ listed item k rest, m.Has listed item ∧ NodeKind.parse? item.kind = some k ∧
    (∀ i ∈ rest, m.Has true i) ∧ x = { b.bound k item with next := link (b.statements rest []) }

variable {b} {m : MethodItem}

theorem comes_of_node? {item : NodeItem} {n : Node} (hi : m.Has false item) (hn : b.node? item = some n) :
    b.Comes m n := by
  rw [node?_eq] at hn
  obtain ⟨k, hk, rfl⟩ := Option.map_eq_some_iff.mp hn
  exact ⟨false, item, k, [], hi, hk, by simp, rfl⟩

theorem comes_of_link {items : List NodeItem} {x : Node} (hi : ∀ i ∈ items, m.Has true i)
    (h : x ∈ (link (b.statements items [])).toList) : b.Comes m x := by
  induction items with
  | nil => cases h
  | cons item items ih =>
    have hrest : ∀ i ∈ items, m.Has true i := fun i hm => hi i (List.mem_cons_of_mem _ hm)
    rw [link_statements_cons, node?_eq] at h
    cases hk : NodeKind.parse? item.kind with
    | none =>
      rw [hk] at h
      exact ih hrest h
    | some k =>
      rw [hk] at h
      simp only [Option.map_some] at h
      split at h
      · obtain rfl := List.mem_singleton.mp h
        exact ⟨true, item, k, items, hi item (List.mem_cons_self ..), hk, hrest, rfl⟩
      · exact ih hrest h

theorem comes_of_option {o : Option NodeItem} {n : Node} (ho : ∀ i ∈ o.toList, m.Has false i)
    (h : n ∈ (b.option o).toList) : b.Comes m n := by
  cases o with
  | none => cases h
  | some item =>
    refine comes_of_node? (ho item (by simp)) ?_
    simpa [option] using h

/-- The children of a node are nodes of items that its item uses. -/
theorem comes_of_mem_children {listed : Bool} {item : NodeItem} {k : NodeKind} {y : Node}
    (hi : m.Has listed item) (hk : NodeKind.parse? item.kind = some k)
    (hy : y ∈ (b.bound k item).children) : b.Comes m y := by
  have hvalues : ∀ i ∈ item.values, m.Has false i := fun i h => .value hi h
  have hblocks : ∀ i ∈ item.blocks, m.Has true i := fun i h => .block hi h
  rw [NodeItem.values_of_known hk] at hvalues
  rw [NodeItem.blocks_of_known hk] at hblocks
  rw [children_bound] at hy
  cases k with
  | assign | binary =>
    rcases List.mem_append.mp hy with hy | hy
    · exact comes_of_option (fun i h => hvalues i (List.mem_append_left _ h)) hy
    · exact comes_of_option (fun i h => hvalues i (List.mem_append_right _ h)) hy
  | ret | unary => exact comes_of_option hvalues hy
  | ifElse =>
    rcases List.mem_append.mp hy with hy | hy
    · exact comes_of_option hvalues hy
    rcases List.mem_append.mp hy with hy | hy
    · exact comes_of_link (fun i h => hblocks i (List.mem_append_left _ h)) hy
    · exact comes_of_link (fun i h => hblocks i (List.mem_append_right _ h)) hy
  | whileLoop =>
    rcases List.mem_append.mp hy with hy | hy
    · exact comes_of_option hvalues hy
    · exact comes_of_link hblocks hy
  | call =>
    obtain ⟨part, hp, hn⟩ := ((b.mem_nodes).mp (List.mem_reverse.mp hy)).resolve_right (by simp)
    exact comes_of_node? (hvalues part hp) hn
  | _ => cases hy

theorem Comes.reaches {x y : Node} (hx : b.Comes m x) (h : x.Reaches y) : b.Comes m y := by
  induction h with
  | self => exact hx
  | child hc _ ih =>
    refine ih ?_
    obtain ⟨listed, item, k, rest, hi, hk, hrest, rfl⟩ := hx
    -- what follows a node is not below its item
    rw [Node.children, List.mem_append] at hc
    rcases hc with hc | hc
    · refine comes_of_mem_children hi hk ?_
      rw [Node.children, List.mem_append]
      exact .inl hc
    · exact comes_of_link hrest hc

end Binder

/-! ## Breaches of nodes -/

namespace Node

variable {n : Node} {sym : Symbol}

theorem breach?_of_var (hk : n.kind = .var) (hs : n.sym = some sym) : n.breach? = none := by
  simp [breach?, hk, hs]

theorem breach?_of_const (hk : n.kind = .const) (hs : n.sym = some sym) (h : sym.kind = .const) :
    n.breach? = none := by
  simp [breach?, hk, hs, h]

theorem breach?_of_call (hk : n.kind = .call) (hs : n.sym = some sym) (h : sym.kind = .proc) :
    n.breach? = none := by
  simp [breach?, hk, hs, h]

end Node

namespace Binder

section
variable {c : Document} {m : MethodItem} {item : NodeItem}

/-- A value that is not at fault means a declaration, and a constant a final. -/
theorem breach?_value {k : NodeKind} {n : Node} (hk : k = .var ∨ k = .const)
    (hkind : n.kind = (c.binder c.declared.scope m).boundKind k item.name)
    (hsym : n.sym = c.meaning? m item.name) (hword : item.kind = k.name)
    (h : item.valueFault? c m = none) : n.breach? = none := by
  unfold NodeItem.valueFault? at h
  cases hm : c.meaning? m item.name with
  | none => simp [hm] at h
  | some sym =>
    rw [hm] at hsym
    by_cases hs : sym.kind = .const
    · refine Node.breach?_of_const (hkind.trans ?_) hsym hs
      rcases hk with rfl | rfl <;> simp [boundKind, Document.bind?_binder, hm, hs]
    · rcases hk with rfl | rfl
      · refine Node.breach?_of_var (hkind.trans ?_) hsym
        simp [boundKind, Document.bind?_binder, hm, hs]
      · have hconst : item.kind = "const" := hword
        simp only [hm, hs, hconst, true_and, not_false_eq_true, ne_eq, ↓reduceIte] at h
        split at h <;> cases h

theorem breach?_bound {k : NodeKind} (hk : NodeKind.parse? item.kind = some k)
    (h : item.fault? c m = none) (next : Option Node) :
    { (c.binder c.declared.scope m).bound k item with next }.breach? = none := by
  obtain ⟨hword, hmem, hne⟩ := NodeKind.parse?_eq_some.mp hk
  rw [NodeItem.fault?_of_known c m hk] at h
  cases k with
  | var => exact breach?_value (.inl rfl) rfl (c.bind?_binder m item.name) hword h
  | const => exact breach?_value (.inr rfl) rfl (c.bind?_binder m item.name) hword h
  | call =>
    unfold NodeItem.callFault? at h
    cases hm : c.meaning? m item.name with
    | none => simp [hm] at h
    | some sym =>
      by_cases hs : sym.kind = .proc
      · exact Node.breach?_of_call rfl ((c.bind?_binder m item.name).trans hm) hs
      · simp [hm, hs] at h
  | invalid => exact absurd rfl hne
  | other n => simp [NodeKind.named] at hmem
  | _ => rfl

end

end Binder

/-! ## Resolved classes -/

namespace Text

theorem hasPart_iff (part t : Text) : hasPart part t = true ↔ part <:+: t := by
  induction t with
  | nil => simp [hasPart]
  | cons b t ih => rw [hasPart, Bool.or_eq_true, ih, List.isPrefixOf_iff_prefix, List.infix_cons_iff]

end Text

def MethodItem.Returns (m : MethodItem) : Prop := m.type = "int" ∨ m.type = "void"

instance (m : MethodItem) : Decidable m.Returns := inferInstanceAs (Decidable (_ ∨ _))

namespace Document

/-- The class name has a part that no file name has. -/
def HasPath (c : Document) : Prop :=
  47 ∈ c.className ∨ 92 ∈ c.className ∨ Text.ofString ".." <:+: c.className

instance (c : Document) : Decidable c.HasPath := inferInstanceAs (Decidable (_ ∨ _))

def pathBreach (c : Document) : Diagnostic :=
  { code := "E0910", message := "class name " ++ c.className.quote ++ " is not a plain identifier",
    file := c.file, line := c.line, notes := ["the class name becomes the output file name"] }

def valueBreach (c : Document) (f : FinalItem) : Diagnostic :=
  { code := "E0910", message := "final " ++ f.name ++ " carries no constant value",
    file := c.file, line := f.line }

def returnBreach (c : Document) (m : MethodItem) : Diagnostic :=
  { code := "E0911",
    message := "method " ++ m.name ++ " has unclassifiable return type " ++
      (if m.type = "bool" ∨ m.type = "boolean" then "bool" else "unknown" : Text),
    file := c.file, line := m.line }

/-- What a document may say without a fault and yet against the contract. -/
def breaches (c : Document) : List Diagnostic :=
  (if c.HasPath then [c.pathBreach] else []) ++
    (c.finals.filter fun f => f.value = none).map c.valueBreach ++
    (c.methods.filter fun m => ¬ m.Returns).map c.returnBreach

/-! The parts of the check, one after the other. -/

theorem isPlainName_iff (c : Document) : ClassDecl.isPlainName c.className = true ↔ ¬ c.HasPath := by
  simp [ClassDecl.isPlainName, HasPath, ← Text.hasPart_iff, and_assoc]

def symbol (c : Document) : Symbol := { name := c.className, kind := .classSym, pos := c.pos c.line }

theorem ownBreaches_classDecl (c : Document) :
    c.classDecl.ownBreaches c.symbol = if c.HasPath then [c.pathBreach] else [] := by
  have hown : c.classDecl.ownBreaches c.symbol =
    (if ClassDecl.isPlainName c.className = true then [] else [c.pathBreach]) := List.append_nil _
  simp only [hown, isPlainName_iff]
  by_cases h : c.HasPath
  · simp only [h, not_true_eq_false, ↓reduceIte]
  · simp only [h, not_false_eq_true, ↓reduceIte]

theorem finalBreaches_classDecl (c : Document) :
    c.classDecl.finals.filterMap c.classDecl.finalBreach? =
      (c.finals.filter fun f => f.value = none).map c.valueBreach := by
  have hfinal : ∀ f : FinalItem, c.classDecl.finalBreach? (some (f.symbol c)) =
      if f.value = none then some (c.valueBreach f) else none := by
    intro f
    cases hv : f.value with
    | none =>
      simp only [ClassDecl.finalBreach?, FinalItem.symbol, hv]
      rfl
    | some v => simp [ClassDecl.finalBreach?, FinalItem.symbol, hv]
  have hcomp : (c.classDecl.finalBreach? ∘ fun f => some (f.symbol c)) =
    fun f => if f.value = none then some (c.valueBreach f) else none := funext hfinal
  show (c.finals.map fun f => some (f.symbol c)).filterMap _ = _
  rw [List.filterMap_map, hcomp]
  induction c.finals with
  | nil => rfl
  | cons f fs ih => by_cases hv : f.value = none <;> simp [hv, ih]

theorem globalBreaches_classDecl (c : Document) :
    c.classDecl.globals.filterMap c.classDecl.globalBreach? = [] := by
  rw [List.filterMap_eq_nil_iff]
  intro v hv
  obtain ⟨item, -, rfl⟩ := List.mem_map.mp hv
  rfl

theorem bodyBreaches_methodDecl {c : Document} (hv : c.violations = []) {m : MethodItem} (hm : m ∈ c.methods) :
    ((c.methodDecl c.declared.scope m).body.toList.flatMap fun body =>
      body.all.filterMap Node.breach?) = [] := by
  obtain ⟨-, hfaults⟩ := c.violations_eq_nil.mp hv
  simp only [List.flatMap_eq_nil_iff, List.filterMap_eq_nil_iff, Node.mem_all]
  intro body hb x hx
  have hbody : (c.binder c.declared.scope m).Comes m body :=
    Binder.comes_of_link (fun i hi => .body hi) hb
  obtain ⟨listed, item, k, rest, hi, hk, -, rfl⟩ := hbody.reaches hx
  exact Binder.breach?_bound hk ((hfaults m hm).1 listed item hi) _

theorem returnType_symbol (c : Document) (m : MethodItem) :
    (m.Returns ∧ ∃ r, (m.symbol c).returnType = .ok r) ∨
      (¬ m.Returns ∧ (m.symbol c).returnType = .error (c.returnBreach m)) := by
  have htype : (m.symbol c).type = (ValueType.parse? m.type).getD .unknown := rfl
  unfold Symbol.returnType
  rw [htype, ValueType.parse?]
  by_cases hvoid : m.type = "void"
  · exact .inl ⟨.inr hvoid, .void, by rw [if_pos hvoid]; rfl⟩
  by_cases hint : m.type = "int"
  · exact .inl ⟨.inl hint, .int, by rw [if_neg hvoid, if_pos hint]; rfl⟩
  refine .inr ⟨fun hr => hr.elim hint hvoid, ?_⟩
  rw [if_neg hvoid, if_neg hint]
  by_cases hbool : m.type = "bool" ∨ m.type = "boolean"
  · rw [returnBreach, if_pos hbool, if_pos (by simpa using hbool)]
    rfl
  · rw [returnBreach, if_neg hbool, if_neg (by simpa using hbool)]
    rfl

theorem methodBreaches_classDecl {c : Document} (hv : c.violations = []) :
    c.classDecl.methods.flatMap c.classDecl.methodBreaches =
      (c.methods.filter fun m => ¬ m.Returns).map c.returnBreach := by
  have hmethod : ∀ m ∈ c.methods, c.classDecl.methodBreaches (some (c.methodDecl c.declared.scope m)) =
      if m.Returns then [] else [c.returnBreach m] := by
    intro m hm
    show (c.methodDecl c.declared.scope m).breachesOf (m.symbol c) = _
    rw [MethodDecl.breachesOf, bodyBreaches_methodDecl hv hm]
    rcases returnType_symbol c m with ⟨hr, r, hret⟩ | ⟨hr, hret⟩
    · rw [hret, if_pos hr]
      rfl
    · rw [hret, if_neg hr]
      rfl
  show (c.methods.map fun m => some (c.methodDecl c.declared.scope m)).flatMap _ = _
  rw [List.flatMap_map]
  generalize c.methods = ms at hmethod
  induction ms with
  | nil => rfl
  | cons m ms ih =>
    rw [List.flatMap_cons, hmethod m (List.mem_cons_self ..),
      ih fun m' hm' => hmethod m' (List.mem_cons_of_mem _ hm')]
    by_cases hr : m.Returns <;> simp [hr]

theorem breaches_classDecl {c : Document} (hv : c.violations = []) :
    c.classDecl.breaches c.symbol = c.breaches := by
  rw [ClassDecl.breaches, ownBreaches_classDecl, finalBreaches_classDecl, globalBreaches_classDecl,
    methodBreaches_classDecl hv, List.append_nil]
  rfl

theorem check_classDecl {c : Document} (hn : c.className ≠ []) (hv : c.violations = []) :
    c.classDecl.check =
      if c.breaches = [] then none
      else some (.many (c.breaches.map fun d => .diagnosed d none)) := by
  rw [← Failure.ofList?_diagnosed, ← breaches_classDecl hv]
  show (if c.className = [] then _ else _) = _
  rw [if_neg hn]
  rfl

theorem breaches_eq_nil (c : Document) : c.breaches = [] ↔
    ¬ c.HasPath ∧ (∀ f ∈ c.finals, f.value ≠ none) ∧ ∀ m ∈ c.methods, m.Returns := by
  simp only [breaches, List.append_eq_nil_iff, List.map_eq_nil_iff, List.filter_eq_nil_iff,
    decide_eq_true_eq, not_not, and_assoc]
  by_cases h : c.HasPath
  · simp [h]
  · simp [h]

theorem resolve_eq_ok {c : Document} {k : ClassDecl} (h : c.resolve = .ok k) :
    c.className ≠ [] ∧ c.violations = [] ∧ k = c.classDecl := by
  have hn : c.className ≠ [] := by
    intro hn
    rw [resolve, if_pos hn] at h
    cases h
  rw [resolve_eq c hn] at h
  split at h
  · rename_i hv
    cases h
    exact ⟨hn, hv, rfl⟩
  · cases h

/-- A class that a document resolves to breaks the contract by what the document may
say freely and by nothing else. -/
theorem check_of_resolve (c : Document) (k : ClassDecl) (h : c.resolve = .ok k) :
    k.check = (if c.breaches = [] then none
      else some (.many (c.breaches.map fun d => .diagnosed d none))) ∧
    (k.check = none ↔ ¬ c.HasPath ∧ (∀ f ∈ c.finals, f.value ≠ none) ∧ ∀ m ∈ c.methods, m.Returns) := by
  obtain ⟨hn, hv, rfl⟩ := resolve_eq_ok h
  rw [check_classDecl hn hv, ← breaches_eq_nil]
  refine ⟨rfl, ?_⟩
  by_cases hb : c.breaches = []
  · simp [hb]
  · simp [hb]

theorem check_of_resolve_sample :
    ∃ k, (sample []).resolve = .ok k ∧
      k.check = some (.many [.diagnosed
        { code := "E0910", message := "final limit carries no constant value" } none]) := by
  have hk : ∃ k, (sample []).resolve = .ok k := ⟨_, rfl⟩
  obtain ⟨k, hk⟩ := hk
  exact ⟨k, hk, (check_of_resolve _ k hk).1.trans rfl⟩

end Document

end ClassForge
