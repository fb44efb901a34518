import ClassForge.Proofs.BoundClasses
import ClassForge.Proofs.Resolves

/-!
# Members that bodies use

A name in a body is bound by scope, while the references of a class are collected
by bare name and without the constants. Still no use of a member is left without a
reference: the node of a global is a variable and that of a method a call, so both
are collected, and a final has its reference in any case.
-/

namespace ClassForge

/-! ## Signatures of methods -/

namespace Declared

theorem symbols_addAll {syms : List Symbol} (h : (syms.map Symbol.name).Nodup) :
    (addAll {} syms).scope.symbols.toList = syms := by
  induction syms using List.reverseRecOn with
  | nil => rfl
  | append_singleton syms sym ih =>
    rw [List.map_append, List.map_singleton, ← List.concat_eq_append, List.nodup_concat] at h
    have hnew : ¬ (addAll {} syms).scope.contains sym.name = true := by
      rw [Scope.contains_eq, (holds_addAll syms).get?, Scope.isSome_find?_name]
      exact h.1
    have hadd : addAll {} (syms ++ [sym]) = (addAll {} syms).add sym := List.foldl_append
    rw [hadd, add_eq, if_neg hnew]
    show ((addAll {} syms).scope.symbols.push sym).toList = _
    rw [Array.toList_push, ih h.2]

end Declared

namespace MethodItem

def signature (m : MethodItem) : Signature :=
  ⟨m.name, m.params.length, if m.type = "int" then .int else .void⟩

theorem length_params {m : MethodItem} (c : Document) (h : m.ownNames.Nodup) :
    (m.declared c).scope.params.length = m.params.length := by
  rw [← map_ownSymbols c] at h
  have hparams : (m.declared c).scope.params = m.params.map (VarItem.symbol c .param) := by
    show (Declared.addAll {} (m.ownSymbols c)).scope.symbols.toList.filter _ = _
    rw [Declared.symbols_addAll h, ownSymbols, List.filter_append, List.filter_eq_self.mpr,
      List.filter_eq_nil_iff.mpr, List.append_nil]
    · simp [VarItem.symbol]
    · simp [VarItem.symbol]
  rw [hparams, List.length_map]

theorem returnType_of_returns {m : MethodItem} (c : Document) (h : m.Returns) :
    (m.symbol c).returnType = .ok m.signature.returns := by
  have htype : (m.symbol c).type = (ValueType.parse? m.type).getD .unknown := rfl
  have hne : Text.ofString "int" ≠ "void" := by decide
  unfold Symbol.returnType
  rw [htype, ValueType.parse?, signature]
  rcases h with hint | hvoid
  · rw [hint, if_neg hne, if_pos rfl, if_pos rfl]
    rfl
  · rw [hvoid, if_pos rfl, if_neg (Ne.symm hne)]
    rfl

theorem descriptor_signature (m : MethodItem) :
    m.signature.descriptor = "(" ++ (List.replicate m.params.length 73 : Text) ++ ")" ++
      (if m.type = "int" then "I" else "V" : Text) := by
  unfold signature Signature.descriptor
  split <;> rfl

end MethodItem

namespace Document

variable {c : Document}

theorem signature?_methodDecl {m : MethodItem} (members : Scope) (hr : m.Returns)
    (hn : m.ownNames.Nodup) : (c.methodDecl members m).signature? = some m.signature := by
  show ((m.symbol c).returnType.map fun returns =>
    (⟨m.name, (m.declared c).scope.params.length, returns⟩ : Signature)).toOption = _
  rw [m.returnType_of_returns c hr, m.length_params c hn]
  rfl

theorem outline_methods_classDecl (hr : ∀ m ∈ c.methods, m.Returns)
    (hn : ∀ m ∈ c.methods, m.ownNames.Nodup) :
    c.classDecl.outline.methods = c.methods.map MethodItem.signature := by
  show (c.methods.map fun m => some (c.methodDecl c.declared.scope m)).filterMap _ = _
  rw [List.filterMap_map, ← List.filterMap_eq_map]
  apply List.filterMap_congr
  intro m hm
  exact signature?_methodDecl _ (hr m hm) (hn m hm)

theorem outline_finals_classDecl (c : Document) :
    c.classDecl.outline.finals = c.finals.map fun f => ⟨f.name, f.value.getD 0⟩ := by
  show (c.finals.map fun f => some (f.symbol c)).filterMap _ = _
  rw [List.filterMap_map]
  exact congrFun List.filterMap_eq_map c.finals

theorem outline_globals_classDecl (c : Document) :
    c.classDecl.outline.globals = c.globals.map VarItem.name := by
  show (c.globals.map fun v => some (v.symbol c .var)).filterMap _ = _
  rw [List.filterMap_map]
  exact congrFun List.filterMap_eq_map c.globals

end Document

/-! ## Nodes that use a member -/

namespace Binder

variable {c : Document} {m : MethodItem} {item : NodeItem} {k : NodeKind} {sym : Symbol}

/-- An item without a fault that means a variable is a variable, and one that means
a method is a call. -/
theorem kind_bound (hk : NodeKind.parse? item.kind = some k) (hf : item.fault? c m = none)
    (hs : ((c.binder c.declared.scope m).bound k item).sym = some sym) :
    sym.name = item.name ∧
      (sym.kind = .var → ((c.binder c.declared.scope m).bound k item).kind = .var) ∧
      (sym.kind = .proc → ((c.binder c.declared.scope m).bound k item).kind = .call) := by
  have hword := (NodeKind.parse?_eq_some.mp hk).1
  rw [NodeItem.fault?_of_known c m hk] at hf
  have hmeans (h : (c.binder c.declared.scope m).bind? item.name = some sym) :
      c.meaning? m item.name = some sym ∧ sym.name = item.name := by
    rw [Document.bind?_binder] at h
    exact ⟨h, by simpa using List.find?_some h⟩
  cases k with
  | var =>
    obtain ⟨hm, hname⟩ := hmeans hs
    simp only [NodeItem.valueFault?, hm] at hf
    refine ⟨hname, fun hvar => ?_, fun hproc => by simp [hproc] at hf⟩
    show (c.binder c.declared.scope m).boundKind .var item.name = .var
    simp [boundKind, Document.bind?_binder, hm, hvar]
  | const =>
    obtain ⟨hm, hname⟩ := hmeans hs
    have hconst : item.kind = "const" := hword
    simp only [NodeItem.valueFault?, hm] at hf
    exact ⟨hname, fun hvar => by simp [hvar, hconst] at hf, fun hproc => by simp [hproc] at hf⟩
  | call =>
    obtain ⟨hm, hname⟩ := hmeans hs
    simp only [NodeItem.callFault?, hm] at hf
    exact ⟨hname, fun hvar => by simp [hvar] at hf, fun _ => rfl⟩
  | _ => cases hs

end Binder

theorem Node.exists_sym {n : Node} (h : n.breach? = none)
    (hk : n.kind = .var ∨ n.kind = .const ∨ n.kind = .call) : ∃ sym, n.sym = some sym := by
  cases hs : n.sym with
  | some sym => exact ⟨sym, rfl⟩
  | none => rcases hk with hk | hk | hk <;> simp [breach?, hk, hs] at h

namespace Document

variable {c : Document}

/-- The nodes of the bodies of a document without a violation are those of its
items, none of which is at fault. -/
theorem node_of_reaches (hv : c.violations = []) {m : MethodDecl} {body n : Node}
    (hm : some m ∈ c.classDecl.methods) (hb : m.body = some body) (hn : body.Reaches n) :
    ∃ item k p next, p ∈ c.methods ∧ NodeKind.parse? item.kind = some k ∧ item.fault? c p = none ∧
      n = { (c.binder c.declared.scope p).bound k item with next } := by
  obtain ⟨p, hp, hm⟩ := List.mem_map.mp hm
  cases hm
  have hbody : (c.binder c.declared.scope p).Comes p body :=
    Binder.comes_of_link (fun i hi => .body hi) (Option.mem_toList.mpr hb)
  obtain ⟨listed, item, k, rest, hi, hk, -, rfl⟩ := hbody.reaches hn
  exact ⟨item, k, p, _, hp, hk, ((c.violations_eq_nil.mp hv).2 p hp).1 listed item hi, rfl⟩

end Document

namespace Skeleton

/-- What a node of a body means has a reference in `s` if it is a member of the
class. Symbols are known by what they say, so a local that says the same as a global
is served like the global. -/
structure Serves (s : Skeleton) (c : Document) (n : Node) : Prop where
  bound : n.kind = .var ∨ n.kind = .const ∨ n.kind = .call → ∃ sym, n.sym = some sym
  named : ∀ sym, n.sym = some sym → sym.name = n.name
  global : ∀ v ∈ c.globals, n.sym = some (v.symbol c .var) →
    ∃ i, s.fieldRefs[v.name]? = some i ∧ s.pool.memberRef i = .ok (c.className, v.name, "I")
  method : ∀ m ∈ c.methods, n.sym = some (m.symbol c) →
    ∃ i, s.methodRefs[m.name]? = some i ∧ s.pool.memberRef i = .ok (c.className, m.name,
      "(" ++ (List.replicate m.params.length 73 : Text) ++ ")" ++ (if m.type = "int" then "I" else "V" : Text))
  final : ∀ (j : Nat) (f : FinalItem), c.finals[j]? = some f → n.sym = some (f.symbol c) →
    ∃ i, s.finals[j]? = some (⟨f.name, f.value.getD 0⟩, i) ∧
      s.pool.memberRef i = .ok (c.className, f.name, "I")

theorem getElem?_of_forall₂ {α β : Type} {R : α → β → Prop} {xs : List α} {ys : List β}
    (h : List.Forall₂ R xs ys) {j : Nat} {y : β} (hy : ys[j]? = some y) : ∃ x, xs[j]? = some x ∧ R x y := by
  induction h generalizing j with
  | nil => cases hy
  | cons hxy _ ih =>
    cases j with
    | zero =>
      cases hy
      exact ⟨_, rfl, hxy⟩
    | succ j => exact ih hy

section
variable {options : Options} {o : Outline} {s : Skeleton} (h : Laid options o o.progress s)
include h

theorem Laid.memberRef_global {x : Text} (hx : x ∈ o.globals) (hr : o.references.contains x = true) :
    ∃ i, s.fieldRefs[x]? = some i ∧ s.pool.memberRef i = .ok (o.name, x, "I") := by
  have hmem : x ∈ s.fieldRefs := (h.fieldKeys x).mpr (List.mem_filter.mpr ⟨hx, hr⟩)
  obtain ⟨i, hi⟩ := Std.TreeMap.mem_iff_isSome_getElem?.mp hmem |> Option.isSome_iff_exists.mp
  exact ⟨i, hi, (h.fieldRefs x i hi).member⟩

theorem Laid.memberRef_method {m : Signature} (hm : m ∈ o.methods)
    (hr : o.references.contains m.name = true) (hn : (o.methods.map Signature.name).Nodup) :
    ∃ i, s.methodRefs[m.name]? = some i ∧ s.pool.memberRef i = .ok (o.name, m.name, m.descriptor) := by
  have hmem : m.name ∈ s.methodRefs :=
    (h.methodKeys m.name).mpr ⟨m, List.mem_filter.mpr ⟨hm, hr⟩, rfl⟩
  obtain ⟨i, hi⟩ := Std.TreeMap.mem_iff_isSome_getElem?.mp hmem |> Option.isSome_iff_exists.mp
  obtain ⟨m', hm', hname, href⟩ := h.methodRefs m.name i hi
  -- no other method has this name
  obtain rfl : m' = m := List.inj_on_of_nodup_map hn (List.mem_filter.mp hm').1 hm hname
  exact ⟨i, hi, href.member⟩

theorem Laid.memberRef_final {j : Nat} {f : Final} (hf : o.finals[j]? = some f) :
    ∃ i, s.finals[j]? = some (f, i) ∧ s.pool.memberRef i = .ok (o.name, f.name, "I") := by
  obtain ⟨⟨f', i⟩, hi, rfl, href⟩ := getElem?_of_forall₂ h.finals hf
  exact ⟨i, by rwa [Array.getElem?_toList] at hi, href.member⟩

end

end Skeleton

namespace Document

variable {c : Document}

/-- What a body means by a name it is bound to is mentioned if it is a variable or a
method. -/
theorem mentions_of_sym (hv : c.violations = []) {m : MethodDecl} {body n : Node} {sym : Symbol}
    (hm : some m ∈ c.classDecl.methods) (hb : m.body = some body) (hn : body.Reaches n)
    (hs : n.sym = some sym) :
    sym.name = n.name ∧ (sym.kind = .var ∨ sym.kind = .proc → c.classDecl.Mentions sym.name) := by
  obtain ⟨item, k, p, next, -, hk, hf, rfl⟩ := node_of_reaches hv hm hb hn
  obtain ⟨hname, hvar, hproc⟩ := Binder.kind_bound hk hf hs
  exact ⟨hname, fun hkind => ⟨m, body, _, hm, hb, hn, hkind.imp hvar hproc, hname.symm⟩⟩

/-- Every use of a member in a body of a resolved class has a reference, and there
is a reference by name only for what is used. -/
theorem serves_of_build (c : Document) (k : ClassDecl) (hk : c.resolve = .ok k) (options : Options)
    (s : Skeleton) (hs : (Skeleton.build options k).1 = .ok s) :
    (∀ m body n, some m ∈ k.methods → m.body = some body → body.Reaches n → s.Serves c n) ∧
      ∀ x, x ∈ s.fieldRefs ∨ x ∈ s.methodRefs → k.Mentions x := by
  obtain ⟨hname, hv, rfl⟩ := resolve_eq_ok hk
  obtain ⟨hcheck, -⟩ := Skeleton.build_ok hs
  obtain ⟨-, -, -, -, hl, -⟩ := Skeleton.laid_of_build hs
  have hbound := c.wellBound_iff.mpr hv
  have hmethods : c.classDecl.outline.methods = c.methods.map MethodItem.signature := by
    rw [check_classDecl hname hv] at hcheck
    have hbreaches : c.breaches = [] := by
      by_contra hb
      rw [if_neg hb] at hcheck
      cases hcheck
    exact outline_methods_classDecl (c.breaches_eq_nil.mp hbreaches).2.2 hbound.locals
  have href (x : Text) : c.classDecl.outline.references.contains x = true ↔ c.classDecl.Mentions x :=
    c.classDecl.contains_references x
  refine ⟨fun m body n hm hb hn => ?_, fun x hx => ?_⟩
  · have hmentions {sym : Symbol} (hs : n.sym = some sym) := mentions_of_sym hv hm hb hn hs
    exact {
      bound := by
        obtain ⟨item, k, p, next, -, hk, hf, rfl⟩ := node_of_reaches hv hm hb hn
        exact Node.exists_sym (Binder.breach?_bound hk hf next)
      named := fun sym hs => (hmentions hs).1
      global := by
        intro v hmem hsym
        refine hl.memberRef_global ?_ ((href _).mpr ((hmentions hsym).2 (.inl rfl)))
        rw [outline_globals_classDecl]
        exact List.mem_map_of_mem hmem
      method := by
        intro p hmem hsym
        rw [← p.descriptor_signature]
        refine hl.memberRef_method (m := p.signature) ?_ ((href _).mpr ((hmentions hsym).2 (.inr rfl))) ?_
        · rw [hmethods]
          exact List.mem_map_of_mem hmem
        · rw [hmethods, List.map_map]
          exact (List.nodup_append.mp hbound.members).2.1
      final := by
        intro j f hj _
        refine hl.memberRef_final (f := ⟨f.name, f.value.getD 0⟩) ?_
        rw [outline_finals_classDecl, List.getElem?_map, hj]
        rfl }
  · refine (href x).mp ?_
    rcases hx with hx | hx
    · exact (List.mem_filter.mp ((hl.fieldKeys x).mp hx)).2
    · obtain ⟨m, hm, rfl⟩ := (hl.methodKeys x).mp hx
      exact (List.mem_filter.mp hm).2

def usage : Document where
  className := "K"
  finals := [{ name := "limit", value := some 5 }]
  globals := [{ name := "n" }]
  methods := [
    { name := "run", type := "void",
      body := [{ kind := "call", name := "step", args := [{ kind := "var", name := "n" }] }] },
    { name := "step", type := "int", params := [{ name := "n" }],
      body := [
        { kind := "assign", left := some { kind := "var", name := "n" },
          right := some { kind := "const", name := "limit" } }] }]

theorem serves_of_build_usage :
    ∃ k s, usage.resolve = .ok k ∧ (Skeleton.build {} k).1 = .ok s ∧
      ∃ m body, some m ∈ k.methods ∧ m.body = some body ∧
        body.sym = some { name := "step", kind := .proc, type := .int } ∧
        ∃ i, s.methodRefs[Text.ofString "step"]? = some i ∧
          s.pool.memberRef i = .ok ("K", "step", "(I)I") := by
  have hk : usage.resolve = .ok usage.classDecl := rfl
  have hs : ∃ s, (Skeleton.build {} usage.classDecl).1 = .ok s := ⟨_, rfl⟩
  obtain ⟨s, hs⟩ := hs
  have hbody : ∃ m body, some m ∈ usage.classDecl.methods ∧ m.body = some body ∧
      body.sym = some { name := "step", kind := .proc, type := .int } :=
    ⟨_, _, List.mem_cons_self .., rfl, rfl⟩
  obtain ⟨m, body, hm, hb, hsym⟩ := hbody
  have hserves := (serves_of_build usage _ hk {} s hs).1 m body body hm hb (.self body)
  exact ⟨_, s, hk, hs, m, body, hm, hb, hsym,
    hserves.method { name := "step", type := "int", params := [{ name := "n" }], body := _ }
      (List.mem_cons_of_mem _ (List.mem_cons_self ..)) hsym⟩

end Document

end ClassForge
