import ClassForge.Proofs.MemberUses

/-!
# What bodies assign to

The target of an assignment has to be written as a variable, and that is looked at
before its name is bound. A name that means a final then makes the target a constant,
so a bound class may assign to its finals, though never to a method.
-/

namespace ClassForge

namespace Document

variable {c : Document}

theorem has_of_reaches {m : MethodDecl} {body n : Node} (hm : some m ∈ c.classDecl.methods)
    (hb : m.body = some body) (hn : body.Reaches n) :
    ∃ p ∈ c.methods, m.symbol = some (p.symbol c) ∧ ∃ listed item k next, p.Has listed item ∧
      NodeKind.parse? item.kind = some k ∧
      n = { (c.binder c.declared.scope p).bound k item with next } := by
  obtain ⟨p, hp, hm⟩ := List.mem_map.mp hm
  cases hm
  have hbody : (c.binder c.declared.scope p).Comes p body :=
    Binder.comes_of_link (fun i hi => .body hi) (Option.mem_toList.mpr hb)
  obtain ⟨listed, item, k, rest, hi, hk, -, rfl⟩ := hbody.reaches hn
  exact ⟨p, hp, rfl, listed, item, k, _, hi, hk, rfl⟩

/-- The name means a final in the body of `m`: no parameter or local hides it. -/
def MeansFinal (c : Document) (m : MethodItem) (name : Text) : Prop :=
  name ∉ m.ownNames ∧ name ∈ c.finals.map FinalItem.name

instance (c : Document) (m : MethodItem) (name : Text) : Decidable (c.MeansFinal m name) :=
  inferInstanceAs (Decidable (_ ∧ _))

end Document

namespace Binder

theorem boundKind_eq_assign {b : Binder} {k : NodeKind} {name : Text} :
    b.boundKind k name = .assign → k = .assign := by
  intro h
  unfold boundKind at h
  cases k with
  | var | const =>
    simp only at h
    split at h
    · split at h <;> cases h
    · cases h
  | _ => exact h

variable {c : Document} {m : MethodItem} {item : NodeItem}

/-- An item that is written as a variable and not at fault is bound to a final, and
then is a constant, or to a variable or parameter. -/
theorem bound_target (hkind : item.kind = "var") (hf : item.fault? c m = none) :
    ∃ target sym, (c.binder c.declared.scope m).node? item = some target ∧ target.name = item.name ∧
      target.sym = some sym ∧
      if c.MeansFinal m item.name then target.kind = .const ∧ sym.kind = .const
      else target.kind = .var ∧ (sym.kind = .var ∨ sym.kind = .param) := by
  have hk : NodeKind.parse? item.kind = some .var := by
    rw [hkind]
    rfl
  rw [NodeItem.fault?_of_known c m hk, NodeItem.valueFault?_eq_none] at hf
  rw [node?_eq, hk]
  refine ⟨(c.binder c.declared.scope m).bound .var item, ?_⟩
  have hbind := c.bind?_binder m item.name
  have hbound (sym : Symbol) (hsym : c.meaning? m item.name = some sym) :
      (c.binder c.declared.scope m).boundKind .var item.name =
        if sym.kind = .const then .const else .var := by
    simp only [boundKind, hbind, hsym]
  rcases c.meaning?_cases m item.name with ⟨hown, sym, hsym, hs⟩ | ⟨hown, hfinal, sym, hsym, hs⟩ |
    ⟨hown, hfinal, -, sym, hsym, hs⟩ | ⟨hown, hfinal, hglobal, -⟩ | ⟨hown, hfinal, hglobal, -⟩
  · refine ⟨sym, rfl, rfl, hbind.trans hsym, ?_⟩
    rw [if_neg fun h => h.1 hown]
    refine ⟨(hbound sym hsym).trans (if_neg ?_), hs.symm⟩
    rcases hs with hs | hs <;> simp [hs]
  · refine ⟨sym, rfl, rfl, hbind.trans hsym, ?_⟩
    rw [if_pos ⟨hown, hfinal⟩]
    exact ⟨(hbound sym hsym).trans (if_pos hs), hs⟩
  · refine ⟨sym, rfl, rfl, hbind.trans hsym, ?_⟩
    rw [if_neg fun h => hfinal h.2]
    exact ⟨(hbound sym hsym).trans (if_neg (by simp [hs])), .inl hs⟩
  -- a method, or nothing at all, would be a fault
  · simp [hown, hfinal, hglobal] at hf
  · simp [hown, hfinal, hglobal] at hf

end Binder

namespace Document

/-- Every assignment of a resolved class has a target that is bound. It is a variable
or parameter, unless its name means a final: then it is a constant. -/
theorem target_of_resolve (c : Document) (k : ClassDecl) (h : c.resolve = .ok k) (m : MethodDecl)
    (body n : Node) (hm : some m ∈ k.methods) (hb : m.body = some body) (hn : body.Reaches n)
    (hassign : n.kind = .assign) :
    ∃ p ∈ c.methods, m.symbol = some (p.symbol c) ∧
      ∃ target sym, n.left = some target ∧ target.sym = some sym ∧
        if c.MeansFinal p target.name then target.kind = .const ∧ sym.kind = .const
        else target.kind = .var ∧ (sym.kind = .var ∨ sym.kind = .param) := by
  obtain ⟨-, hv, rfl⟩ := resolve_eq_ok h
  obtain ⟨p, hp, hsymbol, listed, item, kind, next, hi, hk, rfl⟩ := has_of_reaches hm hb hn
  obtain rfl : kind = .assign := Binder.boundKind_eq_assign hassign
  have hfaults := ((c.violations_eq_nil.mp hv).2 p hp).1
  have hown := hfaults listed item hi
  rw [NodeItem.fault?_of_known c p hk, NodeItem.targetFault?_eq_none] at hown
  obtain ⟨left, hleft, hvar⟩ := hown
  have hmem : left ∈ item.values := by
    rw [NodeItem.values_of_known hk, hleft]
    exact List.mem_append_left _ (List.mem_singleton_self left)
  obtain ⟨target, sym, hnode, hname, hsym, htarget⟩ :=
    Binder.bound_target hvar (hfaults false left (.value hi hmem))
  refine ⟨p, hp, hsymbol, target, sym, ?_, hsym, ?_⟩
  · show (c.binder c.declared.scope p).option item.left = some target
    rw [hleft]
    exact hnode
  · rw [hname]
    exact htarget

def overwriting : Document where
  className := "C"
  finals := [{ name := "x", value := some 1 }]
  methods := [
    { name := "m", type := "void",
      body := [
        { kind := "assign", line := 3, column := 5, left := some { kind := "var", name := "x" },
          right := some { kind := "number", value := 2 } }] }]

theorem target_of_resolve_overwriting :
    ∃ k m body target sym, overwriting.resolve = .ok k ∧ some m ∈ k.methods ∧ m.body = some body ∧
      body.Reaches body ∧ body.kind = .assign ∧ body.left = some target ∧ target.sym = some sym ∧
        target.kind = .const ∧ sym.kind = .const := by
  have hk : overwriting.resolve = .ok overwriting.classDecl := rfl
  have hbody : ∃ m body, some m ∈ overwriting.classDecl.methods ∧ m.body = some body ∧
      body.kind = .assign ∧ ∀ target, body.left = some target → target.name = "x" :=
    ⟨_, _, List.mem_singleton_self _, rfl, rfl, fun target h => by cases h; rfl⟩
  obtain ⟨m, body, hm, hb, hassign, hname⟩ := hbody
  obtain ⟨p, hp, -, target, sym, hleft, hsym, htarget⟩ :=
    target_of_resolve overwriting _ hk m body body hm hb (.self body) hassign
  obtain rfl := List.mem_singleton.mp hp
  rw [hname target hleft, if_pos (by decide)] at htarget
  exact ⟨_, m, body, target, sym, hk, hm, hb, .self body, hassign, hleft, hsym, htarget⟩

/-- A resolved class may assign to a final. -/
theorem resolve_assigns_final :
    ∃ k m body target sym, overwriting.resolve = .ok k ∧ some m ∈ k.methods ∧ m.body = some body ∧
      body.kind = .assign ∧ body.left = some target ∧ target.kind ≠ .var ∧ target.sym = some sym ∧
        sym.kind ≠ .var ∧ sym.kind ≠ .param := by
  refine ⟨_, _, _, _, _, rfl, List.mem_singleton_self _, rfl, rfl, rfl, ?_, rfl, ?_, ?_⟩
  all_goals decide

end Document

end ClassForge
