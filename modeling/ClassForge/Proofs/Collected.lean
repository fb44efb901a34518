import Mathlib.Data.Set.Card
import ClassForge.Proofs.Walks

/-!
# Collected references

References keep their names twice, in a row and for look-up. Both say the same at every
moment: the names that came so far, each where it came first. So what is collected from
bodies are the names of their variables and calls in the order of a walk, less repetitions.
-/

namespace ClassForge

namespace References

/-- The names that came are `xs`: the row holds each where it came first, and the look-up
finds these and no others. -/
structure Lists (r : References) (xs : List Text) : Prop where
  names : r.names.toList = xs.eraseDups
  nodup : r.names.toList.Nodup
  contains : ∀ x, r.contains x = true ↔ x ∈ xs

theorem lists_nil : Lists {} [] where
  names := rfl
  nodup := List.nodup_nil
  contains x := by simp [contains]

theorem eraseDups_concat (xs : List Text) (x : Text) :
    (xs ++ [x]).eraseDups = xs.eraseDups ++ if x ∈ xs then [] else [x] := by
  rw [List.eraseDups_append]
  by_cases h : x ∈ xs <;> simp [List.removeAll, h, List.eraseDups_cons]

theorem Lists.insert {r : References} {xs : List Text} (h : r.Lists xs) (x : Text) :
    (r.insert x).Lists (xs ++ [x]) := by
  have hcontains (y : Text) : (r.insert x).contains y = true ↔ y ∈ xs ++ [x] := by
    rw [contains_insert, h.contains, List.mem_append, List.mem_singleton, or_comm, eq_comm]
  by_cases hx : x ∈ xs
  · have hsame : r.insert x = r := if_pos ((h.contains x).mpr hx)
    refine ⟨?_, ?_, hcontains⟩
    · rw [hsame, eraseDups_concat, if_pos hx, List.append_nil]
      exact h.names
    · rw [hsame]
      exact h.nodup
  · have hnew : (r.insert x).names = r.names.push x :=
      congrArg References.names (if_neg fun hseen => hx ((h.contains x).mp hseen))
    refine ⟨?_, ?_, hcontains⟩
    · rw [hnew, Array.toList_push, h.names, eraseDups_concat, if_neg hx]
    · rw [hnew, Array.toList_push, ← List.concat_eq_append, List.nodup_concat]
      refine ⟨?_, h.nodup⟩
      rw [h.names, List.mem_eraseDups]
      exact hx

def uses (ns : List Node) : List Text :=
  (ns.filter fun n => n.kind = .var ∨ n.kind = .call).map Node.name

theorem mem_uses {ns : List Node} {x : Text} :
    x ∈ uses ns ↔ ∃ n ∈ ns, (n.kind = .var ∨ n.kind = .call) ∧ n.name = x := by
  simp [uses, and_assoc]

theorem Lists.insertNode {r : References} {xs : List Text} (h : r.Lists xs) (n : Node) :
    (r.insertNode n).Lists (xs ++ uses [n]) := by
  unfold References.insertNode
  by_cases hk : n.kind = .var ∨ n.kind = .call
  · have huses : uses [n] = [n.name] := by simp [uses, hk]
    have href : n.kind.isReference = true := by rcases hk with hk | hk <;> rw [hk] <;> rfl
    rw [if_pos href, huses]
    exact h.insert n.name
  · have huses : uses [n] = [] := by simp [uses, hk]
    have href : ¬ n.kind.isReference = true := by
      cases hkind : n.kind <;> simp_all [NodeKind.isReference]
    rw [if_neg href, huses, List.append_nil]
    exact h

theorem Lists.insertNodes {r : References} {xs : List Text} (h : r.Lists xs) (ns : List Node) :
    (ns.foldl References.insertNode r).Lists (xs ++ uses ns) := by
  induction ns generalizing r xs with
  | nil => simpa [uses] using h
  | cons n ns ih =>
    have huses : uses (n :: ns) = uses [n] ++ uses ns := by
      rw [uses, ← List.singleton_append, List.filter_append, List.map_append]
      rfl
    rw [List.foldl_cons, huses, ← List.append_assoc]
    exact ih (h.insertNode n)

/-- What is collected from bodies is what a walk through all of them comes upon. -/
theorem lists_collect (bodies : List Node) :
    (collect bodies).Lists (uses (bodies.flatMap Node.all)) := by
  rw [collect, ← List.foldl_flatMap]
  exact lists_nil.insertNodes _

end References

def MethodDecl.Uses (m : MethodDecl) (x : Text) : Prop :=
  ∃ body a n, m.body = some body ∧ body.at? a = some n ∧ (n.kind = .var ∨ n.kind = .call) ∧ n.name = x

theorem MethodDecl.exists_uses_iff (ms : List MethodDecl) (x : Text) :
    x ∈ References.uses ((ms.filterMap MethodDecl.body).flatMap Node.all) ↔ ∃ m ∈ ms, m.Uses x := by
  simp only [References.mem_uses, List.mem_flatMap, List.mem_filterMap, Node.mem_all,
    Node.reaches_iff_at?, Uses]
  constructor
  · rintro ⟨n, ⟨body, ⟨m, hm, hbody⟩, a, ha⟩, hn⟩
    exact ⟨m, hm, body, a, n, hbody, ha, hn⟩
  · rintro ⟨m, hm, body, a, n, hbody, ha, hn⟩
    exact ⟨n, ⟨body, ⟨m, hm, hbody⟩, a, ha⟩, hn⟩

/-- The references of methods are the names of the variables and calls in their bodies, in the
order of walks through one body after the other, with all but the first of each name left out.
Constants count nowhere. -/
theorem References.collect_names (ms : List MethodDecl) :
    (collect (ms.filterMap MethodDecl.body)).names.toList =
      (((ms.flatMap fun m => m.body.toList.flatMap (Node.walk fun _ => true)).filter
        fun n => n.kind = .var ∨ n.kind = .call).map Node.name).eraseDups ∧
    (∀ x, (collect (ms.filterMap MethodDecl.body)).contains x = true ↔ ∃ m ∈ ms, m.Uses x) ∧
    (collect (ms.filterMap MethodDecl.body)).names.toList.Nodup ∧
    (collect (ms.filterMap MethodDecl.body)).names.size = {x | ∃ m ∈ ms, m.Uses x}.ncard := by
  have h := lists_collect (ms.filterMap MethodDecl.body)
  have hnodes : (ms.filterMap MethodDecl.body).flatMap Node.all =
      ms.flatMap fun m => m.body.toList.flatMap (Node.walk fun _ => true) := by
    have hall : Node.all = Node.walk fun _ => true := funext fun n => (Node.walk_eq_preorder n).symm
    rw [List.filterMap_eq_flatMap_toList, List.flatMap_assoc, hall]
  refine ⟨?_, fun x => ?_, h.nodup, ?_⟩
  · rw [h.names, hnodes]
    rfl
  · rw [h.contains, MethodDecl.exists_uses_iff]
  · have hset : {x | ∃ m ∈ ms, m.Uses x} =
        (collect (ms.filterMap MethodDecl.body)).names.toList.toFinset := by
      ext x
      rw [Set.mem_ofPred_eq, ← MethodDecl.exists_uses_iff, List.coe_toFinset, Set.mem_ofPred_eq, h.names,
        List.mem_eraseDups]
    rw [hset, Set.ncard_coe_finset, List.toFinset_card_of_nodup h.nodup, Array.length_toList]

end ClassForge
