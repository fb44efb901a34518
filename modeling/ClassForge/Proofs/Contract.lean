import Mathlib.Data.List.Basic
import ClassForge.ClassDecl.Breaches

/-!
# Classes that pass their check

The outline of a class skips what is missing. In a class that passes its check
nothing is, so the outline has every final, global and method of the
declaration, in its order.
-/

namespace ClassForge

namespace ClassDecl

theorem check_eq_none {c : ClassDecl} :
    c.check = none ↔ ∃ symbol, c.symbol = some symbol ∧ symbol.name ≠ [] ∧ c.breaches symbol = [] := by
  unfold check
  cases hc : c.symbol with
  | none => simp
  | some symbol =>
    by_cases hn : symbol.name = []
    · simp [hn]
    · simp only [hn, ↓reduceIte, Option.some.injEq, exists_eq_left', ne_eq, not_false_eq_true, true_and]
      cases hb : c.breaches symbol with
      | nil => simp [Failure.ofList?]
      | cons d ds => simp [Failure.ofList?]

/-! ## The breaches of one part -/

theorem isSome_of_finalBreach? {c : ClassDecl} {f : Option Symbol} (h : c.finalBreach? f = none) :
    f.isSome := by
  cases f with
  | none => simp [finalBreach?] at h
  | some f => rfl

theorem isSome_of_globalBreach? {c : ClassDecl} {v : Option Symbol} (h : c.globalBreach? v = none) :
    v.isSome := by
  cases v with
  | none => simp [globalBreach?] at h
  | some v => rfl

end ClassDecl

/-- A method without a breach has a signature: its symbol, its scope and its
return type are there. -/
theorem MethodDecl.isSome_signature? {m : MethodDecl} {proc : Symbol} (hs : m.symbol = some proc)
    (h : m.breachesOf proc = []) : m.signature?.isSome := by
  simp only [breachesOf, List.append_eq_nil_iff] at h
  obtain ⟨⟨⟨-, hreturns⟩, hscope⟩, -⟩ := h
  rw [signature?, hs, Option.bind_some, signature]
  cases hsc : m.scope with
  | none => simp [hsc] at hscope
  | some scope =>
    cases hr : proc.returnType with
    | error d => simp [hr] at hreturns
    | ok returns => rfl

namespace ClassDecl

theorem isSome_of_methodBreaches {c : ClassDecl} {m : Option MethodDecl} (h : c.methodBreaches m = []) :
    (m.bind MethodDecl.signature?).isSome := by
  cases m with
  | none => simp [methodBreaches] at h
  | some m =>
    unfold methodBreaches at h
    cases hs : m.symbol with
    | none => simp [hs] at h
    | some proc =>
      simp only [hs] at h
      exact MethodDecl.isSome_signature? hs h

/-! ## Nothing is missing -/

/-- These are the finals, the globals and the signatures of the methods, and no
part is missing. -/
structure HasParts (c : ClassDecl) (finals globals : List Symbol) (methods : List Signature) : Prop where
  finals : c.finals = finals.map some
  globals : c.globals = globals.map some
  methods : c.methods.map (·.bind MethodDecl.signature?) = methods.map some

theorem exists_map_some {α : Type} : ∀ {l : List (Option α)}, (∀ x ∈ l, x.isSome) →
    ∃ l' : List α, l = l'.map some
  | [], _ => ⟨[], rfl⟩
  | none :: _, h => absurd (h none (List.mem_cons_self ..)) (by simp)
  | some x :: l, h => by
    obtain ⟨l', rfl⟩ := exists_map_some fun y hy => h y (List.mem_cons_of_mem _ hy)
    exact ⟨x :: l', rfl⟩

theorem hasParts_of_check {c : ClassDecl} (h : c.check = none) :
    ∃ finals globals methods, c.HasParts finals globals methods := by
  obtain ⟨symbol, -, -, hb⟩ := check_eq_none.mp h
  simp only [breaches, List.append_eq_nil_iff, List.filterMap_eq_nil_iff, List.flatMap_eq_nil_iff] at hb
  obtain ⟨⟨⟨-, hf⟩, hg⟩, hm⟩ := hb
  obtain ⟨fs, hfs⟩ := exists_map_some fun f hmem => isSome_of_finalBreach? (hf f hmem)
  obtain ⟨gs, hgs⟩ := exists_map_some fun v hmem => isSome_of_globalBreach? (hg v hmem)
  have hsig : ∀ x ∈ c.methods.map (·.bind MethodDecl.signature?), x.isSome := by
    intro x hx
    obtain ⟨m, hmem, rfl⟩ := List.mem_map.mp hx
    exact isSome_of_methodBreaches (hm m hmem)
  obtain ⟨ms, hms⟩ := exists_map_some hsig
  exact ⟨fs, gs, ms, hfs, hgs, hms⟩

end ClassDecl

def Symbol.final (s : Symbol) : Final := ⟨s.name, s.value⟩

namespace ClassDecl.HasParts

variable {c : ClassDecl} {finals globals : List Symbol} {methods : List Signature}

theorem outline_finals (h : c.HasParts finals globals methods) :
    c.outline.finals = finals.map Symbol.final := by
  show c.finals.filterMap _ = _
  rw [h.finals, List.filterMap_map]
  exact congrFun (List.filterMap_eq_map (f := Symbol.final)) finals

theorem outline_globals (h : c.HasParts finals globals methods) :
    c.outline.globals = globals.map Symbol.name := by
  show c.globals.filterMap _ = _
  rw [h.globals, List.filterMap_map]
  exact congrFun (List.filterMap_eq_map (f := Symbol.name)) globals

theorem outline_methods (h : c.HasParts finals globals methods) : c.outline.methods = methods := by
  show c.methods.filterMap _ = _
  have := congrArg (List.filterMap id) h.methods
  rwa [List.filterMap_map, List.filterMap_map, Function.id_comp, Function.id_comp,
    List.filterMap_some] at this

end ClassDecl.HasParts

end ClassForge
