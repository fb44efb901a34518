import ClassForge.Failure

/-!
# The chain of a failure

Whether a failure has a code or a kind is asked of the first diagnostic of its chain only.
So the answer is right for the whole chain exactly if all diagnostics in it agree: one that
stands below another, or behind it in a collection, is not seen.
-/

namespace ClassForge

namespace Failure

mutual

/-- The diagnostics of the chain, from the outside in and from left to right. -/
def chain : Failure → List Diagnostic
  | plain _ => []
  | context _ cause => cause.chain
  | diagnosed d none => [d]
  | diagnosed d (some cause) => d :: cause.chain
  | many members => chainOf members

def chainOf : List Failure → List Diagnostic
  | [] => []
  | f :: rest => f.chain ++ chainOf rest

end

mutual

theorem head?_chain : ∀ f : Failure, f.chain.head? = f.diagnosis?.map Prod.fst
  | plain _ => by simp only [chain, diagnosis?, List.head?_nil, Option.map_none]
  | context _ cause => by
    rw [chain, diagnosis?]
    exact head?_chain cause
  | diagnosed d none => by simp only [chain, diagnosis?, List.head?_cons, Option.map_some]
  | diagnosed d (some cause) => by simp only [chain, diagnosis?, List.head?_cons, Option.map_some]
  | many members => by
    rw [chain, diagnosis?]
    exact head?_chainOf members

theorem head?_chainOf : ∀ fs : List Failure, (chainOf fs).head? = (firstDiagnosis? fs).map Prod.fst
  | [] => by simp only [chainOf, firstDiagnosis?, List.head?_nil, Option.map_none]
  | f :: rest => by
    -- a member without a diagnostic has an empty chain, and the next one is asked
    rw [chainOf, List.head?_append, head?_chain f, head?_chainOf rest, firstDiagnosis?]
    cases f.diagnosis? <;> rfl

end

theorem hasCode_iff_head? (f : Failure) (code : Text) :
    f.hasCode code = true ↔ ∃ d ∈ f.chain.head?, d.code = code := by
  rw [head?_chain, hasCode]
  cases f.diagnosis? with
  | none => simp
  | some found => simp

theorem isKind_iff_head? (f : Failure) (k : Kind) :
    f.isKind k = true ↔ ∃ d ∈ f.chain.head?, d.kind = k := by
  rw [head?_chain, isKind]
  cases f.diagnosis? with
  | none => simp
  | some found => simp

theorem head?_decides_iff {α : Type} (ds : List Diagnostic) (g : Diagnostic → α) :
    (∀ a, (∃ d ∈ ds.head?, g d = a) ↔ ∃ d ∈ ds, g d = a) ↔ ∀ d ∈ ds, ∀ e ∈ ds, g d = g e := by
  cases ds with
  | nil => simp
  | cons first rest =>
    constructor
    · intro h
      have hfirst : ∀ d ∈ first :: rest, g first = g d := by
        intro d hd
        obtain ⟨d', hd', heq⟩ := (h (g d)).mpr ⟨d, hd, rfl⟩
        cases hd'
        exact heq
      intro d hd e he
      rw [← hfirst d hd, hfirst e he]
    · intro h a
      constructor
      · rintro ⟨d, hd, rfl⟩
        cases hd
        exact ⟨first, List.mem_cons_self, rfl⟩
      · rintro ⟨d, hd, rfl⟩
        exact ⟨first, rfl, h first List.mem_cons_self d hd⟩

/-- The first diagnostic of the chain decides. What it says holds of the whole chain if
and only if no other diagnostic there has a different code, or a different kind. -/
theorem hasCode_isKind_iff_first (f : Failure) :
    (∀ code, f.hasCode code = true ↔ ∃ d ∈ f.chain.head?, d.code = code) ∧
      (∀ k, f.isKind k = true ↔ ∃ d ∈ f.chain.head?, d.kind = k) ∧
      ((∀ code, f.hasCode code = true ↔ ∃ d ∈ f.chain, d.code = code) ↔
        ∀ d ∈ f.chain, ∀ e ∈ f.chain, d.code = e.code) ∧
      ((∀ k, f.isKind k = true ↔ ∃ d ∈ f.chain, d.kind = k) ↔
        ∀ d ∈ f.chain, ∀ e ∈ f.chain, d.kind = e.kind) := by
  refine ⟨f.hasCode_iff_head?, f.isKind_iff_head?, ?_, ?_⟩
  · simp only [hasCode_iff_head?]
    exact head?_decides_iff f.chain Diagnostic.code
  · simp only [isKind_iff_head?]
    exact head?_decides_iff f.chain Diagnostic.kind

def wrapped : Failure :=
  diagnosed { code := Code.writeFailed, message := "outer" }
    (some (diagnosed { code := Code.noPushEncoding, message := "inner" } none))

/-- A diagnostic below another is in the chain, but neither its code nor its kind is seen. -/
theorem wrapped_cause_unseen :
    (∃ d ∈ wrapped.chain, d.code = Code.noPushEncoding ∧ d.kind = .format) ∧
      wrapped.hasCode Code.noPushEncoding = false ∧ wrapped.isKind .format = false := by
  refine ⟨⟨{ code := Code.noPushEncoding, message := "inner" }, ?_, rfl, ?_⟩, ?_, ?_⟩
  · simp [wrapped, chain]
  all_goals decide

end Failure

end ClassForge
