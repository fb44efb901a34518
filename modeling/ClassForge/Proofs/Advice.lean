import ClassForge.Failure

/-!
# Advice that is filled in

A diagnostic that brings no advice gets that of its code when it is reported, in the failure
that it belongs to. Of each member of a collection it is the first diagnostic that gets it.
Neither what a failure says nor what advice it can get in all depends on what it has got.
-/

namespace ClassForge

/-! ## Advice -/

def Diagnostic.advised (d : Diagnostic) : Diagnostic :=
  { d with hints := if d.hints = [] then Code.suggestions d.code else d.hints }

theorem Diagnostic.advised_advised (d : Diagnostic) : d.advised.advised = d.advised := by
  unfold advised
  by_cases h : d.hints = []
  · simp [h]
  · simp [h]

namespace Failure

mutual

def advised : Failure → Failure
  | plain text => plain text
  | context text cause => context text cause.advised
  | diagnosed d none => diagnosed d.advised none
  | diagnosed d (some cause) => diagnosed d.advised (some cause.advised)
  | many members => many (advisedAll members)

def advisedAll : List Failure → List Failure
  | [] => []
  | f :: rest => f.advised :: advisedAll rest

end

section
variable (list : List Text → Text)

mutual

theorem message_advised : ∀ f : Failure, f.advised.message list = f.message list
  | plain _ => by rw [advised]
  | context _ cause => by rw [advised, message, message, message_advised cause]
  | diagnosed d none => by
    rw [advised, message, message]
    rfl
  | diagnosed d (some cause) => by
    rw [advised, message, message, message_advised cause]
    rfl
  | many members => by rw [advised, message, message, messages_advisedAll members]

theorem messages_advisedAll : ∀ (fs : List Failure) (done : List Text),
    messages list (advisedAll fs) done = messages list fs done
  | [], _ => by rw [advisedAll]
  | f :: rest, _ => by rw [advisedAll, messages, messages, message_advised f, messages_advisedAll rest]

end

end

mutual

theorem diagnosis?_advised : ∀ f : Failure,
    f.advised.diagnosis? = f.diagnosis?.map fun found => (found.1.advised, found.2.map advised)
  | plain _ => by simp only [advised, diagnosis?, Option.map_none]
  | context _ cause => by rw [advised, diagnosis?, diagnosis?, diagnosis?_advised cause]
  | diagnosed d none => by simp only [advised, diagnosis?, Option.map_some, Option.map_none]
  | diagnosed d (some cause) => by simp only [advised, diagnosis?, Option.map_some]
  | many members => by rw [advised, diagnosis?, diagnosis?, firstDiagnosis?_advisedAll members]

theorem firstDiagnosis?_advisedAll : ∀ fs : List Failure,
    firstDiagnosis? (advisedAll fs) =
      (firstDiagnosis? fs).map fun found => (found.1.advised, found.2.map advised)
  | [] => by simp only [advisedAll, firstDiagnosis?, Option.map_none]
  | f :: rest => by
    rw [advisedAll, firstDiagnosis?, firstDiagnosis?, diagnosis?_advised f,
      firstDiagnosis?_advisedAll rest]
    cases f.diagnosis? <;> rfl

end

/-! ## Members -/

mutual

/-- The failures of a collection from left to right, collections among them laid open. -/
def members : Failure → List Failure
  | many fs => membersOf fs
  | f => [f]

def membersOf : List Failure → List Failure
  | [] => []
  | f :: rest => f.members ++ membersOf rest

end

mutual

theorem members_advised : ∀ f : Failure, f.advised.members = f.members.map advised
  | plain _ => by simp [advised, members]
  | context _ _ => by simp [advised, members]
  | diagnosed _ none => by simp [advised, members]
  | diagnosed _ (some _) => by simp [advised, members]
  | many fs => by rw [advised, members, members, membersOf_advisedAll fs]

theorem membersOf_advisedAll : ∀ fs : List Failure,
    membersOf (advisedAll fs) = (membersOf fs).map advised
  | [] => by rw [advisedAll, membersOf, List.map_nil]
  | f :: rest => by
    rw [advisedAll, membersOf, membersOf, members_advised f, membersOf_advisedAll rest, List.map_append]

end

/-! ## What a report leaves of a failure -/

mutual

/-- The failure once its first diagnostic has got its advice. -/
def noted : Failure → Failure
  | plain text => plain text
  | context text cause => context text cause.noted
  | diagnosed d cause => diagnosed d.advised cause
  | many fs => many (notedFirst fs)

def notedFirst : List Failure → List Failure
  | [] => []
  | f :: rest => if f.diagnosis?.isSome then f.noted :: rest else f :: notedFirst rest

end

mutual

def reported : Failure → Failure
  | many fs => many (reportedAll fs)
  | f => f.noted

def reportedAll : List Failure → List Failure
  | [] => []
  | f :: rest => f.reported :: reportedAll rest

end

mutual

theorem advised_noted : ∀ f : Failure, f.noted.advised = f.advised
  | plain _ => by rw [noted]
  | context _ cause => by rw [noted, advised, advised, advised_noted cause]
  | diagnosed d none => by rw [noted, advised, advised, d.advised_advised]
  | diagnosed d (some cause) => by rw [noted, advised, advised, d.advised_advised]
  | many fs => by rw [noted, advised, advised, advisedAll_notedFirst fs]

theorem advisedAll_notedFirst : ∀ fs : List Failure, advisedAll (notedFirst fs) = advisedAll fs
  | [] => by rw [notedFirst]
  | f :: rest => by
    rw [notedFirst]
    split
    · rw [advisedAll, advisedAll, advised_noted f]
    · rw [advisedAll, advisedAll, advisedAll_notedFirst rest]

end

mutual

theorem advised_reported : ∀ f : Failure, f.reported.advised = f.advised
  | plain _ => by rw [reported, advised_noted]; exact nofun
  | context _ _ => by rw [reported, advised_noted]; exact nofun
  | diagnosed _ _ => by rw [reported, advised_noted]; exact nofun
  | many fs => by rw [reported, advised, advised, advisedAll_reportedAll fs]

theorem advisedAll_reportedAll : ∀ fs : List Failure, advisedAll (reportedAll fs) = advisedAll fs
  | [] => by rw [reportedAll]
  | f :: rest => by
    rw [reportedAll, advisedAll, advisedAll, advised_reported f, advisedAll_reportedAll rest]

end

mutual

/-- The diagnostic that got its advice is the first one. -/
theorem diagnosis?_noted : ∀ f : Failure,
    f.noted.diagnosis? = f.diagnosis?.map fun found => (found.1.advised, found.2)
  | plain _ => by simp only [noted, diagnosis?, Option.map_none]
  | context _ cause => by rw [noted, diagnosis?, diagnosis?, diagnosis?_noted cause]
  | diagnosed _ _ => by simp only [noted, diagnosis?, Option.map_some]
  | many fs => by rw [noted, diagnosis?, diagnosis?, firstDiagnosis?_notedFirst fs]

theorem firstDiagnosis?_notedFirst : ∀ fs : List Failure,
    firstDiagnosis? (notedFirst fs) =
      (firstDiagnosis? fs).map fun found => (found.1.advised, found.2)
  | [] => by simp only [notedFirst, firstDiagnosis?, Option.map_none]
  | f :: rest => by
    rw [notedFirst]
    cases hfound : f.diagnosis? with
    | none =>
      rw [if_neg (by simp), firstDiagnosis?, firstDiagnosis?, hfound, firstDiagnosis?_notedFirst rest]
    | some found =>
      rw [if_pos Option.isSome_some, firstDiagnosis?, firstDiagnosis?, diagnosis?_noted f, hfound]
      rfl

end

mutual

theorem reported_of_mem_members : ∀ (g : Failure) {f : Failure}, f ∈ g.members → f.reported = f.noted
  | plain _, f, h => by
    simp only [members, List.mem_singleton] at h
    rw [h, reported]
    exact nofun
  | context _ _, f, h => by
    simp only [members, List.mem_singleton] at h
    rw [h, reported]
    exact nofun
  | diagnosed _ _, f, h => by
    simp only [members, List.mem_singleton] at h
    rw [h, reported]
    exact nofun
  | many fs, f, h => by
    rw [members] at h
    exact reported_of_mem_membersOf fs h

theorem reported_of_mem_membersOf : ∀ (gs : List Failure) {f : Failure}, f ∈ membersOf gs → f.reported = f.noted
  | [], f, h => by
    rw [membersOf] at h
    cases h
  | g :: rest, f, h => by
    rw [membersOf, List.mem_append] at h
    rcases h with h | h
    · exact reported_of_mem_members g h
    · exact reported_of_mem_membersOf rest h

end

mutual

theorem members_reported : ∀ f : Failure, f.reported.members = f.members.map reported
  | plain _ => by simp [reported, noted, members]
  | context _ _ => by simp [reported, noted, members]
  | diagnosed _ _ => by simp [reported, noted, members]
  | many fs => by rw [reported, members, members, membersOf_reportedAll fs]

theorem membersOf_reportedAll : ∀ fs : List Failure, membersOf (reportedAll fs) = (membersOf fs).map reported
  | [] => by rw [reportedAll, membersOf, List.map_nil]
  | f :: rest => by
    rw [reportedAll, membersOf, membersOf, members_reported f, membersOf_reportedAll rest, List.map_append]

end

end Failure

end ClassForge
