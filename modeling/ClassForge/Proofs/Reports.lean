import ClassForge.Proofs.Advice
import ClassForge.Proofs.Chains
import ClassForge.Libraries.Usual

/-!
# What a reporter shows

A collection that is handed to a reporter is laid open, and each of its members is shown and
kept as one diagnostic, in order. What is written does not depend on the advice that earlier
reports have filled in.
-/

namespace ClassForge

/-! ## One diagnostic for each member -/

namespace Reporter

section
variable (style : Style)

theorem entry_eq (f : Failure) :
    entry style f =
      match f.diagnosis? with
      | some (d, cause) => (d.advised, cause)
      | none => ({ code := [], message := f.message style.list }, none) := by
  have hadvised (d : Diagnostic) :
      (if d.hints.isEmpty then { d with hints := Code.suggestions d.code } else d) = d.advised := by
    unfold Diagnostic.advised
    by_cases h : d.hints = []
    · simp [h]
    · simp [h]
  unfold entry
  cases f.diagnosis? with
  | none => rfl
  | some found => exact congrArg (·, found.2) (hadvised found.1)

theorem entry_advised (f : Failure) :
    entry style f.advised = ((entry style f).1, (entry style f).2.map Failure.advised) := by
  rw [entry_eq, entry_eq, f.diagnosis?_advised, f.message_advised style.list]
  cases f.diagnosis? with
  | none => rfl
  | some found => simp only [Option.map_some, Diagnostic.advised_advised]

mutual

theorem entries_eq : ∀ (f : Failure) (done : List (Diagnostic × Option Failure)),
    entries style f done = (f.members.map (entry style)).reverse ++ done
  | .plain _, _ => by simp [entries, Failure.members]
  | .context _ _, _ => by simp [entries, Failure.members]
  | .diagnosed _ _, _ => by simp [entries, Failure.members]
  | .many fs, done => by rw [entries, Failure.members, entriesOf_eq fs done]

theorem entriesOf_eq : ∀ (fs : List Failure) (done : List (Diagnostic × Option Failure)),
    entriesOf style fs done = ((Failure.membersOf fs).map (entry style)).reverse ++ done
  | [], _ => by simp [entriesOf, Failure.membersOf]
  | f :: rest, done => by
    rw [entriesOf, Failure.membersOf, entries_eq f done, entriesOf_eq rest, List.map_append,
      List.reverse_append, List.append_assoc]

end

def shownText (f : Failure) : Text := style.diagnostic (entry style f).1 (entry style f).2

theorem shownText_advised (f : Failure) : shownText style f.advised = shownText style f := by
  unfold shownText
  rw [entry_advised]
  cases (entry style f).2 with
  | none => rfl
  | some cause => simp only [Option.map_some, Style.diagnostic, cause.message_advised style.list]

end

theorem appendList_append {α : Type} (xs : Array α) (a b : List α) : xs ++ (a ++ b) = xs ++ a ++ b := by
  apply Array.ext'
  simp

theorem size_append_map (style : Style) (xs : Array (Diagnostic × Option Failure)) (fs : List Failure) :
    (xs ++ fs.map (entry style)).size = xs.size + fs.length := by
  rw [← Array.length_toList, Array.toList_appendList, List.length_append, Array.length_toList,
    List.length_map]

def keep (r : Reporter) (fs : List Failure) : Text × Reporter :=
  (fs.flatMap (shownText r.style), { r with shown := r.shown ++ fs.map (entry r.style) })

theorem report_eq (r : Reporter) (f : Failure) : r.report f = r.keep f.members := by
  have hentries : (entries r.style f []).reverse = f.members.map (entry r.style) := by simp [entries_eq]
  unfold report keep
  simp only [hentries, List.flatMap_map]
  rfl

theorem keep_append (r : Reporter) (fs gs : List Failure) :
    r.keep (fs ++ gs) = ((r.keep fs).1 ++ ((r.keep fs).2.keep gs).1, ((r.keep fs).2.keep gs).2) := by
  unfold keep
  rw [List.flatMap_append, List.map_append, appendList_append]

end Reporter

/-! ## Calls -/

/-- What a reporter can be handed: a failure, nothing, or a collection of these. -/
inductive Handed where
  | nothing
  | failure (f : Failure)
  | several (members : List Handed)

namespace Handed

mutual

def members : Handed → List Failure
  | nothing => []
  | failure f => f.members
  | several hs => membersOf hs

def membersOf : List Handed → List Failure
  | [] => []
  | h :: rest => h.members ++ membersOf rest

end

mutual

def advised : Handed → Handed
  | nothing => nothing
  | failure f => failure f.advised
  | several hs => several (advisedAll hs)

def advisedAll : List Handed → List Handed
  | [] => []
  | h :: rest => h.advised :: advisedAll rest

end

mutual

def reported : Handed → Handed
  | nothing => nothing
  | failure f => failure f.reported
  | several hs => several (reportedAll hs)

def reportedAll : List Handed → List Handed
  | [] => []
  | h :: rest => h.reported :: reportedAll rest

end

mutual

theorem members_advised : ∀ h : Handed, h.advised.members = h.members.map Failure.advised
  | nothing => by rw [advised, members, List.map_nil]
  | failure f => by rw [advised, members, members, f.members_advised]
  | several hs => by rw [advised, members, members, membersOf_advisedAll hs]

theorem membersOf_advisedAll : ∀ hs : List Handed,
    membersOf (advisedAll hs) = (membersOf hs).map Failure.advised
  | [] => by rw [advisedAll, membersOf, List.map_nil]
  | h :: rest => by
    rw [advisedAll, membersOf, membersOf, members_advised h, membersOf_advisedAll rest, List.map_append]

end

mutual

theorem advised_reported : ∀ h : Handed, h.reported.advised = h.advised
  | nothing => by rw [reported]
  | failure f => by rw [reported, advised, advised, f.advised_reported]
  | several hs => by rw [reported, advised, advised, advisedAll_reportedAll hs]

theorem advisedAll_reportedAll : ∀ hs : List Handed, advisedAll (reportedAll hs) = advisedAll hs
  | [] => by rw [reportedAll]
  | h :: rest => by rw [reportedAll, advisedAll, advisedAll, advised_reported h, advisedAll_reportedAll rest]

end

mutual

theorem members_reported : ∀ h : Handed, h.reported.members = h.members.map Failure.reported
  | nothing => by rw [reported, members, List.map_nil]
  | failure f => by rw [reported, members, members, f.members_reported]
  | several hs => by rw [reported, members, members, membersOf_reportedAll hs]

theorem membersOf_reportedAll : ∀ hs : List Handed,
    membersOf (reportedAll hs) = (membersOf hs).map Failure.reported
  | [] => by rw [reportedAll, membersOf, List.map_nil]
  | h :: rest => by
    rw [reportedAll, membersOf, membersOf, members_reported h, membersOf_reportedAll rest, List.map_append]

end

mutual

theorem reported_of_mem_members {f : Failure} : ∀ h : Handed, f ∈ h.members → f.reported = f.noted
  | nothing, hf => by
    rw [members] at hf
    cases hf
  | failure g, hf => by
    rw [members] at hf
    exact g.reported_of_mem_members hf
  | several hs, hf => by
    rw [members] at hf
    exact reported_of_mem_membersOf hs hf

theorem reported_of_mem_membersOf {f : Failure} : ∀ hs : List Handed, f ∈ membersOf hs → f.reported = f.noted
  | [], hf => by
    rw [membersOf] at hf
    cases hf
  | h :: rest, hf => by
    rw [membersOf, List.mem_append] at hf
    rcases hf with hf | hf
    · exact reported_of_mem_members h hf
    · exact reported_of_mem_membersOf rest hf

end

end Handed

inductive Call where
  | report (h : Handed)
  | summary

namespace Call

def members : Call → List Failure
  | report h => h.members
  | summary => []

def advised : Call → Call
  | report h => report h.advised
  | summary => summary

/-- What a call writes when `before` diagnostics have been shown. -/
def written (style : Style) (before : Nat) : Call → Text
  | report h => h.members.flatMap (Reporter.shownText style)
  | summary =>
    match before with
    | 0 => []
    | 1 => "error: 1 error found\n"
    | n => "error: " ++ Text.ofNat n ++ " errors found\n"

def transcript (style : Style) : (before : Nat) → List Call → List Text
  | _, [] => []
  | before, c :: calls => c.written style before :: transcript style (before + c.members.length) calls

theorem members_advised (c : Call) : c.advised.members = c.members.map Failure.advised := by
  cases c with
  | report h => exact h.members_advised
  | summary => rfl

theorem members_map_advised (calls : List Call) :
    (calls.map advised).flatMap members = (calls.flatMap members).map Failure.advised := by
  induction calls with
  | nil => rfl
  | cons c calls ih =>
    rw [List.map_cons, List.flatMap_cons, List.flatMap_cons, ih, c.members_advised, List.map_append]

theorem written_advised (style : Style) (before : Nat) (c : Call) :
    c.advised.written style before = c.written style before := by
  cases c with
  | report h =>
    show h.advised.members.flatMap _ = h.members.flatMap _
    have hshown : (fun f => Reporter.shownText style f.advised) = Reporter.shownText style :=
      funext (Reporter.shownText_advised style)
    rw [h.members_advised, List.flatMap_map, hshown]
  | summary => rfl

theorem transcript_advised (style : Style) (before : Nat) (calls : List Call) :
    transcript style before (calls.map advised) = transcript style before calls := by
  induction calls generalizing before with
  | nil => rfl
  | cons c calls ih =>
    rw [List.map_cons, transcript, transcript, c.written_advised, c.members_advised, List.length_map, ih]

end Call

namespace Reporter

mutual

def hand (r : Reporter) : Handed → Text × Reporter
  | .nothing => ([], r)
  | .failure f => r.report f
  | .several hs => r.handAll hs

def handAll (r : Reporter) : List Handed → Text × Reporter
  | [] => ([], r)
  | h :: rest => ((r.hand h).1 ++ ((r.hand h).2.handAll rest).1, ((r.hand h).2.handAll rest).2)

end

mutual

theorem hand_eq : ∀ (r : Reporter) (h : Handed), r.hand h = r.keep h.members
  | r, .nothing => by simp [hand, keep, Handed.members]
  | r, .failure f => by rw [hand, report_eq, Handed.members]
  | r, .several hs => by rw [hand, Handed.members, handAll_eq r hs]

theorem handAll_eq : ∀ (r : Reporter) (hs : List Handed), r.handAll hs = r.keep (Handed.membersOf hs)
  | r, [] => by simp [handAll, keep, Handed.membersOf]
  | r, h :: rest => by rw [handAll, hand_eq r h, handAll_eq _ rest, Handed.membersOf, keep_append]

end

def call (r : Reporter) : Call → Text × Reporter
  | .report h => r.hand h
  | .summary => (r.summary, r)

def run (r : Reporter) : List Call → List Text × Reporter
  | [] => ([], r)
  | c :: calls => ((r.call c).1 :: ((r.call c).2.run calls).1, ((r.call c).2.run calls).2)

theorem summary_eq (r : Reporter) : r.summary = Call.summary.written r.style r.shown.size := by
  have hempty : r.shown.isEmpty = decide (r.shown.size = 0) := rfl
  unfold summary Call.written Style.countLine
  rw [hempty]
  match r.shown.size with
  | 0 => rfl
  | 1 => rfl
  | n + 2 =>
    rw [if_neg (by simp), if_neg (by omega), List.append_assoc]
    rfl

theorem call_eq (r : Reporter) (c : Call) :
    r.call c = (c.written r.style r.shown.size, { r with shown := r.shown ++ c.members.map (entry r.style) }) := by
  cases c with
  | report h => exact r.hand_eq h
  | summary =>
    unfold call
    rw [summary_eq]
    simp [Call.members]

theorem run_eq (r : Reporter) (calls : List Call) :
    r.run calls = (Call.transcript r.style r.shown.size calls,
      { r with shown := r.shown ++ (calls.flatMap Call.members).map (entry r.style) }) := by
  -- a call counts on from what those before it have shown
  induction calls generalizing r with
  | nil => simp [run, Call.transcript]
  | cons c calls ih =>
    rw [run, call_eq, ih, Call.transcript, List.flatMap_cons, List.map_append, appendList_append,
      size_append_map]

theorem run_new (style : Style) (calls : List Call) :
    (run { style } calls).1 = Call.transcript style 0 calls ∧ (run { style } calls).2.style = style ∧
      (run { style } calls).2.shown.toList = (calls.flatMap Call.members).map (entry style) := by
  rw [run_eq]
  refine ⟨rfl, rfl, ?_⟩
  rw [Array.toList_appendList]
  rfl

/-- The entry of a failure: the first diagnostic of its chain with what caused it, or one
without a code that has its text. -/
def Stands (style : Style) (f : Failure) (e : Diagnostic × Option Failure) : Prop :=
  match f.chain with
  | [] => e = ({ code := [], message := f.message style.list }, none)
  | d :: _ => e.1 = d.advised ∧ f.diagnosis? = some (d, e.2)

theorem stands_entry (style : Style) (f : Failure) : Stands style f (entry style f) := by
  have hhead := f.head?_chain
  unfold Stands
  rw [entry_eq]
  cases hfound : f.diagnosis? with
  | none =>
    rw [hfound, Option.map_none, List.head?_eq_none_iff] at hhead
    rw [hhead]
  | some found =>
    rw [hfound, Option.map_some, List.head?_eq_some_iff] at hhead
    obtain ⟨rest, hchain⟩ := hhead
    rw [hchain]
    exact ⟨rfl, rfl⟩

/-- What is kept is kept as it is when it is reported again. -/
theorem entry_entry (style : Style) (f : Failure) :
    entry style (.diagnosed (entry style f).1 (entry style f).2) = entry style f := by
  have hdiagnosis (d : Diagnostic) (cause : Option Failure) :
      (Failure.diagnosed d cause).diagnosis? = some (d, cause) := by rw [Failure.diagnosis?]
  have hadvised : (entry style f).1.advised = (entry style f).1 := by
    rw [entry_eq]
    cases f.diagnosis? with
    | none => rfl
    | some found => exact found.1.advised_advised
  rw [entry_eq style (.diagnosed _ _), hdiagnosis]
  simp only [hadvised]

theorem call_kept (r : Reporter) (f : Failure) :
    r.call (.report (.failure (.diagnosed (entry r.style f).1 (entry r.style f).2))) =
      (r.style.diagnostic (entry r.style f).1 (entry r.style f).2, { r with shown := r.shown.push (entry r.style f) }) := by
  have hmembers : (Failure.diagnosed (entry r.style f).1 (entry r.style f).2).members =
      [.diagnosed (entry r.style f).1 (entry r.style f).2] := rfl
  rw [call, hand, report_eq, hmembers, keep, List.flatMap_singleton, List.map_singleton, shownText,
    entry_entry]
  rfl

/-- What was reported is written again as it was. -/
theorem call_reported (r : Reporter) (h : Handed) :
    ((r.call (.report h)).2.call (.report h.reported)).1 = (r.call (.report h)).1 := by
  have hadvised : (Call.report h.reported).advised = (Call.report h).advised :=
    congrArg Call.report h.advised_reported
  have hwritten (n : Nat) : (Call.report h.reported).written r.style n = (Call.report h).written r.style n := by
    rw [← Call.written_advised, hadvised, Call.written_advised]
  rw [call_eq, call_eq]
  exact hwritten r.shown.size

/-- What is kept of a failure is what the failure has as its diagnostic afterwards. -/
theorem diagnosis?_reported (style : Style) (h : Handed) {f : Failure} (hf : f ∈ h.members) :
    f.reported.diagnosis? = f.diagnosis?.map fun _ => entry style f := by
  rw [h.reported_of_mem_members hf, f.diagnosis?_noted, entry_eq]
  cases f.diagnosis? <;> rfl

theorem map_fst_entry_advised (style : Style) (fs : List Failure) :
    ((fs.map Failure.advised).map (entry style)).map Prod.fst = (fs.map (entry style)).map Prod.fst := by
  induction fs with
  | nil => rfl
  | cons f fs ih => simp only [List.map_cons, ih, entry_advised]

/-- However calls follow each other, a reporter keeps one diagnostic for each failure that is
no collection, in order, and writes what they look like; a summary counts them. The advice
that reporting fills in changes nothing of what is written later. -/
theorem run_shows (style : Style) (calls : List Call) :
    let run := Reporter.run { style } calls
    let fs := calls.flatMap Call.members
    run.1 = Call.transcript style 0 calls ∧
      run.2.shown.toList = fs.map (entry style) ∧ (∀ f, Stands style f (entry style f)) ∧
      (run.2.shown.isEmpty = false ↔ fs ≠ []) ∧
      (∀ e ∈ run.2.shown.toList, run.2.call (.report (.failure (.diagnosed e.1 e.2))) =
        (style.diagnostic e.1 e.2, { style, shown := run.2.shown.push e })) ∧
      (∀ h, ((run.2.call (.report h)).2.call (.report h.reported)).1 = (run.2.call (.report h)).1 ∧
        h.reported.members = h.members.map Failure.reported ∧
          ∀ f ∈ h.members, f.reported.diagnosis? = f.diagnosis?.map fun _ => entry style f) ∧
      ∀ now : List Call, now.map Call.advised = calls.map Call.advised →
        (Reporter.run { style } now).1 = run.1 ∧
          (Reporter.run { style } now).2.shown.toList.map Prod.fst = run.2.shown.toList.map Prod.fst := by
  obtain ⟨htexts, hstyle, hshown⟩ := run_new style calls
  refine ⟨htexts, hshown, stands_entry style, ?_, ?_, ?_, ?_⟩
  · rw [Bool.eq_false_iff, ne_eq, ne_eq, Array.isEmpty_iff, ← Array.toList_eq_nil_iff, hshown,
      List.map_eq_nil_iff]
  · intro e he
    rw [hshown, List.mem_map] at he
    obtain ⟨f, -, rfl⟩ := he
    have hkept := call_kept (Reporter.run { style } calls).2 f
    rw [hstyle] at hkept
    exact hkept
  · exact fun h => ⟨call_reported _ h, h.members_reported, fun _ hf => diagnosis?_reported style h hf⟩
  · intro now hnow
    obtain ⟨htexts', -, hshown'⟩ := run_new style now
    refine ⟨?_, ?_⟩
    · rw [htexts, htexts', ← Call.transcript_advised style 0 now, hnow, Call.transcript_advised]
    · rw [hshown, hshown', ← map_fst_entry_advised, ← Call.members_map_advised, hnow,
        Call.members_map_advised, map_fst_entry_advised]

def twoErrors : List Call :=
  [.report (.several [.failure (.many [.many [.diagnosed { code := "E0912", message := "first" } none]]),
    .nothing, .failure (.context "late" (.plain "second"))]), .summary]

theorem run_shows_twoErrors :
    let style := Libraries.usual.style false
    (Reporter.run { style } (twoErrors.map Call.advised)).1 = (Reporter.run { style } twoErrors).1 ∧
      (Reporter.run { style } twoErrors).1 =
        [Text.ofString "error[E0912]: first\n" ++ Text.ofString (" = help: the front end must hand over a " ++
            "fully resolved AST; rerun semantic analysis\nerror: late: second\n"),
          Text.ofString "error: 2 errors found\n"] := by
  intro style
  obtain ⟨htexts, -, -, -, -, -, hnow⟩ := run_shows style twoErrors
  refine ⟨(hnow (twoErrors.map Call.advised) rfl).1, ?_⟩
  rw [htexts]
  decide +kernel

end Reporter

end ClassForge
