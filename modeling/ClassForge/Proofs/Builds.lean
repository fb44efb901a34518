import ClassForge.Command
import ClassForge.Libraries.Usual
import ClassForge.Proofs.Binding
import ClassForge.Proofs.FileWrites
import ClassForge.Proofs.History

/-!
# Builds of many inputs

One generator and one reporter go through all the inputs of a build. What comes of an
input is nevertheless what comes of it alone: the class file is that of a new
generator, the errors are counted one by one, and the files that the build has written
are none that it reads.
-/

namespace ClassForge

/-! ## Errors one by one -/

mutual

/-- The number of errors in a failure: a collection counts by its members. -/
def Failure.individuals : Failure → Nat
  | .many members => individualsOf members
  | _ => 1

def Failure.individualsOf : List Failure → Nat
  | [] => 0
  | f :: rest => f.individuals + individualsOf rest

end

namespace Reporter

mutual

theorem length_entries (style : Style) (f : Failure) (done : List (Diagnostic × Option Failure)) :
    (entries style f done).length = f.individuals + done.length := by
  cases f with
  | many members =>
    rw [entries, Failure.individuals]
    exact length_entriesOf style members done
  | plain message => simp [entries, Failure.individuals, Nat.add_comm]
  | context message cause => simp [entries, Failure.individuals, Nat.add_comm]
  | diagnosed d cause => simp [entries, Failure.individuals, Nat.add_comm]

theorem length_entriesOf (style : Style) (fs : List Failure) (done : List (Diagnostic × Option Failure)) :
    (entriesOf style fs done).length = Failure.individualsOf fs + done.length := by
  cases fs with
  | nil => simp [entriesOf, Failure.individualsOf]
  | cons f rest =>
    rw [entriesOf, Failure.individualsOf, length_entriesOf style rest, length_entries style f]
    omega

end

theorem size_report (r : Reporter) (f : Failure) :
    (r.report f).2.shown.size = r.shown.size + f.individuals := by
  show (r.shown ++ (entries r.style f []).reverse).size = _
  rw [← Array.length_toList, Array.toList_appendList, List.length_append, List.length_reverse,
    length_entries]
  rfl

end Reporter

namespace Failure

theorem individuals_ofList? {ds : List Diagnostic} {f : Failure}
    (h : ofList? (ds.map fun d => diagnosed d none) = some f) : 0 < f.individuals := by
  rw [ofList?_diagnosed] at h
  cases ds with
  | nil => cases h
  | cons d ds =>
    cases h
    simp only [List.map_cons, individuals, individualsOf]
    omega

end Failure

theorem Document.individuals_resolve {c : Document} {f : Failure} (h : c.resolve = .error f) :
    0 < f.individuals := by
  unfold resolve at h
  split at h
  · cases h
    exact Nat.one_pos
  · split at h
    · rename_i hf
      cases h
      exact Failure.individuals_ofList? hf
    · cases h

theorem ClassDecl.individuals_check {c : ClassDecl} {f : Failure} (h : c.check = some f) :
    0 < f.individuals := by
  unfold check at h
  split at h
  · cases h
    exact Nat.one_pos
  · split at h
    · cases h
      exact Nat.one_pos
    · exact Failure.individuals_ofList? h

theorem Skeleton.individuals_build {options : Options} {c : ClassDecl} {f : Failure}
    (h : (build options c).1 = .error f) : 0 < f.individuals := by
  cases hcheck : c.check with
  | some f' =>
    rw [build_of_breach options hcheck] at h
    cases h
    exact ClassDecl.individuals_check hcheck
  | none =>
    rw [build_of_check options hcheck] at h
    cases hlay : (layOut options.effective c.outline).1 with
    | ok s =>
      rw [hlay] at h
      cases h
    | error r =>
      rw [hlay] at h
      cases h
      cases r <;> exact Nat.one_pos

theorem Generator.individuals_compile {g : Generator} {c : ClassDecl} {f : Failure}
    (h : (g.compile c).1.result = .error f) : 0 < f.individuals := by
  rw [result_compile] at h
  cases hbuild : (Skeleton.build g.options c).1 with
  | error f' =>
    rw [hbuild] at h
    cases h
    exact Skeleton.individuals_build hbuild
  | ok s =>
    simp only [hbuild, bind, Except.bind] at h
    cases hemit : ((Constructor.ofSkeleton s).emit g.options.lineNumbers g.writer).1 with
    | error d =>
      rw [hemit] at h
      cases h
      exact Nat.one_pos
    | ok a =>
      simp only [hemit, Except.mapError] at h
      split at h
      · cases h
        exact Nat.one_pos
      · cases h

namespace Command

/-! ## What comes of an input -/

section
variable (lib : Libraries) (s : Settings) (t : FileTree)

/-- The class file of an input as a generator of its own makes it. -/
def product (input : Text) : Except Failure Output :=
  match ((Document.loadClass lib.cbor input : StateM FileTree (Except Failure ClassDecl)) t).1 with
  | .error f => .error f
  | .ok c =>
    match ((Generator.ofOptions s.options).compile c).1.result with
    | .error f => .error f
    | .ok data => .ok ⟨Output.pathOf s.outputDir c.name s.classExtension, data⟩

def outcome (input : Text) : Except Nat Output := (product lib s t input).mapError Failure.individuals

def outputs (inputs : List Text) : List Output := inputs.filterMap fun i => (outcome lib s t i).toOption

def lineOf (input : Text) : Text :=
  match outcome lib s t input with
  | .ok o => input ++ " -> " ++ o.path ++ "\n"
  | .error _ => []

def errorsOf (input : Text) : Nat :=
  match outcome lib s t input with
  | .ok _ => 0
  | .error n => n

def errors (inputs : List Text) : Nat := (inputs.map (errorsOf lib s t)).sum

end

section
variable {lib : Libraries} {s : Settings} {t t' : FileTree} {input : Text}

def classOf (cbor : Codec) (input : Text) (contents : Except FileFault Text) : Except Failure ClassDecl :=
  match Format.ofPath input with
  | .error f => .error (.cannotTake "load" input f)
  | .ok format =>
    match contents with
    | .error f => .error (.cannotTake "read" input f.failure)
    | .ok contents => (Document.ofContents cbor input contents format).bind Document.resolve

theorem run_loadClass (cbor : Codec) (t : FileTree) (input : Text) :
    (Document.loadClass cbor input : StateM FileTree _) t = (classOf cbor input (t.read input), t) := by
  unfold Document.loadClass Document.load classOf
  cases Format.ofPath input with
  | error f => rfl
  | ok format =>
    have hread : (Storage.read input : StateM FileTree _) t = (t.read input, t) := rfl
    simp only [FileTree.run_bind, hread]
    cases t.read input with
    | error f => rfl
    | ok contents =>
      simp only [FileTree.run_pure]
      cases Document.ofContents cbor input contents format <;> rfl

theorem individuals_classOf {cbor : Codec} {contents : Except FileFault Text} {f : Failure}
    (h : classOf cbor input contents = .error f) : 0 < f.individuals := by
  unfold classOf at h
  split at h
  · cases h
    exact Nat.one_pos
  · split at h
    · cases h
      exact Nat.one_pos
    · rename_i format _ contents
      unfold Document.ofContents at h
      split at h
      · cases h
        exact Nat.one_pos
      · exact Document.individuals_resolve h

theorem individuals_product {f : Failure} (h : product lib s t input = .error f) : 0 < f.individuals := by
  unfold product at h
  rw [run_loadClass] at h
  split at h
  · rename_i hclass
    cases h
    exact individuals_classOf hclass
  · split at h
    · rename_i hcompile
      cases h
      exact Generator.individuals_compile hcompile
    · cases h

/-- An input that reads as before has the same class file as before, or as many
errors. -/
theorem outcome_congr (h : ∀ data, t'.read input = .ok data ↔ t.read input = .ok data) :
    outcome lib s t' input = outcome lib s t input := by
  cases hread : t.read input with
  | ok data => rw [outcome, outcome, product, product, run_loadClass, run_loadClass, hread, (h data).mpr hread]
  | error fault =>
    cases hread' : t'.read input with
    | ok data =>
      rw [h data, hread] at hread'
      cases hread'
    | error fault' =>
      rw [outcome, outcome, product, product, run_loadClass, run_loadClass, hread, hread']
      unfold classOf
      cases Format.ofPath input <;> rfl

end

/-! ## One input -/

section
variable {lib : Libraries} {s : Settings} {t : FileTree} {g : Generator} {input : Text}

structure Serves (s : Settings) (g : Generator) : Prop where
  options : g.options = (Generator.ofOptions s.options).options
  limit : g.writer.limit = (Generator.ofOptions s.options).writer.limit

theorem Serves.compile (hg : Serves s g) (c : ClassDecl) :
    (g.compile c).1 = ((Generator.ofOptions s.options).compile c).1 ∧ Serves s (g.compile c).2 := by
  obtain ⟨hoptions, hlimit⟩ := g.keeps_compile c
  exact ⟨Generator.compile_congr hg.options hg.limit c, hoptions.trans hg.options, hlimit.trans hg.limit⟩

/-- What an input leaves behind once its class file, if it has one, is written. -/
def deliver (t : FileTree) : Except Failure Output → Except Failure Text × FileTree
  | .error f => (.error f, t)
  | .ok o =>
    match (Output.write o.path o.data : StateM FileTree (Except FileFault Unit)) t with
    | (.ok (), t') => (.ok o.path, t')
    | (.error fault, t') => (.error (.cannotWrite o.path fault.failure), t')

/-- Compiling an input is delivering its class file, whatever was compiled before. -/
theorem compileInput_run (hg : Serves s g) (t : FileTree) (input : Text) : ∃ listing g', Serves s g' ∧
    (compileInput lib s g input : StateM FileTree _) t =
      ((listing, (deliver t (product lib s t input)).1, g'), (deliver t (product lib s t input)).2) := by
  unfold product compileInput
  rw [FileTree.run_bind, run_loadClass]
  cases hclass : classOf lib.cbor input (t.read input) with
  | error f => exact ⟨[], g, hg, rfl⟩
  | ok c =>
    obtain ⟨hmade, hg'⟩ := hg.compile c
    refine ⟨(g.compile c).1.listing, (g.compile c).2, hg', ?_⟩
    simp only [FileTree.run_bind, Generator.compileToFile, ← hmade]
    cases hresult : (g.compile c).1.result with
    | error f => rfl
    | ok data =>
      simp only [Output.writeClass, FileTree.run_bind, deliver]
      rcases (Output.write (Output.pathOf s.outputDir c.name s.classExtension) data :
        StateM FileTree _) t with ⟨_ | _, t'⟩ <;> rfl

end

/-! ## All inputs -/

section
variable {lib : Libraries} {s : Settings} {t u : FileTree} {b : Build} {input : Text} {inputs rest : List Text}

theorem buildInputs_cons (lib : Libraries) (hb : Serves s b.generator) (t : FileTree) (input : Text)
    (rest : List Text) :
    ∃ b', Serves s b'.generator ∧ (buildInputs lib s (input :: rest) b : StateM FileTree _) t =
      (buildInputs lib s rest b' : StateM FileTree _) (deliver t (product lib s t input)).2 ∧
    match (deliver t (product lib s t input)).1 with
    | .ok path => b'.out = b.out ++ (input ++ " -> " ++ path ++ "\n") ∧
        b'.reporter.shown.size = b.reporter.shown.size
    | .error f => b'.out = b.out ∧
        b'.reporter.shown.size = b.reporter.shown.size + f.individuals := by
  obtain ⟨listing, g', hg', hcompile⟩ := compileInput_run hb t input
  rw [buildInputs, FileTree.run_bind, hcompile]
  cases (deliver t (product lib s t input)).1 with
  | ok path => exact ⟨{ b with generator := g', err := _, out := _ }, hg', rfl, rfl, rfl⟩
  | error f =>
    exact ⟨{ b with generator := g', reporter := _, err := _ }, hg', rfl, rfl, b.reporter.size_report f⟩

/-- A build that can write all its class files: they go to different places, none of
which is that of an input. No input behind the first climbs out of a directory that the
build makes. -/
structure Buildable (lib : Libraries) (s : Settings) (inputs : List Text) (t u : FileTree) : Prop where
  sound : t.Sound
  writes : FileTree.writeAll (outputs lib s t inputs) t = (.ok (), u)
  distinct : (t.places (outputs lib s t inputs)).Nodup
  apart : ∀ i ∈ inputs, t.placeOf i ∉ t.places (outputs lib s t inputs)
  level : ∀ i ∈ inputs.tail, t.Climbs i → u.Climbs i

theorem Buildable.subset (h : Buildable lib s inputs t u) (hsub : rest.Sublist inputs)
    (houtputs : outputs lib s t rest = outputs lib s t inputs) : Buildable lib s rest t u where
  sound := h.sound
  writes := houtputs ▸ h.writes
  distinct := houtputs ▸ h.distinct
  apart := fun i hi => houtputs ▸ h.apart i (hsub.subset hi)
  level := fun i hi => h.level i (hsub.tail.subset hi)

theorem outputs_cons_error {f : Failure} (h : product lib s t input = .error f) :
    outputs lib s t (input :: rest) = outputs lib s t rest := by
  simp [outputs, outcome, h, Except.mapError, Except.toOption]

theorem outputs_cons_ok {o : Output} (h : product lib s t input = .ok o) :
    outputs lib s t (input :: rest) = o :: outputs lib s t rest := by
  simp [outputs, outcome, h, Except.mapError, Except.toOption]

theorem Buildable.single (h : Buildable lib s inputs t u) (hi : input ∈ inputs) {v : FileTree}
    (hwrites : FileTree.writeAll (outputs lib s t [input]) t = (.ok (), v)) : Buildable lib s [input] t v where
  sound := h.sound
  writes := hwrites
  distinct := by
    cases hp : product lib s t input with
    | error f =>
      rw [outputs_cons_error hp]
      exact List.nodup_nil
    | ok o =>
      rw [outputs_cons_ok hp]
      exact List.nodup_singleton _
  apart := by
    have hsub : outputs lib s t [input] ⊆ outputs lib s t inputs :=
      List.filterMap_subset _ (List.cons_subset.mpr ⟨hi, List.nil_subset _⟩)
    exact List.forall_mem_singleton.mpr (mt (fun hplace => List.map_subset _ hsub hplace) (h.apart input hi))
  level := List.forall_mem_nil _

/-- What the class file of the first input changes is nothing that the others are made
of. -/
theorem Buildable.cons_ok (h : Buildable lib s (input :: rest) t u) {o : Output}
    (ho : product lib s t input = .ok o) : ∃ v,
      (Output.write o.path o.data : StateM FileTree _) t = (.ok (), v) ∧ Buildable lib s rest v u ∧
      ∀ i ∈ rest, outcome lib s v i = outcome lib s t i := by
  have hwrites := h.writes
  have hdistinct := h.distinct
  have hapart := h.apart
  rw [outputs_cons_ok ho] at hwrites hdistinct hapart
  obtain ⟨v, hwrite, hrest⟩ := FileTree.inOrder_cons_ok.mp hwrites
  have hv := FileTree.wrote_write hwrite
  obtain ⟨hgrown, -⟩ := FileTree.writeAll_ok hrest
  have houtcome : ∀ i ∈ rest, outcome lib s v i = outcome lib s t i := by
    intro i hi
    refine outcome_congr fun data =>
      hv.grown.read_iff h.sound (fun hclimb => hgrown.climbs (h.level i hi hclimb)) ?_
    rw [hv.files, if_neg]
    intro hplace
    exact hapart i (List.mem_cons_of_mem _ hi) (hplace ▸ List.mem_cons_self)
  have houtputs : outputs lib s v rest = outputs lib s t rest :=
    List.filterMap_congr fun i hi => by rw [houtcome i hi]
  have hplaces := FileTree.places_congr hv.grown.current (outputs lib s t rest)
  refine ⟨v, hwrite, ?_, houtcome⟩
  constructor
  · exact hv.sound h.sound
  · exact houtputs ▸ hrest
  · rw [houtputs, hplaces]
    exact (List.nodup_cons.mp hdistinct).2
  · intro i hi
    rw [houtputs, hplaces, FileTree.placeOf_congr hv.grown.current]
    exact fun hmem => hapart i (List.mem_cons_of_mem _ hi) (List.mem_cons_of_mem _ hmem)
  · exact fun i hi hclimb => h.level i (List.tail_subset _ hi) (hv.grown.climbs hclimb)

/-- A build writes the class files one after the other, each with its line, and counts
the errors of all other inputs. -/
theorem buildInputs_run (h : Buildable lib s inputs t u) (hb : Serves s b.generator) :
    ∃ b', (buildInputs lib s inputs b : StateM FileTree _) t = (b', u) ∧
      b'.out = b.out ++ inputs.flatMap (lineOf lib s t) ∧
      b'.reporter.shown.size = b.reporter.shown.size + errors lib s t inputs := by
  induction inputs generalizing t b with
  | nil =>
    have hu := h.writes
    cases hu
    exact ⟨b, rfl, (List.append_nil _).symm, rfl⟩
  | cons input rest ih =>
    obtain ⟨b₁, hb₁, hstep, hadded⟩ := buildInputs_cons lib hb t input rest
    rw [hstep, List.flatMap_cons, errors, List.map_cons, List.sum_cons]
    cases hp : product lib s t input with
    | error f =>
      rw [hp] at hadded
      obtain ⟨b', hrun, hout, hshown⟩ :=
        ih (h.subset (List.sublist_cons_self ..) (outputs_cons_error hp).symm) hb₁
      refine ⟨b', hrun, ?_, ?_⟩
      · rw [hout, hadded.1, lineOf, outcome, hp]
        rfl
      · rw [hshown, hadded.2, errorsOf, outcome, hp]
        exact Nat.add_assoc ..
    | ok o =>
      obtain ⟨v, hwrite, hrest, houtcome⟩ := h.cons_ok hp
      simp only [hp, deliver, hwrite] at hadded ⊢
      obtain ⟨b', hrun, hout, hshown⟩ := ih hrest hb₁
      have hlines : rest.flatMap (lineOf lib s v) = rest.flatMap (lineOf lib s t) :=
        List.flatMap_congr fun i hi => by rw [lineOf, lineOf, houtcome i hi]
      have herrors : errors lib s v rest = errors lib s t rest :=
        congrArg List.sum (List.map_congr_left fun i hi => by rw [errorsOf, errorsOf, houtcome i hi])
      refine ⟨b', hrun, ?_, ?_⟩
      · rw [hout, hadded.1, hlines, lineOf, outcome, hp]
        exact List.append_assoc ..
      · rw [hshown, hadded.2, herrors, errorsOf, outcome, hp]
        show _ = _ + (0 + errors lib s t rest)
        rw [Nat.zero_add]

end

/-! ## Builds -/

section
variable (lib : Libraries) (colours : Bool) {s : Settings} {t u : FileTree} {input : Text} {inputs : List Text}

/-- What a build did: the class files are there and nothing else has changed, each has
its line, and if an input failed the errors are counted. -/
structure Built (lib : Libraries) (s : Settings) (inputs : List Text) (t : FileTree) (run : Run)
    (u : FileTree) : Prop where
  classes : ∀ i ∈ inputs, ∀ o, product lib s t i = .ok o → u.read o.path = .ok o.data
  others : ∀ p ∉ t.places (outputs lib s t inputs), u.fileAt? p = t.fileAt? p
  lines : run.out = inputs.flatMap (lineOf lib s t)
  done : (∀ i ∈ inputs, ∃ o, product lib s t i = .ok o) → run.ending = .done
  failed : (∃ i ∈ inputs, ∃ f, product lib s t i = .error f) → run.ending = .reported ∧
    ∃ shown, run.err = shown ++ (Style.countLine (errors lib s t inputs) ++ "\n")

def Build.first (s : Settings) : Build where
  generator := .ofOptions s.options
  reporter := { style := lib.style colours }

theorem serves_first (s : Settings) : Serves s (Build.first lib colours s).generator := ⟨rfl, rfl⟩

theorem logged_of_check (h : s.check lib.level? = none) : ∃ severities, s.logged lib.level? = .ok severities := by
  cases hseverity : s.severity lib.level? with
  | ok least => exact ⟨_, by rw [Settings.logged, hseverity]; rfl⟩
  | error f =>
    have hmem : f ∈ s.faults lib.level? := by simp [Settings.faults, hseverity]
    unfold Settings.check at h
    cases hfaults : s.faults lib.level? with
    | nil =>
      rw [hfaults] at hmem
      cases hmem
    | cons f' fs =>
      rw [hfaults] at h
      cases h

theorem errors_pos_iff : 0 < errors lib s t inputs ↔ ∃ i ∈ inputs, ∃ f, product lib s t i = .error f := by
  have hinput : ∀ i, 0 < errorsOf lib s t i ↔ ∃ f, product lib s t i = .error f := by
    intro i
    rw [errorsOf, outcome]
    cases hp : product lib s t i with
    | ok o => simp [Except.mapError]
    | error f =>
      simp only [Except.mapError, Except.error.injEq, exists_eq', iff_true]
      exact individuals_product hp
  simp only [errors, Nat.pos_iff_ne_zero, ne_eq, List.sum_eq_zero_iff, List.mem_map, forall_exists_index,
    and_imp, forall_apply_eq_imp_iff₂, not_forall] at hinput ⊢
  simp only [hinput, exists_prop]

theorem buildWith_run {b : Build} (h : s.check lib.level? = none)
    (hrun : (buildInputs lib s inputs (.first lib colours s) : StateM FileTree _) t = (b, u)) :
    (buildWith lib colours s inputs : StateM FileTree _) t =
      (if b.reporter.shown.isEmpty then { out := b.out, err := b.err }
      else { out := b.out, err := b.err ++ b.reporter.summary, ending := .reported }, u) := by
  obtain ⟨severities, hlogged⟩ := logged_of_check lib h
  rw [Build.first] at hrun
  simp only [buildWith, hlogged, FileTree.run_bind, hrun]
  split <;> rfl

theorem built (hvalid : s.check lib.level? = none) (h : Buildable lib s inputs t u) :
    ∃ run, (buildWith lib colours s inputs : StateM FileTree _) t = (run, u) ∧ Built lib s inputs t run u := by
  obtain ⟨b, hrun, hout, hshown⟩ := buildInputs_run h (serves_first lib colours s)
  obtain ⟨-, hothers, hreads⟩ := FileTree.writeAll_ok h.writes
  replace hshown := hshown.trans (Nat.zero_add _)
  refine ⟨_, buildWith_run lib colours hvalid hrun, ?_, hothers, ?_, ?_, ?_⟩
  · intro i hi o ho
    refine hreads h.distinct o (List.mem_filterMap.mpr ⟨i, hi, ?_⟩)
    rw [outcome, ho]
    rfl
  · split <;> exact hout
  · intro hall
    have hnone : errors lib s t inputs = 0 := by
      rw [← Nat.le_zero, ← Nat.not_lt, errors_pos_iff lib]
      rintro ⟨i, hi, f, hf⟩
      obtain ⟨o, ho⟩ := hall i hi
      rw [ho] at hf
      cases hf
    rw [if_pos (by rw [Array.isEmpty_iff_size_eq_zero, hshown, hnone])]
  · intro hsome
    have hne : ¬b.reporter.shown.isEmpty = true := by
      rw [Array.isEmpty_iff_size_eq_zero, hshown]
      exact Nat.pos_iff_ne_zero.mp ((errors_pos_iff _).mpr hsome)
    rw [if_neg hne]
    refine ⟨rfl, b.err, ?_⟩
    rw [Reporter.summary, if_neg hne, hshown]

theorem outputs_filter {keep : Text → Bool}
    (hkeep : ∀ i ∈ inputs, keep i = false → ∃ f, product lib s t i = .error f) :
    outputs lib s t (inputs.filter keep) = outputs lib s t inputs ∧
      (inputs.filter keep).flatMap (lineOf lib s t) = inputs.flatMap (lineOf lib s t) := by
  induction inputs with
  | nil => exact ⟨rfl, rfl⟩
  | cons input rest ih =>
    obtain ⟨houtputs, hlines⟩ := ih fun i hi => hkeep i (List.mem_cons_of_mem _ hi)
    cases hk : keep input with
    | true =>
      rw [List.filter_cons_of_pos hk, List.flatMap_cons, List.flatMap_cons, hlines]
      refine ⟨?_, rfl⟩
      simp only [outputs, List.filterMap_cons] at houtputs ⊢
      rw [houtputs]
    | false =>
      obtain ⟨f, hf⟩ := hkeep input List.mem_cons_self hk
      rw [List.filter_cons_of_neg (by simp [hk]), outputs_cons_error hf, List.flatMap_cons, lineOf, outcome, hf]
      exact ⟨houtputs, hlines⟩

theorem built_alone (hvalid : s.check lib.level? = none) (h : Buildable lib s inputs t u)
    (hi : input ∈ inputs) {o : Output} (ho : product lib s t input = .ok o) {alone : Run} {v : FileTree}
    (hrun : (buildWith lib colours s [input] : StateM FileTree _) t = (alone, v)) (hdone : alone.ending = .done) :
    v.read o.path = .ok o.data := by
  rcases hwrite : (Output.write o.path o.data : StateM FileTree _) t with ⟨fault | ⟨⟩, v'⟩
  · -- a class file that is not written is reported
    obtain ⟨b, -, hstep, hadded⟩ := buildInputs_cons lib (serves_first lib colours s) t input []
    simp only [ho, deliver, hwrite] at hstep hadded
    have hne : ¬b.reporter.shown.isEmpty = true := by
      rw [Array.isEmpty_iff_size_eq_zero, hadded.2]
      exact Nat.succ_ne_zero _
    rw [buildWith_run lib colours hvalid hstep, if_neg hne] at hrun
    cases hrun
    cases hdone
  · have hwrites : FileTree.writeAll (outputs lib s t [input]) t = (.ok (), v') := by
      rw [outputs_cons_ok ho]
      show FileTree.writeAll [o] t = _
      rw [FileTree.writeAll, List.map_singleton, Output.inOrder, FileTree.run_bind, hwrite]
      rfl
    obtain ⟨run, hrun', hbuilt⟩ := built lib colours hvalid (h.single hi hwrites)
    rw [hrun'] at hrun
    cases hrun
    exact hbuilt.classes input List.mem_cons_self o ho

/-- A build of class files that go to different places, none of them an input, does to
each input what a build of it alone does, and inputs that fail could as well be left
out. An input path behind the first must not climb out of a directory that the build
itself makes. -/
theorem build_inputs_apart (s : Settings) (inputs : List Text) (t u : FileTree)
    (hvalid : s.check lib.level? = none) (h : Buildable lib s inputs t u) :
    ∃ run, (buildWith lib colours s inputs : StateM FileTree Run) t = (run, u) ∧ Built lib s inputs t run u ∧
      (∀ i ∈ inputs, ∀ o, product lib s t i = .ok o → ∀ alone v,
        (buildWith lib colours s [i] : StateM FileTree Run) t = (alone, v) → alone.ending = .done →
        v.read o.path = .ok o.data ∧ u.read o.path = .ok o.data) ∧
      (∀ i ∈ inputs, ∀ f, product lib s t i = .error f → ∃ alone,
        (buildWith lib colours s [i] : StateM FileTree Run) t = (alone, t) ∧ alone.ending = .reported) ∧
      ∀ keep : Text → Bool, (∀ i ∈ inputs, keep i = false → ∃ f, product lib s t i = .error f) →
        ∃ kept, (buildWith lib colours s (inputs.filter keep) : StateM FileTree Run) t = (kept, u) ∧
          kept.out = run.out := by
  obtain ⟨run, hrun, hbuilt⟩ := built lib colours hvalid h
  refine ⟨run, hrun, hbuilt, ?_, ?_, ?_⟩
  · intro i hi o ho alone v halone hdone
    exact ⟨built_alone lib colours hvalid h hi ho halone hdone, hbuilt.classes i hi o ho⟩
  · intro i hi f hf
    have hwrites : FileTree.writeAll (outputs lib s t [i]) t = (.ok (), t) := by
      rw [outputs_cons_error hf]
      rfl
    obtain ⟨alone, halone, hbuilt'⟩ := built lib colours hvalid (h.single hi hwrites)
    exact ⟨alone, halone, (hbuilt'.failed ⟨i, List.mem_cons_self, f, hf⟩).1⟩
  · intro keep hkeep
    obtain ⟨houtputs, hlines⟩ := outputs_filter lib hkeep
    obtain ⟨kept, hkept, hbuilt'⟩ := built lib colours hvalid (h.subset List.filter_sublist houtputs)
    exact ⟨kept, hkept, by rw [hbuilt'.lines, hbuilt.lines, hlines]⟩

end

theorem Ending.eq_done {e : Ending} (h : e.failure?.isNone = true) : e = .done := by
  cases e with
  | done => rfl
  | failed f => cases h
  | reported => cases h

def workshop : FileTree :=
  let file (c : Document) : FileNode := .file (c.encode Libraries.usual.cbor .json) true
  ((({ current := ["w"] : FileTree }.insert ["w"] .directory).insert ["w", "A.json"]
    (file { className := "A" })).insert ["w", "B.json"] (file { className := "B" })).insert ["w", "C.json"]
    (file { className := "C", methods := [{ name := "m", type := "void", body := [{ kind := "x" }, {}] }] })

theorem sound_workshop : workshop.Sound := by
  refine .insert (.insert (.insert (.insert (FileTree.sound_empty _) ?_ ?_ ?_) ?_ ?_ ?_) ?_ ?_ ?_) ?_ ?_ ?_
  all_goals decide +kernel

def elsewhere : Settings := { outputDir := "out" }

theorem build_inputs_apart_workshop :
    let inputs : List Text := ["A.json", "none/../B.json", "C.json", "B.json"]
    let u := (FileTree.writeAll (outputs .usual elsewhere workshop inputs) workshop).2
    elsewhere.check Libraries.usual.level? = none ∧ Buildable .usual elsewhere inputs workshop u ∧
      ∃ run, (buildWith .usual false elsewhere inputs : StateM FileTree Run) workshop = (run, u) ∧
        run.out = Text.ofString "A.json -> out/A.class\nB.json -> out/B.class\n" ∧ run.ending = .reported ∧
        ∃ shown, run.err = shown ++ Text.ofString "error: 3 errors found\n" := by
  intro inputs u
  have hvalid : elsewhere.check Libraries.usual.level? = none := by decide +kernel
  have h : Buildable .usual elsewhere inputs workshop u := by
    constructor
    · exact sound_workshop
    · exact Prod.ext (by decide +kernel) rfl
    · decide +kernel
    · decide +kernel
    · intro i hi hclimb
      -- the one path that climbs does so out of a directory that nobody makes
      have hdots : ∀ i ∈ inputs.tail, i = "none/../B.json" ∨ Text.ofString ".." ∉ FileTree.parts i := by
        decide +kernel
      rcases hdots i hi with rfl | hdots
      · exact ⟨["none"], [], by decide +kernel, by decide +kernel⟩
      · exact absurd hclimb.mem_parts hdots
  obtain ⟨run, hrun, hbuilt, -⟩ := build_inputs_apart .usual false elsewhere inputs workshop u hvalid h
  have hlines : inputs.flatMap (lineOf .usual elsewhere workshop) =
      Text.ofString "A.json -> out/A.class\nB.json -> out/B.class\n" := by decide +kernel
  have herrors : errors .usual elsewhere workshop inputs = 3 := by decide +kernel
  obtain ⟨hending, shown, herr⟩ := hbuilt.failed ((errors_pos_iff _).mp (by rw [herrors]; decide))
  refine ⟨hvalid, h, run, hrun, hbuilt.lines.trans hlines, hending, shown, ?_⟩
  rw [herr, herrors]
  rfl

/-- An input path that climbs out of the directory for class files, which is missing:
alone the input cannot be read, but behind another it can. -/
theorem climbing_input_depends_on_earlier :
    let input : Text := "out/../B.json"
    let alone := (buildWith .usual false elsewhere [input] : StateM FileTree Run) workshop
    let both := (buildWith .usual false elsewhere ["A.json", input] : StateM FileTree Run) workshop
    elsewhere.check Libraries.usual.level? = none ∧ workshop.Sound ∧
      [workshop.placeOf "out/A.class", workshop.placeOf "out/B.class", workshop.placeOf "A.json",
        workshop.placeOf input].Nodup ∧
      alone.1.ending = .reported ∧ ¬(alone.2.read "out/B.class").isOk ∧
      both.1.ending = .done ∧
      both.1.out = Text.ofString "A.json -> out/A.class\nout/../B.json -> out/B.class\n" ∧
      (both.2.read "out/B.class").isOk := by
  intro input alone both
  have hboth : both.1.ending.failure?.isNone = true := by decide +kernel
  exact ⟨by decide +kernel, sound_workshop, by decide +kernel, rfl, by decide +kernel, Ending.eq_done hboth,
    by decide +kernel, by decide +kernel⟩

end Command

end ClassForge
