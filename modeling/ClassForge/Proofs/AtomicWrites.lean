import ClassForge.Proofs.FaultyTrees
import ClassForge.Proofs.Resolves

/-!
# All or nothing

A class file is written as a whole or not at all, whatever call fails, and what could not be
written can be written again.
-/

namespace ClassForge

/-! ## What a failed write leaves -/

namespace FileTree

structure SameFiles (t t' : FileTree) : Prop where
  current : t'.current = t.current
  files : ∀ p, t'.fileAt? p = t.fileAt? p

section
variable {t t' m u u' : FileTree} {path data temp : Text}

theorem Made.sameFiles (h : Made t m) : SameFiles t m := ⟨h.current, h.fileAt?⟩

theorem SameFiles.alike (h : SameFiles t m) (ha : Alike m u) : SameFiles t u where
  current := ha.current.trans h.current
  files := fun p => (ha.fileAt? p).trans (h.files p)

theorem Wrote.sameFiles (h : SameFiles t t') (hu : Wrote path data t u) (hu' : Wrote path data t' u') :
    SameFiles u u' where
  current := by rw [hu'.grown.current, h.current, hu.grown.current]
  files := by
    intro p
    rw [hu'.files, hu.files, placeOf_congr h.current, h.files]

/-! ## Writing again -/

theorem rename_of_ending {place goal : List Text} {node : FileNode}
    (htemp : t.locate temp = .ok (.found place node)) (hend : t.ending path = .ok (.child goal false))
    (hshort : tooLong goal = false) (hdir : t.get? goal ≠ some .directory) :
    ∃ u, t.rename temp path = .ok u := by
  have hslash := (ending_child hend).2.2.2
  cases hget : t.get? goal with
  | none =>
    have hgoal : t.locate path = .ok (.absent goal) := by simp [locate, hend, hshort, hget]
    simp [rename, htemp, hgoal, ← hslash]
  | some old =>
    cases old with
    | directory => exact absurd hget hdir
    | file data shared =>
      have hgoal := locate_file.mpr ⟨hend, hshort, hget⟩
      simp [rename, htemp, hgoal]

/-- Where a file was placed once, it can be placed from any path that is free. -/
theorem Placed.place_ok (h : Placed m path data u) (hf : Free m temp) :
    ∃ u', (Output.place temp path data : StateM FileTree _) (m.insert (m.placeOf temp) (.file [] false)) =
      (.ok (), u') := by
  have hfill := hf.parked.modifyFile hf "write" fun old shared => .file (old ++ data) shared
  have hp := hf.parked.modified hf hfill rfl
  have hclose := hp.modifyFile hf "close" .file
  replace hp := hp.modified hf hclose rfl
  have hshare := hp.modifyFile hf "chmod" fun data _ => .file data true
  replace hp := hp.modified hf hshare rfl
  have hend := ending_mono h.ending hp.current fun p => (hp.directories hf p).mpr
  obtain ⟨u', hrename⟩ := rename_of_ending (hp.locate hf) hend h.short
    fun hdir => h.free ((hp.directories hf _).mp hdir)
  exact ⟨u', FileTree.place_ok.mpr ⟨_, _, _, hfill, hclose, hshare, hrename⟩⟩

theorem Placed.congr (h : Placed m path data u) (ha : Alike m t) : Placed t path data u := by
  have hplace := placeOf_congr ha.current path
  refine ⟨?_, ?_, ?_, h.current.trans ha.current.symm, fun p => ?_⟩
  · rw [ha.ending, hplace]
    exact h.ending
  · rw [hplace]
    exact h.short
  · rw [ha.nodes, hplace]
    exact h.free
  · rw [h.nodes, ha.nodes, hplace]

end

end FileTree

namespace FaultyTree

section
variable {s s' : FaultyTree} {path data : Text} {r : Except FileFault Unit}

theorem wrote_or_sameFiles (h : (Output.write path data : StateM FaultyTree _) s = (r, s')) :
    r = .ok () ∧ FileTree.Wrote path data s.tree s'.tree ∨
      (∃ f, r = .error f) ∧ FileTree.SameFiles s.tree s'.tree := by
  obtain ⟨r₀, a, hdirs, hs⟩ := write_cases h
  have hmade := made_makeLineage hdirs
  rcases hs with ⟨hr, hs⟩ | ⟨-, ⟨hr, hplaced⟩ | ⟨hr, halike⟩⟩
  · exact .inr ⟨hr, hs ▸ hmade.sameFiles⟩
  · exact .inl ⟨hr, hmade.wrote hplaced⟩
  · exact .inr ⟨hr, hmade.sameFiles.alike halike⟩

/-- After any failure a write can still do what it could have done before. -/
theorem write_again {f : FileFault} {u : FileTree}
    (h : (Output.write path data : StateM FaultyTree _) s = (.error f, s'))
    (hfirst : (Output.write path data : StateM FileTree _) s.tree = (.ok (), u)) :
    ∃ u', (Output.write path data : StateM FileTree _) s'.tree = (.ok (), u') := by
  obtain ⟨m, temp, a, hdirs, hcreate, hplace⟩ := FileTree.write_ok.mp hfirst
  obtain ⟨r₀, b, hbroken, hs⟩ := write_cases h
  obtain ⟨hresume, hdone⟩ := makeLineage_resume (isChain_lineage _) hdirs hbroken
  rcases hs with ⟨-, hs⟩ | ⟨rfl, ⟨⟨⟩, -⟩ | ⟨-, halike⟩⟩
  · exact ⟨u, hs ▸ FileTree.write_ok.mpr ⟨m, temp, a, hresume, hcreate, hplace⟩⟩
  -- all directories are there, and the tree looks as it did when the file was created
  rw [hdone rfl] at hresume halike
  obtain ⟨hfree, rfl⟩ := FileTree.createTemp_ok hcreate
  have hplaced := (FileTree.placed_place hfree hplace).congr halike
  obtain ⟨c, hagain⟩ := halike.createTemp hcreate
  obtain ⟨hfree', rfl⟩ := FileTree.createTemp_ok hagain
  obtain ⟨u', hu'⟩ := hplaced.place_ok hfree'
  refine ⟨u', FileTree.write_ok.mpr ⟨s'.tree, temp, _, ?_, hagain, hu'⟩⟩
  obtain ⟨rest, hrest⟩ := exists_lineage (Path.dir path)
  rw [hrest] at hresume
  rw [Storage.makeDirectories, hrest]
  refine FileTree.makeLineage_cons_ok.mpr (.inl ⟨?_, rfl⟩)
  rw [halike.kindAt, kindAt_of_makeLineage hresume]

end

end FaultyTree

/-! ## Class files -/

section
variable {σ : Type} [Storage (StateM σ)] {s s' : σ} {path data : Text}

theorem Output.writeClass_cases {r : Except Failure Unit}
    (h : (Output.writeClass path data : StateM σ _) s = (r, s')) :
    r = .ok () ∧ (Output.write path data : StateM σ _) s = (.ok (), s') ∨
      ∃ f, r = .error (.cannotWrite path f.failure) ∧
        (Output.write path data : StateM σ _) s = (.error f, s') := by
  rw [Output.writeClass, run_bind] at h
  rcases hwrite : (Output.write path data : StateM σ _) s with ⟨f | u, s₁⟩
  · rw [hwrite] at h
    cases h
    exact .inr ⟨f, rfl, rfl⟩
  · rw [hwrite] at h
    cases h
    exact .inl ⟨rfl, rfl⟩

theorem Output.writeClass_ok : (Output.writeClass path data : StateM σ _) s = (.ok (), s') ↔
    (Output.write path data : StateM σ _) s = (.ok (), s') := by
  constructor
  · intro h
    rcases Output.writeClass_cases h with ⟨-, hwrite⟩ | ⟨f, ⟨⟩, -⟩
    exact hwrite
  · intro h
    rw [Output.writeClass, run_bind, h]
    rfl

/-- What was generated is handed over, and written as any class file. -/
theorem Generator.compileToFile_cases {g g' : Generator} {c : ClassDecl} {dir extension : Text}
    {written : Written} (hdata : (g.compile c).1.result = .ok data)
    (h : (g.compileToFile c dir extension : StateM σ _) s = ((written, g'), s')) :
    written.output = some ⟨Output.pathOf dir c.name extension, data⟩ ∧
      (written.failure = none ∧ (Output.writeClass (Output.pathOf dir c.name extension) data : StateM σ _) s =
          (.ok (), s') ∨
        ∃ f, written.failure = some f ∧
          (Output.writeClass (Output.pathOf dir c.name extension) data : StateM σ _) s = (.error f, s')) := by
  rw [Generator.compileToFile] at h
  simp only [hdata, run_bind] at h
  rcases hwrite : (Output.writeClass (Output.pathOf dir c.name extension) data : StateM σ _) s with ⟨f | u, s₁⟩
  · rw [hwrite] at h
    cases h
    exact ⟨rfl, .inr ⟨f, rfl, rfl⟩⟩
  · rw [hwrite] at h
    cases h
    exact ⟨rfl, .inl ⟨rfl, rfl⟩⟩

end

namespace FaultyTree

def failureOf : Except Failure Unit → Option Failure
  | .ok () => none
  | .error f => some f

/-- What comes of writing a file: it is there as a whole and all else is as before, or the
failure says that it could not be written and all is as before. -/
def AllOrNothing (path data : Text) (t : FileTree) (failure : Option Failure) (t' : FileTree) : Prop :=
  match failure with
  | none => t'.read path = .ok data ∧
      ∀ p, t'.fileAt? p = if p = t.placeOf path then some (data, true) else t.fileAt? p
  | some f => f.hasCode "E0920" = true ∧ ∀ p, t'.fileAt? p = t.fileAt? p

/-- From `t'` a file can be written wherever it could be written from `t`, and the same
files are there in the end. -/
structure Repeatable (path data : Text) (t t' : FileTree) : Prop where
  possible : ∀ u, (Output.writeClass path data : StateM FileTree _) t = (.ok (), u) →
    ∃ u', (Output.writeClass path data : StateM FileTree _) t' = (.ok (), u') ∧
      ∀ p, u'.fileAt? p = u.fileAt? p
  same : ∀ turns turns' u u', (Output.writeClass path data : StateM FaultyTree _) ⟨t, turns⟩ = (.ok (), u) →
    (Output.writeClass path data : StateM FaultyTree _) ⟨t', turns'⟩ = (.ok (), u') →
    ∀ p, u'.tree.fileAt? p = u.tree.fileAt? p

section
variable {s s' : FaultyTree} {path data : Text}

theorem writeClass_wrote (h : (Output.writeClass path data : StateM FaultyTree _) s = (.ok (), s')) :
    FileTree.Wrote path data s.tree s'.tree := by
  rcases wrote_or_sameFiles (Output.writeClass_ok.mp h) with ⟨-, hwrote⟩ | ⟨⟨f, ⟨⟩⟩, -⟩
  exact hwrote

theorem writeClass_spared {f : Failure}
    (h : (Output.writeClass path data : StateM FaultyTree _) s = (.error f, s')) :
    f.hasCode "E0920" = true ∧ FileTree.SameFiles s.tree s'.tree ∧ Repeatable path data s.tree s'.tree := by
  rcases Output.writeClass_cases h with ⟨⟨⟩, -⟩ | ⟨fault, ⟨⟩, hwrite⟩
  rcases wrote_or_sameFiles hwrite with ⟨⟨⟩, -⟩ | ⟨-, hsame⟩
  refine ⟨?_, hsame, ?_, ?_⟩
  · simp only [Failure.hasCode, Failure.cannotWrite, Failure.diagnosis?]
    rfl
  · intro u hu
    rw [Output.writeClass_ok] at hu
    obtain ⟨u', hu'⟩ := write_again hwrite hu
    refine ⟨u', Output.writeClass_ok.mpr hu', ?_⟩
    exact (FileTree.Wrote.sameFiles hsame (FileTree.wrote_write hu) (FileTree.wrote_write hu')).files
  · intro turns turns' u u' hu hu'
    have hwrote := writeClass_wrote hu
    have hwrote' := writeClass_wrote hu'
    exact (FileTree.Wrote.sameFiles hsame hwrote hwrote').files

end

/-- Writing a class file does all or nothing under every pattern of failures, with a code
that says so. What was compiled is handed over even then, and can be written again. -/
theorem writeClass_all_or_nothing :
    (∀ (path data : Text) (s : FaultyTree),
      let run := (Output.writeClass path data : StateM FaultyTree _) s
      AllOrNothing path data s.tree (failureOf run.1) run.2.tree) ∧
    ∀ (g : Generator) (c : ClassDecl) (dir extension data : Text) (s : FaultyTree),
      (g.compile c).1.result = .ok data →
      let path := Output.pathOf dir c.name extension
      let run := (g.compileToFile c dir extension : StateM FaultyTree _) s
      run.1.1.output = some ⟨path, data⟩ ∧
        AllOrNothing path data s.tree run.1.1.failure run.2.tree ∧
        (run.1.1.failure ≠ none → Repeatable path data s.tree run.2.tree) := by
  refine ⟨fun path data s => ?_, fun g c dir extension data s hdata => ?_⟩
  · rcases hrun : (Output.writeClass path data : StateM FaultyTree _) s with ⟨f | u, s'⟩
    · obtain ⟨hcode, hsame, -⟩ := writeClass_spared hrun
      exact ⟨hcode, hsame.files⟩
    · have hwrote := writeClass_wrote hrun
      exact ⟨hwrote.readable, hwrote.files⟩
  · rcases hrun : (g.compileToFile c dir extension : StateM FaultyTree _) s with ⟨⟨written, g'⟩, s'⟩
    obtain ⟨houtput, hwritten⟩ := Generator.compileToFile_cases hdata hrun
    refine ⟨houtput, ?_⟩
    rcases hwritten with ⟨hnone, hwrite⟩ | ⟨f, hsome, hwrite⟩
    · have hwrote := writeClass_wrote hwrite
      simp only [hnone]
      exact ⟨⟨hwrote.readable, hwrote.files⟩, fun h => absurd rfl h⟩
    · obtain ⟨hcode, hsame, hagain⟩ := writeClass_spared hwrite
      simp only [hsome]
      exact ⟨⟨hcode, hsame.files⟩, fun _ => hagain⟩

def sample : FaultyTree where
  tree := (({} : FileTree).insert ["out"] .directory).insert ["out", "K.class"] (.file "old" true)
  turns := [.fair 0, .fair 7, .fails ⟨"write", "out/K.class", .other "no space left on device"⟩ 3]

theorem writeClass_all_or_nothing_sample :
    ∃ data written g s', ((Generator.ofOptions {}).compile ClassDecl.sample).1.result = .ok data ∧
      ((Generator.ofOptions {}).compileToFile ClassDecl.sample "out" [] : StateM FaultyTree _) sample =
        ((written, g), s') ∧
      written.failure ≠ none ∧ written.output = some ⟨"out/K.class", data⟩ ∧
      s'.tree.fileAt? ["out", "K.class"] = some (Text.ofString "old", true) ∧
      ∃ u, (Output.writeClass "out/K.class" data : StateM FileTree _) s'.tree = (.ok (), u) ∧
        u.fileAt? ["out", "K.class"] = some (data, true) := by
  have hdata : ∃ data, ((Generator.ofOptions {}).compile ClassDecl.sample).1.result = .ok data := ⟨_, rfl⟩
  have hfails : (((Generator.ofOptions {}).compileToFile ClassDecl.sample "out" [] : StateM FaultyTree _)
      sample).1.1.failure.isSome = true := by decide +kernel
  have hworks : (((Generator.ofOptions {}).compileToFile ClassDecl.sample "out" [] : StateM FileTree _)
      sample.tree).1.1.failure.isNone = true := by decide +kernel
  have hpath : Output.pathOf "out" ClassDecl.sample.name [] = Text.ofString "out/K.class" := by decide +kernel
  obtain ⟨data, hdata⟩ := hdata
  have h := writeClass_all_or_nothing.2 _ ClassDecl.sample "out" [] data sample hdata
  rcases hrun : ((Generator.ofOptions {}).compileToFile ClassDecl.sample "out" [] : StateM FaultyTree _) sample
    with ⟨⟨written, g⟩, s'⟩
  rcases hplain : ((Generator.ofOptions {}).compileToFile ClassDecl.sample "out" [] : StateM FileTree _)
    sample.tree with ⟨⟨written', g'⟩, u⟩
  rw [hrun, Option.isSome_iff_ne_none] at hfails
  rw [hplain, Option.isNone_iff_eq_none] at hworks
  simp only [hrun, hpath] at h
  obtain ⟨houtput, hnothing, hagain⟩ := h
  -- where no call fails the file can be written at once
  obtain ⟨-, ⟨-, hwrite⟩ | ⟨f, hsome, -⟩⟩ := Generator.compileToFile_cases hdata hplain
  · rw [hpath] at hwrite
    obtain ⟨u', hu', hfiles⟩ := (hagain hfails).possible u hwrite
    refine ⟨data, written, g, s', hdata, rfl, hfails, houtput, ?_, u', hu', ?_⟩
    · obtain ⟨f, hf⟩ := Option.ne_none_iff_exists'.mp hfails
      rw [hf] at hnothing
      rw [hnothing.2]
      decide +kernel
    · rw [hfiles, (FileTree.wrote_write (Output.writeClass_ok.mp hwrite)).files, if_pos (by decide +kernel)]
  · rw [hworks] at hsome
    cases hsome

end FaultyTree

end ClassForge
