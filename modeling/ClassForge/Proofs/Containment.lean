import ClassForge.Proofs.AtomicWrites
import ClassForge.Proofs.Breaches
import ClassForge.Proofs.Compile
import ClassForge.Proofs.Paths

/-!
# Where class files go

The file of a class that is accepted lies right in the directory that it is for, under the
name of the class. Nothing that a class can be called leads elsewhere.
-/

namespace ClassForge

def IsExtension (extension : Text) : Prop :=
  extension = [] ∨ ∃ rest, extension = 46 :: rest ∧ rest ≠ [] ∧ Path.slash ∉ rest

namespace ClassDecl

def fileName (c : ClassDecl) (extension : Text) : Text :=
  c.name ++ if extension = [] then Text.ofString ".class" else extension

theorem name_of_check {c : ClassDecl} (h : c.check = none) : c.name ≠ [] ∧ Path.slash ∉ c.name := by
  obtain ⟨symbol, hsymbol, hne, hbreaches⟩ := check_eq_none.mp h
  have hname : c.name = symbol.name := by rw [name, hsymbol]; rfl
  have hplain : isPlainName symbol.name = true := by
    by_contra hplain
    simp [breaches, ownBreaches, hplain] at hbreaches
  rw [hname]
  exact ⟨hne, fun hslash => (isPlainName_iff _).mp hplain (.inl hslash)⟩

/-- What the check lets through is a name once the extension is there, dots and all. -/
theorem isName_fileName {c : ClassDecl} {extension : Text} (h : c.check = none)
    (hext : IsExtension extension) : Path.IsName (c.fileName extension) := by
  obtain ⟨hne, hslash⟩ := name_of_check h
  obtain ⟨b, rest, hname⟩ := List.exists_cons_of_ne_nil hne
  obtain ⟨ending, hfile, hlength, hending⟩ : ∃ ending, c.fileName extension = c.name ++ ending ∧
      2 ≤ ending.length ∧ Path.slash ∉ ending := by
    unfold fileName
    rcases hext with rfl | ⟨rest, rfl, hrest, hslash⟩
    · exact ⟨_, by rw [if_pos rfl], by decide, by decide⟩
    · refine ⟨_, by rw [if_neg (List.cons_ne_nil _ _)], ?_, ?_⟩
      · have := List.length_pos_iff.mpr hrest
        rw [List.length_cons]
        omega
      · rw [List.mem_cons, not_or]
        exact ⟨by decide, hslash⟩
  -- three bytes are more than `..` has
  have hlong : 2 < (c.fileName extension).length := by
    rw [hfile, hname, List.cons_append, List.length_cons, List.length_append]
    omega
  have hshort (t : Text) (ht : t.length ≤ 2) : c.fileName extension ≠ t := by
    rintro rfl
    exact Nat.not_lt.mpr ht hlong
  refine ⟨hshort _ (by decide), hshort _ (by decide), hshort _ (by decide), ?_⟩
  rw [hfile, List.mem_append, not_or]
  exact ⟨hslash, hending⟩

end ClassDecl

namespace Generator

section
variable {g : Generator} {c : ClassDecl} {dir extension data : Text}

theorem check_of_compile (h : (g.compile c).1.result = .ok data) : c.check = none := by
  obtain ⟨s, -, hs, -⟩ := compile_ok h
  exact (Skeleton.build_ok hs).1

theorem pathOf_fileName (dir extension : Text) :
    Output.pathOf dir c.name extension = Path.join [dir, c.fileName extension] := rfl

theorem compileToFile_error {σ : Type} [Storage (StateM σ)] {f : Failure}
    (h : (g.compile c).1.result = .error f) (s : σ) :
    ((g.compileToFile c dir extension : StateM σ _) s).1.1.output = none ∧
      ((g.compileToFile c dir extension : StateM σ _) s).2 = s := by
  rw [compileToFile]
  simp only [h]
  exact ⟨rfl, rfl⟩

theorem compileToFile_output {σ : Type} [Storage (StateM σ)] {s : σ} {o : Output}
    (h : ((g.compileToFile c dir extension : StateM σ _) s).1.1.output = some o) :
    ∃ data, (g.compile c).1.result = .ok data ∧ o = ⟨Output.pathOf dir c.name extension, data⟩ := by
  cases hdata : (g.compile c).1.result with
  | error f =>
    rw [(compileToFile_error hdata s).1] at h
    cases h
  | ok data =>
    refine ⟨data, rfl, ?_⟩
    rcases hrun : (g.compileToFile c dir extension : StateM σ _) s with ⟨⟨written, g'⟩, s'⟩
    rw [hrun, (compileToFile_cases hdata hrun).1] at h
    exact (Option.some.inj h).symm

end

theorem base_pathOf {g : Generator} {c : ClassDecl} {extension data : Text}
    (h : (g.compile c).1.result = .ok data) (hext : IsExtension extension) (dir : Text) :
    Path.base (Output.pathOf dir c.name extension) = c.fileName extension :=
  Path.base_join_name (ClassDecl.isName_fileName (check_of_compile h) hext) dir

/-- A class file goes right into its directory under the name of the class, whatever the
directory is called and whatever name the check has let through. No other file changes, and
classes with different names have different files. -/
theorem compileToFile_contained (dir extension : Text) (hext : IsExtension extension) :
    (∀ (g : Generator) (c : ClassDecl) (data : Text), (g.compile c).1.result = .ok data →
      ∀ {σ : Type} [Storage (StateM σ)] (s : σ), ∃ path,
        ((g.compileToFile c dir extension : StateM σ _) s).1.1.output = some ⟨path, data⟩ ∧
          Path.dir path = Path.clean dir ∧ Path.base path = c.fileName extension) ∧
    (∀ (g : Generator) (c : ClassDecl) (s : FaultyTree) (p : List Text),
      p ≠ s.tree.placeOf dir ++ [c.fileName extension] →
      ((g.compileToFile c dir extension : StateM FaultyTree _) s).2.tree.fileAt? p = s.tree.fileAt? p) ∧
    ∀ (g g' : Generator) (c c' : ClassDecl) {σ : Type} [Storage (StateM σ)] (s s' : σ) (o o' : Output),
      ((g.compileToFile c dir extension : StateM σ _) s).1.1.output = some o →
      ((g'.compileToFile c' dir extension : StateM σ _) s').1.1.output = some o' →
      o.path = o'.path → c.name = c'.name := by
  refine ⟨?_, ?_, ?_⟩
  · intro g c data hdata σ _ s
    refine ⟨Output.pathOf dir c.name extension, ?_, ?_, base_pathOf hdata hext dir⟩
    · rcases hrun : (g.compileToFile c dir extension : StateM σ _) s with ⟨⟨written, g'⟩, s'⟩
      exact (compileToFile_cases hdata hrun).1
    · exact Path.dir_join_name (ClassDecl.isName_fileName (check_of_compile hdata) hext) dir
  · intro g c s p hp
    cases hdata : (g.compile c).1.result with
    | error f => rw [(compileToFile_error hdata s).2]
    | ok data =>
      have hplace := FileTree.placeOf_join_name
        (ClassDecl.isName_fileName (check_of_compile hdata) hext) s.tree dir
      rcases hrun : (g.compileToFile c dir extension : StateM FaultyTree _) s with ⟨⟨written, g'⟩, s'⟩
      rcases (compileToFile_cases hdata hrun).2 with ⟨-, hwrite⟩ | ⟨f, -, hwrite⟩
      · rw [(FaultyTree.writeClass_wrote hwrite).files, if_neg]
        rw [pathOf_fileName, hplace]
        exact hp
      · exact (FaultyTree.writeClass_spared hwrite).2.1.files p
  · intro g g' c c' σ _ s s' o o' ho ho' hpath
    obtain ⟨data, hdata, rfl⟩ := compileToFile_output ho
    obtain ⟨data', hdata', rfl⟩ := compileToFile_output ho'
    have hfile : c.fileName extension = c'.fileName extension := by
      rw [← base_pathOf hdata hext dir, ← base_pathOf hdata' hext dir]
      exact congrArg Path.base hpath
    exact List.append_cancel_right hfile

theorem compileToFile_contained_sample :
    ∃ data path, ((ofOptions {}).compile ClassDecl.sample).1.result = .ok data ∧
      (((ofOptions {}).compileToFile ClassDecl.sample "../a/..//out/" ".k" : StateM FaultyTree _)
        FaultyTree.sample).1.1.output = some ⟨path, data⟩ ∧
      Path.dir path = Text.ofString "../out" ∧ Path.base path = Text.ofString "K.k" ∧
      (((ofOptions {}).compileToFile ClassDecl.sample "../a/..//out/" ".k" : StateM FaultyTree _)
        FaultyTree.sample).2.tree.fileAt? ["out", "K.class"] = some (Text.ofString "old", true) := by
  have hext : IsExtension ".k" := .inr ⟨[107], by decide, by decide, by decide⟩
  have hdata : ∃ data, ((ofOptions {}).compile ClassDecl.sample).1.result = .ok data := ⟨_, rfl⟩
  have hdir : Path.clean "../a/..//out/" = Text.ofString "../out" := by decide +kernel
  have hfile : ClassDecl.sample.fileName ".k" = Text.ofString "K.k" := by decide +kernel
  have hplace : ([Text.ofString "out", Text.ofString "K.class"] : List Text) ≠ FaultyTree.sample.tree.placeOf "../a/..//out/" ++
      [ClassDecl.sample.fileName ".k"] := by decide +kernel
  obtain ⟨data, hdata⟩ := hdata
  obtain ⟨hpaths, hothers, -⟩ := compileToFile_contained "../a/..//out/" ".k" hext
  obtain ⟨path, houtput, hpath, hbase⟩ := hpaths _ _ data hdata FaultyTree.sample
  refine ⟨data, path, hdata, houtput, hpath.trans hdir, hbase.trans hfile, ?_⟩
  rw [hothers _ _ _ _ hplace]
  decide +kernel

end Generator

end ClassForge
