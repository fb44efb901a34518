import ClassForge.Output
import ClassForge.Proofs.FileTrees

/-!
# Writing files

Writing a class file makes directories and puts one file in its place, by way of a file
for passing use that is gone in the end. Every other file stays as it was.
-/

namespace ClassForge.FileTree

/-! ## Making directories -/

theorem Sound.insert {t : FileTree} (h : t.Sound) {place : List Text} {node : FileNode} (hp : place ≠ [])
    (hdir : t.get? place.dropLast = some .directory)
    (hnode : node = .directory ∨ t.get? place ≠ some .directory) : (t.insert place node).Sound := by
  have hkeep : ∀ p, t.get? p = some .directory → (t.insert place node).get? p = some .directory := by
    intro p hget
    rw [get?_insert t hp]
    split
    · rename_i heq
      rcases hnode with rfl | hnode
      · rfl
      · exact absurd (heq ▸ hget) hnode
    · exact hget
  intro p hne hget
  rw [get?_insert t hp] at hget
  split at hget
  · rename_i heq
    exact hkeep _ (heq ▸ hdir)
  · exact hkeep _ (h p hne hget)

/-- Nothing but directories was added. -/
structure Made (t t' : FileTree) : Prop where
  current : t'.current = t.current
  nodes : ∀ p, t'.get? p = t.get? p ∨ t.get? p = none ∧ t'.get? p = some .directory
  sound : t.Sound → t'.Sound

theorem Made.refl (t : FileTree) : Made t t := ⟨rfl, fun _ => .inl rfl, id⟩

theorem Made.trans {t u v : FileTree} (h : Made t u) (h' : Made u v) : Made t v where
  current := h'.current.trans h.current
  nodes := by
    intro p
    rcases h.nodes p with hp | ⟨hnone, hdir⟩
    · rw [← hp]
      exact h'.nodes p
    · refine .inr ⟨hnone, ?_⟩
      rcases h'.nodes p with hp' | ⟨-, hdir'⟩
      · rw [hp', hdir]
      · exact hdir'
  sound := h'.sound ∘ h.sound

theorem Made.directories {t t' : FileTree} (h : Made t t') (p : List Text)
    (hp : t.get? p = some .directory) : t'.get? p = some .directory := by
  rcases h.nodes p with heq | ⟨-, hdir⟩
  · rw [heq, hp]
  · exact hdir

theorem Made.fileAt? {t t' : FileTree} (h : Made t t') (p : List Text) : t'.fileAt? p = t.fileAt? p := by
  unfold FileTree.fileAt?
  rcases h.nodes p with heq | ⟨hnone, hdir⟩
  · rw [heq]
  · rw [hnone, hdir]

theorem made_makeDirectory {t t' : FileTree} {path : Text} (h : t.makeDirectory path = .ok t') :
    Made t t' := by
  unfold makeDirectory at h
  split at h
  · cases h
  · cases h
  · rename_i place slashed hend
    obtain ⟨-, hne, hdir, -⟩ := ending_child hend
    split at h
    · cases h
    · split at h
      · cases h
      · rename_i hnone
        rw [Option.not_isSome_iff_eq_none] at hnone
        cases h
        refine ⟨rfl, fun p => ?_, fun hs => hs.insert hne hdir (.inl rfl)⟩
        rw [get?_insert t hne]
        split
        · rename_i heq
          exact .inr ⟨heq ▸ hnone, rfl⟩
        · exact .inl rfl

section
variable {α β : Type} {t : FileTree}

theorem run_bind (x : StateM FileTree α) (f : α → StateM FileTree β) (t : FileTree) :
    (x >>= f) t = f (x t).1 (x t).2 := rfl

theorem run_pure (a : α) (t : FileTree) : (pure a : StateM FileTree α) t = (a, t) := rfl

theorem run_kindAt (path : Text) : (Storage.kindAt path : StateM FileTree _) t = (t.kindAt path, t) := rfl

theorem run_makeDirectory (path : Text) : (Storage.makeDirectory path : StateM FileTree _) t =
    change (fun t => t.makeDirectory path) t := rfl

theorem change_cases (op : FileTree → Except FileFault FileTree) :
    (∃ t', op t = .ok t' ∧ change op t = (.ok (), t')) ∨ ∃ f, change op t = (.error f, t) := by
  simp only [change, run]
  cases op t with
  | ok t' => exact .inl ⟨t', rfl, rfl⟩
  | error f => exact .inr ⟨f, rfl⟩

end

theorem made_makeLineage (paths : List Text) (t : FileTree) :
    Made t ((Storage.makeLineage paths : StateM FileTree (Except FileFault Unit)) t).2 := by
  induction paths with
  | nil => exact .refl t
  | cons path parents ih =>
    rw [Storage.makeLineage, run_bind, run_kindAt]
    cases t.kindAt path with
    | some kind => cases kind <;> exact .refl t
    | none =>
      simp only [run_bind]
      rcases hp : (Storage.makeLineage parents : StateM FileTree (Except FileFault Unit)) t with ⟨_ | _, t₁⟩
      · rw [hp] at ih
        exact ih
      · rw [hp] at ih
        simp only [run_bind, run_makeDirectory]
        rcases @change_cases t₁ fun t => t.makeDirectory path with ⟨t₂, hmake, hrun⟩ | ⟨f, hrun⟩
        · rw [hrun]
          exact ih.trans (made_makeDirectory hmake)
        · rw [hrun]
          simp only [run_bind, run_kindAt]
          split <;> exact ih

/-! ## Writing a file -/

section
variable {t t' : FileTree} {path data : Text} {place : List Text}

theorem change_ok {op : FileTree → Except FileFault FileTree} :
    change op t = (.ok (), t') ↔ op t = .ok t' := by
  simp only [change, run]
  cases op t with
  | ok v =>
    constructor
    · rintro ⟨⟩
      rfl
    · rintro ⟨⟩
      rfl
  | error f =>
    constructor
    · rintro ⟨⟩
    · rintro ⟨⟩

theorem locate_absent (h : t.locate path = .ok (.absent place)) :
    t.ending path = .ok (.child place (Path.endsInSlash path)) ∧ tooLong place = false ∧
      t.get? place = none := by
  unfold locate at h
  split at h
  · cases h
  · cases h
  · rename_i place' slashed hend
    split at h
    · cases h
    · rename_i hlong
      split at h
      · rename_i hget
        cases h
        rw [← (ending_child hend).2.2.2]
        exact ⟨hend, Bool.eq_false_iff.mpr hlong, hget⟩
      · cases h
      · split at h <;> cases h

theorem locate_put (hend : t.ending path = .ok (.child place false)) (hlong : tooLong place = false)
    (hget : t.get? place ≠ some .directory) (data : Text) (shared : Bool) :
    (t.insert place (.file data shared)).locate path = .ok (.found place (.file data shared)) := by
  have hne := (ending_child hend).2.1
  have hdirs : ∀ p, t.get? p = some .directory →
      (t.insert place (.file data shared)).get? p = some .directory := by
    intro p hp
    rw [get?_insert t hne, if_neg]
    · exact hp
    · rintro rfl
      exact hget hp
  have hget' : (t.insert place (.file data shared)).get? place = some (.file data shared) := by
    rw [get?_insert t hne, if_pos rfl]
  exact locate_file.mpr ⟨ending_mono hend rfl hdirs, hlong, hget'⟩

theorem read_write (h : t.write path data = .ok t') : t'.read path = .ok data := by
  unfold write at h
  cases hend : t.ending path with
  | error r =>
    rw [hend] at h
    cases h
  | ok e =>
    rw [hend] at h
    cases e with
    | directory place => cases h
    | child place slashed =>
      cases slashed with
      | true => cases h
      | false =>
        simp only at h
        by_cases hlong : tooLong place = true
        · rw [if_pos hlong] at h
          cases h
        · rw [if_neg hlong] at h
          have hput (hget : t.get? place ≠ some .directory) (shared : Bool) :
              (t.insert place (.file data shared)).read path = .ok data :=
            read_ok.mpr ⟨place, shared, locate_put hend (Bool.eq_false_iff.mpr hlong) hget data shared⟩
          split at h
          · cases h
          · rename_i hget
            cases h
            exact hput (by simp [hget]) _
          · rename_i hget
            cases h
            exact hput (by simp [hget]) _

theorem rename_ok {temp : Text} {shared : Bool}
    (htemp : t.locate temp = .ok (.found place (.file data shared))) (h : t.rename temp path = .ok t') :
    t.ending path = .ok (.child (t.placeOf path) false) ∧ tooLong (t.placeOf path) = false ∧
      t.get? (t.placeOf path) ≠ some .directory ∧
      t' = (t.erase place).insert (t.placeOf path) (.file data shared) := by
  unfold rename at h
  simp only [htemp] at h
  split at h
  · cases h
  · cases h
  · rename_i goal old was hgoal
    obtain ⟨hend, hlong, hget⟩ := locate_file.mp hgoal
    obtain ⟨rfl, -⟩ := ending_child hend
    cases h
    exact ⟨hend, hlong, by simp [hget], rfl⟩
  · rename_i goal hgoal
    obtain ⟨hend, hlong, hget⟩ := locate_absent hgoal
    obtain ⟨rfl, -⟩ := ending_child hend
    split at h
    · cases h
    · rename_i hslash
      rw [Bool.eq_false_iff.mpr hslash] at hend
      cases h
      exact ⟨hend, hlong, by simp [hget], rfl⟩

/-! ### A file for passing use -/

structure Free (m : FileTree) (temp : Text) : Prop where
  locate : m.locate temp = .ok (.absent (m.placeOf temp))
  unslashed : Path.endsInSlash temp = false

/-- The tree `a` is `m` with a file at the path `temp`. -/
structure Parked (m : FileTree) (temp data : Text) (shared : Bool) (a : FileTree) : Prop where
  current : a.current = m.current
  nodes : ∀ p, a.get? p = if p = m.placeOf temp then some (.file data shared) else m.get? p
  size : a.nodes.size = m.nodes.size + 1

structure Placed (m : FileTree) (path data : Text) (u : FileTree) : Prop where
  ending : m.ending path = .ok (.child (m.placeOf path) false)
  short : tooLong (m.placeOf path) = false
  free : m.get? (m.placeOf path) ≠ some .directory
  current : u.current = m.current
  nodes : ∀ p, u.get? p = if p = m.placeOf path then some (.file data true) else m.get? p

theorem contains_nodes {place : List Text} (hne : place ≠ []) :
    t.nodes.contains place = (t.get? place).isSome := by
  rw [get?, if_neg hne, Std.TreeMap.isSome_getElem?_eq_contains]

theorem endsInSlash_tempPath (dir base : Text) (n : Nat) :
    Path.endsInSlash (Storage.tempPath dir base n) = false := by
  have hlast : (Text.ofString ".tmp").getLast? = some 112 := by decide
  simp [Path.endsInSlash, Storage.tempPath, List.getLast?_append, hlast]
  decide

theorem createTempFrom_ok {dir base temp : Text} {tries n : Nat}
    (h : t.createTempFrom dir base tries n = .ok (temp, t')) :
    Free t temp ∧ t' = t.insert (t.placeOf temp) (.file [] false) := by
  induction tries generalizing n with
  | zero => cases h
  | succ tries ih =>
    rw [createTempFrom] at h
    split at h
    · cases h
    · exact ih h
    · rename_i place hlocate
      cases h
      obtain ⟨rfl, -⟩ := ending_child (locate_absent hlocate).1
      exact ⟨⟨hlocate, endsInSlash_tempPath ..⟩, rfl⟩

theorem createTemp_ok {dir base temp : Text} (h : t.createTemp dir base = .ok (temp, t')) :
    Free t temp ∧ t' = t.insert (t.placeOf temp) (.file [] false) := by
  unfold createTemp at h
  split at h
  · cases h
  · exact createTempFrom_ok h

section
variable {m a u : FileTree} {temp : Text} {shared : Bool}

theorem Free.ending (h : Free m temp) : m.ending temp = .ok (.child (m.placeOf temp) false) ∧
    tooLong (m.placeOf temp) = false ∧ m.get? (m.placeOf temp) = none := by
  have := locate_absent h.locate
  rwa [h.unslashed] at this

theorem Free.placeOf_ne_nil (h : Free m temp) : m.placeOf temp ≠ [] := (ending_child h.ending.1).2.1

theorem Free.parked (h : Free m temp) : Parked m temp [] false (m.insert (m.placeOf temp) (.file [] false)) where
  current := rfl
  nodes := get?_insert m h.placeOf_ne_nil _
  size := by
    have hnone : m.nodes.contains (m.placeOf temp) = false := by
      rw [contains_nodes h.placeOf_ne_nil, h.ending.2.2]
      rfl
    rw [insert, Std.TreeMap.size_insert, hnone, if_neg Bool.false_ne_true]

theorem Parked.directories (hp : Parked m temp data shared a) (hf : Free m temp) (p : List Text) :
    a.get? p = some .directory ↔ m.get? p = some .directory := by
  rw [hp.nodes]
  split
  · rename_i heq
    rw [heq, hf.ending.2.2]
    simp
  · rfl

theorem Parked.locate (hp : Parked m temp data shared a) (hf : Free m temp) :
    a.locate temp = .ok (.found (m.placeOf temp) (.file data shared)) := by
  obtain ⟨hend, hlong, -⟩ := hf.ending
  refine locate_file.mpr ⟨ending_mono hend hp.current fun p => (hp.directories hf p).mpr, hlong, ?_⟩
  rw [hp.nodes, if_pos rfl]

theorem Parked.insert (hp : Parked m temp data shared a) (hf : Free m temp) (data' : Text) (shared' : Bool) :
    Parked m temp data' shared' (a.insert (m.placeOf temp) (.file data' shared')) where
  current := hp.current
  nodes := by
    intro p
    rw [get?_insert a hf.placeOf_ne_nil, hp.nodes]
    split <;> rfl
  size := by
    have hsome : a.nodes.contains (m.placeOf temp) = true := by
      rw [contains_nodes hf.placeOf_ne_nil, hp.nodes, if_pos rfl]
      rfl
    rw [FileTree.insert, Std.TreeMap.size_insert, hsome, if_pos rfl]
    exact hp.size

theorem Parked.modifyFile (hp : Parked m temp data shared a) (hf : Free m temp) (operation : Text)
    (f : Text → Bool → FileNode) :
    a.modifyFile operation temp f = .ok (a.insert (m.placeOf temp) (f data shared)) := by
  unfold FileTree.modifyFile
  rw [hp.locate hf]

theorem Parked.modified (hp : Parked m temp data shared a) (hf : Free m temp) {operation data' : Text}
    {shared' : Bool} {f : Text → Bool → FileNode} (h : a.modifyFile operation temp f = .ok u)
    (hfile : f data shared = .file data' shared') : Parked m temp data' shared' u := by
  rw [hp.modifyFile hf, hfile] at h
  cases h
  exact hp.insert hf data' shared'

theorem Parked.placed (hp : Parked m temp data true a) (hf : Free m temp)
    (h : a.rename temp path = .ok u) : Placed m path data u := by
  obtain ⟨hend, hshort, hdir, rfl⟩ := rename_ok (hp.locate hf) h
  rw [placeOf_congr hp.current] at hend hshort hdir ⊢
  refine ⟨ending_mono hend hp.current.symm fun p => (hp.directories hf p).mp, hshort, ?_, hp.current, ?_⟩
  · exact fun hm => hdir ((hp.directories hf _).mpr hm)
  · intro p
    rw [get?_insert _ (ending_child hend).2.1, get?_erase _ hf.placeOf_ne_nil, hp.nodes]
    by_cases hq : p = m.placeOf temp
    · simp [hq, hf.ending.2.2]
    · simp [hq]

end

theorem inOrder_cons_ok {step : StateM FileTree (Except FileFault Unit)}
    {rest : List (StateM FileTree (Except FileFault Unit))} {u : Unit} :
    Output.inOrder (step :: rest) t = (.ok u, t') ↔
      ∃ a, step t = (.ok (), a) ∧ Output.inOrder rest a = (.ok u, t') := by
  rw [Output.inOrder, run_bind]
  rcases step t with ⟨_ | _, a⟩
  · constructor
    · rintro ⟨⟩
    · rintro ⟨_, ⟨⟩, -⟩
  · constructor
    · exact fun h => ⟨a, rfl, h⟩
    · rintro ⟨_, ⟨⟩, h⟩
      exact h

theorem place_ok {temp : Text} {u : Unit} :
    (Output.place temp path data : StateM FileTree _) t = (.ok u, t') ↔
    ∃ a b c, t.modifyFile "write" temp (fun old shared => .file (old ++ data) shared) = .ok a ∧
      a.modifyFile "close" temp .file = .ok b ∧
      b.modifyFile "chmod" temp (fun data _ => .file data true) = .ok c ∧ c.rename temp path = .ok t' := by
  constructor
  · intro h
    rw [Output.place, run_bind] at h
    rcases hfill : (Storage.fill temp data : StateM FileTree _) t with ⟨_ | _, a⟩
    · rw [hfill] at h
      cases h
    · rw [hfill] at h
      simp only [run_bind] at h
      rcases hsteps : (Output.inOrder [Storage.close temp, Storage.share temp, Storage.rename temp path] :
        StateM FileTree _) a with ⟨_ | _, e⟩
      · rw [hsteps] at h
        cases h
      · rw [hsteps] at h
        cases h
        obtain ⟨b, hclose, hsteps⟩ := inOrder_cons_ok.mp hsteps
        obtain ⟨c, hshare, hsteps⟩ := inOrder_cons_ok.mp hsteps
        obtain ⟨d, hrename, hsteps⟩ := inOrder_cons_ok.mp hsteps
        cases hsteps
        exact ⟨a, b, c, change_ok.mp hfill, change_ok.mp hclose, change_ok.mp hshare, change_ok.mp hrename⟩
  · rintro ⟨a, b, c, hfill, hclose, hshare, hrename⟩
    have hfill : (Storage.fill temp data : StateM FileTree _) t = (.ok (), a) := change_ok.mpr hfill
    have hsteps : (Output.inOrder [Storage.close temp, Storage.share temp, Storage.rename temp path] :
        StateM FileTree _) a = (.ok (), t') := by
      refine inOrder_cons_ok.mpr ⟨b, change_ok.mpr hclose, ?_⟩
      refine inOrder_cons_ok.mpr ⟨c, change_ok.mpr hshare, ?_⟩
      exact inOrder_cons_ok.mpr ⟨t', change_ok.mpr hrename, rfl⟩
    rw [Output.place, run_bind, hfill]
    simp only [run_bind]
    rw [hsteps]
    rfl

theorem placed_place {m : FileTree} {temp : Text} {u : Unit} (hf : Free m temp)
    (h : (Output.place temp path data : StateM FileTree _) (m.insert (m.placeOf temp) (.file [] false)) =
      (.ok u, t')) : Placed m path data t' := by
  obtain ⟨b, c, d, hfill, hclose, hshare, hrename⟩ := place_ok.mp h
  have hp := hf.parked.modified hf hfill rfl
  replace hp := hp.modified hf hclose rfl
  replace hp := hp.modified hf hshare rfl
  exact hp.placed hf hrename

theorem write_ok {u : Unit} : (Output.write path data : StateM FileTree _) t = (.ok u, t') ↔
    ∃ m temp a, (Storage.makeDirectories (Path.dir path) : StateM FileTree _) t = (.ok (), m) ∧
      m.createTemp (Path.dir path) (Path.base path) = .ok (temp, a) ∧
      (Output.place temp path data : StateM FileTree _) a = (.ok u, t') := by
  rw [Output.write, run_bind]
  rcases (Storage.makeDirectories (Path.dir path) : StateM FileTree _) t with ⟨_ | _, m⟩
  · constructor
    · rintro ⟨⟩
    · rintro ⟨_, _, _, ⟨⟩, -⟩
  · have hrun : (Storage.createTemp (Path.dir path) (Path.base path) : StateM FileTree _) m =
        run (fun t => t.createTemp (Path.dir path) (Path.base path)) m := rfl
    simp only [run_bind, hrun, run]
    cases hcreate : m.createTemp (Path.dir path) (Path.base path) with
    | error f =>
      constructor
      · rintro ⟨⟩
      · rintro ⟨_, _, _, ⟨⟩, ha, -⟩
        rw [hcreate] at ha
        cases ha
    | ok x =>
      constructor
      · exact fun h => ⟨m, x.1, x.2, rfl, hcreate, h⟩
      · rintro ⟨m', temp, a, hm, ha, h⟩
        cases hm
        rw [hcreate] at ha
        cases ha
        exact h

theorem placed_write {u : Unit} (h : (Output.write path data : StateM FileTree _) t = (.ok u, t')) :
    ∃ m, Made t m ∧ Placed m path data t' := by
  obtain ⟨m, temp, a, hdirs, hcreate, hplace⟩ := write_ok.mp h
  have hmade := made_makeLineage (Path.lineage (Path.dir path)) t
  rw [Storage.makeDirectories] at hdirs
  rw [hdirs] at hmade
  obtain ⟨hfree, rfl⟩ := createTemp_ok hcreate
  exact ⟨m, hmade, placed_place hfree hplace⟩

structure Wrote (path data : Text) (t t' : FileTree) : Prop where
  grown : Grown t t'
  files : ∀ p, t'.fileAt? p = if p = t.placeOf path then some (data, true) else t.fileAt? p
  sound : t.Sound → t'.Sound
  readable : t'.read path = .ok data

theorem Made.wrote {m : FileTree} (hmade : Made t m) (h : Placed m path data t') : Wrote path data t t' := by
  have hplace := placeOf_congr hmade.current path
  have hdirs : ∀ p, m.get? p = some .directory → t'.get? p = some .directory := by
    intro p hp
    rw [h.nodes, if_neg]
    · exact hp
    · rintro rfl
      exact h.free hp
  have hfiles : ∀ p, t'.fileAt? p = if p = t.placeOf path then some (data, true) else t.fileAt? p := by
    intro p
    rw [← hmade.fileAt? p]
    unfold FileTree.fileAt?
    rw [h.nodes, hplace]
    by_cases hp : p = t.placeOf path
    · rw [if_pos hp, if_pos hp]
    · rw [if_neg hp, if_neg hp]
  refine ⟨⟨h.current.trans hmade.current, fun p hp => hdirs p (hmade.directories p hp), ?_⟩, hfiles, ?_, ?_⟩
  · intro p hp
    rw [hfiles]
    split
    · rfl
    · exact hp
  · intro hs p hne hp
    rw [h.nodes] at hp
    split at hp
    · rename_i hgoal
      rw [hgoal]
      exact hdirs _ (ending_child h.ending).2.2.1
    · exact hdirs _ (hmade.sound hs p hne hp)
  · have hgoal : t'.get? (m.placeOf path) = some (.file data true) := by rw [h.nodes, if_pos rfl]
    have hend := ending_mono h.ending h.current hdirs
    exact read_ok.mpr ⟨_, true, locate_file.mpr ⟨hend, h.short, hgoal⟩⟩

theorem wrote_write {u : Unit} (h : (Output.write path data : StateM FileTree _) t = (.ok u, t')) :
    Wrote path data t t' := by
  obtain ⟨m, hmade, hplaced⟩ := placed_write h
  exact hmade.wrote hplaced

end

/-! ## Writing one file after another -/

def writeAll (os : List Output) : StateM FileTree (Except FileFault Unit) :=
  Output.inOrder (os.map fun o => Output.write o.path o.data)

def places (t : FileTree) (os : List Output) : List (List Text) := os.map fun o => t.placeOf o.path

theorem places_congr {t t' : FileTree} (h : t'.current = t.current) (os : List Output) :
    t'.places os = t.places os := List.map_congr_left fun o _ => placeOf_congr h o.path

/-- Class files for different places are all there in the end, and no other file has
changed. -/
theorem writeAll_ok {os : List Output} {t u : FileTree} (h : writeAll os t = (.ok (), u)) :
    Grown t u ∧ (∀ p ∉ t.places os, u.fileAt? p = t.fileAt? p) ∧
      ((t.places os).Nodup → ∀ o ∈ os, u.read o.path = .ok o.data) := by
  induction os generalizing t with
  | nil =>
    cases h
    exact ⟨.refl u, fun _ _ => rfl, fun _ _ ho => nomatch ho⟩
  | cons o os ih =>
    obtain ⟨v, hwrite, hrest⟩ := inOrder_cons_ok.mp h
    have hv := wrote_write hwrite
    obtain ⟨hgrown, hothers, hreads⟩ := ih hrest
    rw [places_congr hv.grown.current] at hothers hreads
    refine ⟨hv.grown.trans hgrown, fun p hp => ?_, fun hnodup o' ho' => ?_⟩
    · obtain ⟨hne, hp⟩ := not_or.mp (mt List.mem_cons.mpr hp)
      rw [hothers p hp, hv.files, if_neg hne]
    · obtain ⟨hfirst, hnodup⟩ := List.nodup_cons.mp hnodup
      rcases List.mem_cons.mp ho' with rfl | ho'
      · refine hgrown.read (hothers _ ?_) hv.readable
        rw [placeOf_congr hv.grown.current]
        exact hfirst
      · exact hreads hnodup o' ho'

end ClassForge.FileTree
