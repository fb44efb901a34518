import ClassForge.Proofs.AbsolutePaths
import ClassForge.Settings.File

/-!
# The nearest settings file

The search for settings goes up from the directory that it starts in. Each of its steps
takes off the last name of a clean absolute path, so it ends at the root, and the first
settings file that it meets lies in the innermost directory that has one.
-/

namespace ClassForge.Settings

open FileTree

/-! ## The search -/

section
variable {t : FileTree} {home d d' : List Text} {found : Option Text}

theorem isEntry_fileName : IsEntry fileName := by decide

/-- A search that looks into a directory and, if the file is not there, goes on with the
directory of that, unless this is no other. -/
inductive Search (t : FileTree) : Text → Option Text → Prop
  | here {dir : Text} (h : (t.kindAt (Path.join [dir, fileName])).isSome) :
      Search t dir (some (Path.join [dir, fileName]))
  | top {dir : Text} (h : t.kindAt (Path.join [dir, fileName]) = none) (htop : Path.dir dir = dir) :
      Search t dir none
  | up {dir : Text} {found : Option Text} (h : t.kindAt (Path.join [dir, fileName]) = none)
      (hup : Path.dir dir ≠ dir) (hfound : Search t (Path.dir dir) found) : Search t dir found

/-- `d` is the innermost of the directories around `home` that have a settings file. -/
structure IsNearest (t : FileTree) (home d : List Text) : Prop where
  around : d <+: home
  visible : t.Visible (d ++ [fileName])
  innermost : ∀ d', d' <+: home → t.Visible (d' ++ [fileName]) → d'.length ≤ d.length

def IsAnswer (t : FileTree) (home : List Text) : Option Text → Prop
  | some path => ∃ d, IsNearest t home d ∧ path = Path.join [Path.spell true d, fileName]
  | none => ∀ d, d <+: home → ¬t.Visible (d ++ [fileName])

theorem IsNearest.unique (h : IsNearest t home d) (h' : IsNearest t home d') : d = d' := by
  have hlength := Nat.le_antisymm (h'.innermost d h.around h.visible) (h.innermost d' h'.around h'.visible)
  exact (List.prefix_of_prefix_length_le h.around h'.around (Nat.le_of_eq hlength)).eq_of_length hlength

theorem isNearest_self (h : t.Visible (home ++ [fileName])) : IsNearest t home home :=
  ⟨List.prefix_refl home, h, fun _ hprefix _ => hprefix.length_le⟩

theorem IsNearest.concat {name : Text} (h : IsNearest t home d) (hnot : ¬t.Visible (home ++ [name] ++ [fileName])) :
    IsNearest t (home ++ [name]) d where
  around := h.around.trans (List.prefix_append home [name])
  visible := h.visible
  innermost d' hprefix hvisible := by
    rcases List.prefix_concat_iff.mp hprefix with rfl | hprefix
    · exact absurd hvisible hnot
    · exact h.innermost d' hprefix hvisible

theorem IsAnswer.concat {name : Text} (h : IsAnswer t home found)
    (hnot : ¬t.Visible (home ++ [name] ++ [fileName])) : IsAnswer t (home ++ [name]) found := by
  cases found with
  | some path =>
    obtain ⟨d, hd, hpath⟩ := h
    exact ⟨d, hd.concat hnot, hpath⟩
  | none =>
    intro d hd hvisible
    rcases List.prefix_concat_iff.mp hd with rfl | hd
    · exact hnot hvisible
    · exact h d hd hvisible

theorem IsAnswer.eq_some_iff (h : IsAnswer t home found) (path : Text) :
    found = some path ↔ ∃ d, IsNearest t home d ∧ path = Path.join [Path.spell true d, fileName] := by
  constructor
  · rintro rfl
    exact h
  · rintro ⟨d, hd, rfl⟩
    cases found with
    | none => exact absurd hd.visible (h d hd.around)
    | some path =>
      obtain ⟨d', hd', rfl⟩ := h
      rw [hd.unique hd']

theorem IsAnswer.eq_none_iff (h : IsAnswer t home found) :
    found = none ↔ ∀ d, d <+: home → ¬t.Visible (d ++ [fileName]) := by
  cases found with
  | none => exact iff_of_true rfl h
  | some path =>
    obtain ⟨d, hd, -⟩ := h
    exact iff_of_false (Option.some_ne_none path) fun hnone => hnone d hd.around hd.visible

theorem run_firstThere_cons (t : FileTree) (path : Text) (rest : List Text) :
    (Storage.firstThere (path :: rest) : StateM FileTree _) t =
      if (t.kindAt path).isSome then (some path, t) else (Storage.firstThere rest : StateM FileTree _) t := by
  rw [Storage.firstThere, run_bind, run_kindAt]
  cases t.kindAt path <;> rfl

theorem candidates_root : candidates (Path.spell true []) = [Path.join [Path.spell true [], fileName]] := rfl

theorem candidates_concat {name : Text} (hhome : ∀ p ∈ home, Path.IsName p) (hname : Path.IsName name) :
    candidates (Path.spell true (home ++ [name])) =
      Path.join [Path.spell true (home ++ [name]), fileName] :: candidates (Path.spell true home) := by
  rw [candidates, Path.upward_concat hhome hname]
  rfl

/-- The settings file of a directory is found where it can be seen. -/
theorem kindAt_fileName (hsound : t.Sound) (hhome : ∀ p ∈ home, IsEntry p) :
    (t.kindAt (Path.join [Path.spell true home, fileName])).isSome ↔ t.Visible (home ++ [fileName]) := by
  rw [Path.join_spell (fun p hp => (hhome p hp).isName) isEntry_fileName.isName]
  exact kindAt_spell hsound (List.forall_mem_append.mpr ⟨hhome, List.forall_mem_singleton.mpr isEntry_fileName⟩)

/-- If the innermost file can be looked up, so can all that are there. -/
theorem visible_iff_there (hlong : (Path.spell true (home ++ [fileName])).length < maxPath) (h : d <+: home) :
    t.Visible (d ++ [fileName]) ↔ t.get? (d ++ [fileName]) ≠ none :=
  and_iff_left (Nat.lt_of_le_of_lt (Path.length_spell_le_of_prefix h isEntry_fileName.isName) hlong)

theorem search_spec (hsound : t.Sound) (hhome : ∀ p ∈ home, IsEntry p) :
    ∃ found, (Storage.firstThere (candidates (Path.spell true home)) : StateM FileTree _) t = (found, t) ∧
      Search t (Path.spell true home) found ∧ IsAnswer t home found := by
  have hthere := kindAt_fileName hsound hhome
  -- each turn of the search takes the last name off
  induction home using List.reverseRecOn with
  | nil =>
    rw [candidates_root, run_firstThere_cons]
    by_cases hsome : (t.kindAt (Path.join [Path.spell true [], fileName])).isSome = true
    · rw [if_pos hsome]
      exact ⟨_, rfl, .here hsome, [], isNearest_self (hthere.mp hsome), rfl⟩
    · rw [if_neg hsome]
      refine ⟨none, rfl, .top (Option.not_isSome_iff_eq_none.mp hsome) rfl, fun d hd => ?_⟩
      rw [List.prefix_nil.mp hd]
      exact fun hvisible => hsome (hthere.mpr hvisible)
  | append_singleton home name ih =>
    rw [List.forall_mem_append] at hhome
    have hnames : ∀ p ∈ home, Path.IsName p := fun p hp => (hhome.1 p hp).isName
    have hname := (hhome.2 name List.mem_cons_self).isName
    rw [candidates_concat hnames hname, run_firstThere_cons]
    by_cases hsome : (t.kindAt (Path.join [Path.spell true (home ++ [name]), fileName])).isSome = true
    · rw [if_pos hsome]
      exact ⟨_, rfl, .here hsome, _, isNearest_self (hthere.mp hsome), rfl⟩
    · rw [if_neg hsome]
      have hnot : ¬t.Visible (home ++ [name] ++ [fileName]) := fun hvisible => hsome (hthere.mpr hvisible)
      have hup : Path.dir (Path.spell true (home ++ [name])) ≠ Path.spell true (home ++ [name]) := fun heq =>
        Nat.lt_irrefl _ (heq ▸ Path.length_dir_spell_lt hnames hname)
      obtain ⟨found, hrun, hsearch, hfound⟩ := ih hhome.1 (kindAt_fileName hsound hhome.1)
      rw [← Path.dir_spell hnames hname] at hsearch
      exact ⟨found, hrun, .up (Option.not_isSome_iff_eq_none.mp hsome) hup hsearch, hfound.concat hnot⟩

end

def startDir (start : Text) : FileKind → Text
  | .directory => start
  | .file => Path.dir start

section
variable {t : FileTree} {start : Text} {kind : FileKind}

theorem get?_startDir (hsound : t.Sound) (h : t.kindAt start = some kind) :
    t.get? (t.placeOf (startDir start kind)) = some .directory := by
  cases kind with
  | directory => exact hsound.get?_of_kindAt h
  | file =>
    have hend := ending_of_kindAt_file h
    rw [startDir, placeOf_dir hend]
    exact (ending_child hend).2.2.1

theorem find_missing (h : t.kindAt start = none) : (find start : StateM FileTree _) t = (none, t) := by
  rw [find, run_bind, run_kindAt, h]
  rfl

theorem find_there (hcurrent : ∀ p ∈ t.current, Path.IsName p) (h : t.kindAt start = some kind) :
    (find start : StateM FileTree _) t =
      (Storage.firstThere (candidates (Path.spell true (t.placeOf (startDir start kind)))) :
        StateM FileTree _) t := by
  rw [find, run_bind, run_kindAt, h]
  cases kind with
  | directory => simp only [run_bind, absolute_eq hcurrent, startDir]
  | file => simp only [run_bind, absolute_eq hcurrent, startDir]

end

/-- The search for a settings file ends. It finds that of the innermost directory that has
one, from the start directory up to the root, and nothing if there is none. -/
theorem find_nearest (t : FileTree) (h : t.Usable) (start : Text) :
    (t.get? (t.placeOf start) = none → t.kindAt start = none) ∧
    (t.kindAt start = none → (find start : StateM FileTree _) t = (none, t)) ∧
    ∀ kind, t.kindAt start = some kind →
      let home := t.placeOf (startDir start kind)
      t.get? home = some .directory ∧
        (Storage.absolute (startDir start kind) : StateM FileTree _) t = (Path.spell true home, t) ∧
        ∃ found, (find start : StateM FileTree _) t = (found, t) ∧ Search t (Path.spell true home) found ∧
          (∀ path, found = some path ↔
            ∃ d, IsNearest t home d ∧ path = Path.join [Path.spell true d, fileName]) ∧
          (found = none ↔ ∀ d, d <+: home → ¬t.Visible (d ++ [fileName])) ∧
          ((Path.spell true (home ++ [fileName])).length < maxPath → ∀ d, d <+: home →
            (t.Visible (d ++ [fileName]) ↔ t.get? (d ++ [fileName]) ≠ none)) := by
  have hcurrent : ∀ p ∈ t.current, Path.IsName p := fun p hp =>
    (h.entries _ (get?_ne_none h.current) p hp).isName
  refine ⟨fun hget => ?_, find_missing, fun kind hkind => ?_⟩
  · by_contra hne
    obtain ⟨kind, hkind⟩ := Option.ne_none_iff_exists'.mp hne
    obtain ⟨place, node, hlocate, -⟩ := kindAt_some hkind
    obtain ⟨rfl, hsome⟩ := locate_found h.sound hlocate
    exact get?_ne_none hsome hget
  · have hdir := get?_startDir h.sound hkind
    obtain ⟨found, hrun, hsearch, hfound⟩ := search_spec h.sound (h.entries _ (get?_ne_none hdir))
    exact ⟨hdir, absolute_eq hcurrent _, found, (find_there hcurrent hkind).trans hrun, hsearch,
      hfound.eq_some_iff, hfound.eq_none_iff, fun hlong d => visible_iff_there hlong⟩

def oneUp : FileTree :=
  let p : FileTree := FileTree.insert {} ["p"] .directory
  ((p.insert ["p", fileName] (.file [] true)).insert ["p", "q"] .directory).insert ["p", "q", "A.json"]
    (.file [] true)

theorem usable_oneUp : oneUp.Usable := by
  have hp := usable_empty.insert [] "p" rfl (by decide) (by decide +kernel) .directory
  have hfile := hp.insert ["p"] fileName (by decide +kernel) isEntry_fileName (by decide +kernel) (.file [] true)
  have hq := hfile.insert ["p"] "q" (by decide +kernel) (by decide) (by decide +kernel) .directory
  exact hq.insert ["p", "q"] "A.json" (by decide +kernel) (by decide) (by decide +kernel) (.file [] true)

theorem find_nearest_oneUp : oneUp.Usable ∧ ∃ found,
    (find "p/q/A.json" : StateM FileTree _) oneUp = (found, oneUp) ∧
      found = some (Text.ofString "/p/sstc.toml") := by
  have hkind : oneUp.kindAt "p/q/A.json" = some .file := by decide +kernel
  have hmissing : oneUp.get? ["p", "q", fileName] = none := by decide +kernel
  obtain ⟨-, -, hthere⟩ := find_nearest oneUp usable_oneUp "p/q/A.json"
  obtain ⟨-, -, found, hrun, -, hfound, -⟩ := hthere .file hkind
  have hhome : oneUp.placeOf (startDir "p/q/A.json" .file) = [Text.ofString "p"] ++ [Text.ofString "q"] := by
    decide +kernel
  rw [hhome] at hfound
  refine ⟨usable_oneUp, found, hrun, (hfound _).mpr ⟨["p"], (isNearest_self ⟨?_, ?_⟩).concat ?_, ?_⟩⟩
  · decide +kernel
  · decide +kernel
  · exact fun hvisible => hvisible.1 hmissing
  · decide +kernel

end ClassForge.Settings
