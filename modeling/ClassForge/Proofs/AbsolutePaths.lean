import ClassForge.Proofs.Lineages
import ClassForge.Proofs.Paths

/-!
# Clean absolute paths

A clean absolute path is a list of names, written out. Its directory is the list without the
last of them, and what stands at it is what the tree has under these names. Every path leads
where a clean absolute path does.
-/

namespace ClassForge

open FileTree (parts enter)

/-! ## Clean absolute paths -/

namespace FileTree

theorem foldl_enter_names {names : List Text} (h : ∀ p ∈ names, Path.IsName p) (here : List Text) :
    names.foldl enter here = here ++ names := by
  induction names generalizing here with
  | nil => exact (List.append_nil here).symm
  | cons name names ih =>
    rw [List.forall_mem_cons] at h
    rw [List.foldl_cons, ih h.2, enter_name h.1, List.append_assoc]
    rfl

end FileTree

namespace Path

section
variable {names : List Text} {name : Text}

theorem Kept.isName {kept : List Text} (h : Kept true kept) : ∀ p ∈ kept, IsName p := by
  cases h with
  | nil => exact fun _ => nofun
  | up hroot _ _ => cases hroot
  | name h hpart => exact List.forall_mem_cons.mpr ⟨hpart, h.isName⟩

theorem kept_reverse (h : ∀ p ∈ names, IsName p) (rooted : Bool) : Kept rooted names.reverse := by
  induction names using List.reverseRecOn with
  | nil => exact .nil
  | append_singleton names name ih =>
    rw [List.forall_mem_append] at h
    rw [List.reverse_concat]
    exact .name (ih h.1) (h.2 name List.mem_cons_self)

theorem cleanParts_eq_foldl_enter (path : Text) :
    cleanParts true (Text.splitAt slash path) = (parts path).foldl enter [] := by
  have hnames : ∀ p ∈ cleanParts true (Text.splitAt slash path), IsName p := fun p hp =>
    (kept_splitAt true path).isName p (List.mem_reverse.mp hp)
  have hfold := @FileTree.foldl_enter_cleanStep true [] (Text.splitAt slash path) [] .nil
    (fun _ => Text.not_mem_of_mem_splitAt) (fun _ => rfl)
  rw [← List.nil_append (cleanParts _ _), ← FileTree.foldl_enter_names hnames]
  exact hfold

theorem parts_spell (h : ∀ p ∈ names, IsName p) : parts (spell true names) = names := by
  induction names using List.reverseRecOn with
  | nil => rfl
  | append_singleton names name _ =>
    rw [List.forall_mem_append] at h
    have hname := h.2 name List.mem_cons_self
    rw [spell_concat hname.ne_nil, FileTree.parts_lead _ hname.ne_nil hname.no_slash]
    exact fun p hp => ⟨(h.1 p hp).ne_nil, (h.1 p hp).no_slash⟩

theorem upToSlash_cases (path : Text) : slash ∉ path ∧ upToSlash path = [] ∨
    ∃ front name, slash ∉ name ∧ path = front ++ slash :: name ∧ upToSlash path = front ++ [slash] := by
  obtain ⟨name, hpath, hname, hrest⟩ := Text.dropWhile_spec (· != slash) path.reverse
  have hslash : slash ∉ name.reverse := by
    intro hmem
    simpa using hname _ (List.mem_reverse.mp hmem)
  unfold upToSlash
  cases hbody : path.reverse.dropWhile (· != slash) with
  | nil =>
    rw [hbody, List.append_nil, List.reverse_eq_iff] at hpath
    exact .inl ⟨hpath ▸ hslash, rfl⟩
  | cons b rest =>
    have hb : b = slash := by simpa using hrest b rest hbody
    rw [hbody, hb, List.reverse_eq_iff, List.reverse_append, List.reverse_cons, List.append_assoc] at hpath
    refine .inr ⟨rest.reverse, name.reverse, hslash, hpath, ?_⟩
    rw [hb, List.reverse_cons]

theorem dir_spell (h : ∀ p ∈ names, IsName p) (hname : IsName name) :
    dir (spell true (names ++ [name])) = spell true names := by
  have hclean := clean_lead (kept_reverse h true)
  rw [List.reverse_reverse] at hclean
  rw [spell_concat hname.ne_nil, dir, upToSlash_lead hname.no_slash, hclean]

theorem length_spell_le_lead (h : ∀ p ∈ names, IsName p) :
    (spell true names).length ≤ (lead true names).length := by
  induction names using List.reverseRecOn with
  | nil => exact Nat.le_refl _
  | append_singleton names name _ =>
    rw [List.forall_mem_append] at h
    rw [spell_concat (h.2 name List.mem_cons_self).ne_nil]
    simp [lead]

theorem length_dir_spell_lt (h : ∀ p ∈ names, IsName p) (hname : IsName name) :
    (dir (spell true (names ++ [name]))).length < (spell true (names ++ [name])).length := by
  have hpos := List.length_pos_iff.mpr hname.ne_nil
  have hlength : (spell true (names ++ [name])).length = (lead true names ++ name).length :=
    congrArg List.length (spell_concat hname.ne_nil)
  rw [List.length_append] at hlength
  calc (dir (spell true (names ++ [name]))).length = (spell true names).length := by rw [dir_spell h hname]
    _ ≤ (lead true names).length := length_spell_le_lead h
    _ < (spell true (names ++ [name])).length := by omega

theorem lead_append (rooted : Bool) (front rest : List Text) :
    lead rooted (front ++ rest) = lead rooted front ++ rest.flatMap (· ++ [slash]) := by
  simp [lead]

theorem length_spell_le_of_prefix {front : List Text} (h : front <+: names) (hname : IsName name) :
    (spell true (front ++ [name])).length ≤ (spell true (names ++ [name])).length := by
  obtain ⟨rest, rfl⟩ := h
  rw [spell_concat hname.ne_nil, spell_concat hname.ne_nil, lead_append, List.length_append, List.length_append,
    List.length_append]
  omega

theorem join_spell (h : ∀ p ∈ names, IsName p) (hname : IsName name) :
    join [spell true names, name] = spell true (names ++ [name]) := by
  have hparts : cleanParts true (Text.splitAt slash (spell true names)) = names := by
    rw [cleanParts_eq_foldl_enter, parts_spell h, FileTree.foldl_enter_names h, List.nil_append]
  rw [join_name hname]
  exact congrArg (fun ps => spell true (ps ++ [name])) hparts

theorem upward_concat (h : ∀ p ∈ names, IsName p) (hname : IsName name) :
    upward (spell true (names ++ [name])) = spell true (names ++ [name]) :: upward (spell true names) := by
  have hupward (ps : List Text) (hps : ∀ p ∈ ps, IsName p) :
      upward (spell true ps) =
        (List.range (ps.length + 1)).map fun k => spell true (ps.take (ps.length - k)) := by
    have := parts_spell hps
    unfold parts at this
    simp only [upward, this]
    rfl
  have hboth : ∀ p ∈ names ++ [name], IsName p :=
    List.forall_mem_append.mpr ⟨h, List.forall_mem_singleton.mpr hname⟩
  rw [hupward _ hboth, hupward _ h, List.length_append, List.length_singleton, List.range_succ_eq_map,
    List.map_cons, List.map_map]
  refine congrArg₂ List.cons ?_ (List.map_congr_left fun k _ => ?_)
  · rw [Nat.sub_zero, List.take_of_length_le (by simp)]
  · show spell true ((names ++ [name]).take (names.length + 1 - (k + 1))) = _
    rw [Nat.add_sub_add_right, List.take_append_of_le_length (Nat.sub_le _ _)]

end

end Path

/-! ## Trees that can be searched -/

namespace FileTree

/-- A name that an entry of a directory can have. -/
structure IsEntry (part : Text) : Prop where
  isName : Path.IsName part
  no_zero : 0 ∉ part
  length_le : part.length ≤ maxName

instance (part : Text) : Decidable (IsEntry part) :=
  decidable_of_iff ((part ≠ [] ∧ part ≠ Text.ofString "." ∧ part ≠ Text.ofString ".." ∧
      Path.slash ∉ part) ∧ 0 ∉ part ∧ part.length ≤ maxName)
    ⟨fun ⟨⟨hne, hdot, hdots, hslash⟩, hzero, hlen⟩ => ⟨⟨hne, hdot, hdots, hslash⟩, hzero, hlen⟩,
      fun ⟨⟨hne, hdot, hdots, hslash⟩, hzero, hlen⟩ => ⟨⟨hne, hdot, hdots, hslash⟩, hzero, hlen⟩⟩

structure Usable (t : FileTree) : Prop where
  sound : t.Sound
  entries : ∀ place, t.get? place ≠ none → ∀ part ∈ place, IsEntry part
  current : t.get? t.current = some .directory

/-- Something stands at the place, and its path is not too long to be looked up. -/
def Visible (t : FileTree) (place : List Text) : Prop :=
  t.get? place ≠ none ∧ (Path.spell true place).length < maxPath

theorem get?_ne_none {t : FileTree} {place : List Text} {node : FileNode} (h : t.get? place = some node) :
    t.get? place ≠ none := by
  rw [h]
  exact Option.some_ne_none node

theorem usable_empty : ({} : FileTree).Usable where
  sound := sound_empty []
  entries place hplace := by
    by_cases hnil : place = []
    · rw [hnil]
      exact fun _ => nofun
    · rw [get?, if_neg hnil] at hplace
      exact absurd Std.TreeMap.getElem?_emptyc hplace
  current := rfl

section
variable {t : FileTree} {path : Text} {place here names : List Text} {name part : Text}

theorem Usable.insert (h : t.Usable) (place : List Text) (part : Text)
    (hdir : t.get? place = some .directory) (hpart : IsEntry part) (hnew : t.get? (place ++ [part]) ≠ some .directory) (node : FileNode) :
    (t.insert (place ++ [part]) node).Usable := by
  have hget (other : List Text) : (t.insert (place ++ [part]) node).get? other =
      if other = place ++ [part] then some node else t.get? other := get?_insert t (by simp) node other
  have hkeep (other : List Text) (hother : t.get? other = some .directory) :
      (t.insert (place ++ [part]) node).get? other = some .directory := by
    rw [hget, if_neg fun heq : other = place ++ [part] => hnew (heq ▸ hother), hother]
  refine ⟨fun other hne hthere => hkeep _ ?_, fun other hthere => ?_, hkeep _ h.current⟩
  · rw [hget] at hthere
    by_cases heq : other = place ++ [part]
    · rw [heq, List.dropLast_concat, hdir]
    · rw [if_neg heq] at hthere
      exact h.sound other hne hthere
  · rw [hget] at hthere
    by_cases heq : other = place ++ [part]
    · rw [heq, List.forall_mem_append]
      exact ⟨h.entries place (get?_ne_none hdir), List.forall_mem_singleton.mpr hpart⟩
    · rw [if_neg heq] at hthere
      exact h.entries other hthere

theorem Sound.directory_dropLast (h : t.Sound) (hplace : t.get? place = some .directory) :
    t.get? place.dropLast = some .directory := by
  by_cases hnil : place = []
  · rw [hnil]
    rfl
  · exact h place hnil (get?_ne_none hplace)

theorem Sound.directory_of_append (h : t.Sound) (below : List Text)
    (hplace : t.get? (here ++ below) = some .directory) : t.get? here = some .directory := by
  induction below using List.reverseRecOn with
  | nil => rwa [List.append_nil] at hplace
  | append_singleton below part ih =>
    have hdir := h.directory_dropLast hplace
    rw [← List.append_assoc, List.dropLast_concat] at hdir
    exact ih hdir

theorem endAt_directory (h : endAt path here = .directory place) (hsound : t.Sound)
    (hdescend : t.descend (parts path).dropLast (t.start path) = .ok here) :
    place = t.placeOf path ∧ t.get? place = some .directory := by
  obtain ⟨hhere, hdir⟩ := descend_ok hdescend
  unfold placeOf
  unfold endAt at h
  cases hlast : (parts path).getLast? with
  | none =>
    rw [hlast] at h
    cases h
    rw [List.getLast?_eq_none_iff.mp hlast] at hhere ⊢
    exact ⟨hhere, hdir⟩
  | some part =>
    obtain ⟨front, hparts⟩ := List.getLast?_eq_some_iff.mp hlast
    rw [hlast] at h
    rw [hparts, List.dropLast_concat] at hhere
    rw [hparts, List.foldl_append, ← hhere, List.foldl_cons, List.foldl_nil, enter]
    by_cases hdot : part = Text.ofString "."
    · simp only [if_pos hdot] at h ⊢
      cases h
      exact ⟨rfl, hdir⟩
    by_cases hdots : part = Text.ofString ".."
    · simp only [if_neg hdot, if_pos hdots] at h ⊢
      cases h
      exact ⟨rfl, hsound.directory_dropLast hdir⟩
    simp only [if_neg hdot, if_neg hdots] at h
    cases h

theorem locate_found {node : FileNode} (hsound : t.Sound) (h : t.locate path = .ok (.found place node)) :
    place = t.placeOf path ∧ t.get? place = some node := by
  unfold locate at h
  split at h
  · cases h
  · rename_i place' hend
    cases h
    obtain ⟨-, here, hdescend, hat⟩ := ending_ok.mp hend
    exact endAt_directory hat hsound hdescend
  · rename_i place' slashed hend
    have hplace := (ending_child hend).1
    split at h
    · cases h
    split at h
    · cases h
    · rename_i hget
      cases h
      exact ⟨hplace, hget⟩
    · rename_i hget
      split at h
      · cases h
      · cases h
        exact ⟨hplace, hget⟩

theorem kindAt_some {kind : FileKind} (h : t.kindAt path = some kind) :
    ∃ place node, t.locate path = .ok (.found place node) ∧ (kind = .directory → node = .directory) ∧
      (kind = .file → ∃ data shared, node = .file data shared) := by
  unfold kindAt at h
  split at h
  · rename_i place hlocate
    cases h
    exact ⟨place, .directory, hlocate, fun _ => rfl, nofun⟩
  · rename_i place data shared hlocate
    cases h
    exact ⟨place, .file data shared, hlocate, nofun, fun _ => ⟨data, shared, rfl⟩⟩
  · cases h

theorem Sound.get?_of_kindAt (hsound : t.Sound) (h : t.kindAt path = some .directory) :
    t.get? (t.placeOf path) = some .directory := by
  obtain ⟨place, node, hlocate, hnode, -⟩ := kindAt_some h
  obtain ⟨rfl, hget⟩ := locate_found hsound hlocate
  rw [hget, hnode rfl]

theorem ending_of_kindAt_file (h : t.kindAt path = some .file) :
    t.ending path = .ok (.child (t.placeOf path) false) := by
  obtain ⟨place, node, hlocate, -, hnode⟩ := kindAt_some h
  obtain ⟨data, shared, rfl⟩ := hnode rfl
  obtain ⟨hend, -, -⟩ := locate_file.mp hlocate
  rwa [(ending_child hend).1] at hend

/-! ## Places of paths -/

theorem descend_names (hsound : t.Sound) (hnames : ∀ p ∈ names, IsEntry p)
    (h : t.get? (here ++ names) = some .directory) : t.descend names here = .ok (here ++ names) := by
  have hstop : t.stop? here = none := stop?_eq_none.mpr (hsound.directory_of_append names h)
  induction names generalizing here with
  | nil => rw [descend_nil hstop, List.append_nil]
  | cons name names ih =>
    rw [List.forall_mem_cons] at hnames
    rw [List.append_cons] at h ⊢
    rw [descend_cons hstop, if_neg (Nat.not_lt.mpr hnames.1.length_le), enter_name hnames.1.isName]
    exact ih hnames.2 h (stop?_eq_none.mpr (hsound.directory_of_append names h))

theorem legal_spell (hnames : ∀ p ∈ names, IsEntry p) :
    Legal (Path.spell true names) ↔ (Path.spell true names).length < maxPath := by
  have hzero : (Path.spell true names).contains 0 = false := by
    rw [Bool.eq_false_iff, ne_eq, List.contains_iff_mem]
    cases names using List.reverseRecOn with
    | nil => decide
    | append_singleton names name =>
      have hslash : (0 : UInt8) ≠ Path.slash := by decide
      rw [List.forall_mem_append] at hnames
      obtain ⟨hname, hnozero, -⟩ := hnames.2 name List.mem_cons_self
      rw [Path.spell_concat hname.ne_nil, Path.lead, List.mem_append, List.mem_append, List.mem_flatMap]
      rintro ((hmem | ⟨p, hp, hmem⟩) | hmem)
      · exact hslash (List.mem_singleton.mp hmem)
      · rcases List.mem_append.mp hmem with hmem | hmem
        · exact (hnames.1 p hp).no_zero hmem
        · exact hslash (List.mem_singleton.mp hmem)
      · exact hnozero hmem
  exact ⟨fun h => h.2.2, fun h => ⟨List.cons_ne_nil _ _, hzero, h⟩⟩

theorem placeOf_spell {rooted : Bool} (hnames : ∀ p ∈ names, p ≠ [] ∧ Path.slash ∉ p) (t : FileTree) :
    t.placeOf (Path.spell rooted names) = names.foldl enter (if rooted then [] else t.current) := by
  induction names using List.reverseRecOn with
  | nil => cases rooted <;> rfl
  | append_singleton names name _ =>
    rw [List.forall_mem_append] at hnames
    obtain ⟨hne, hslash⟩ := hnames.2 name List.mem_cons_self
    rw [Path.spell_concat hne, placeOf, start, Path.isAbsolute_lead hnames.1 hslash,
      parts_lead hnames.1 hne hslash]

theorem placeOf_spell_names (hnames : ∀ p ∈ names, Path.IsName p) (t : FileTree) :
    t.placeOf (Path.spell true names) = names := by
  rw [placeOf_spell fun p hp => ⟨(hnames p hp).ne_nil, (hnames p hp).no_slash⟩]
  exact foldl_enter_names hnames []

theorem endAt_spell (hnames : ∀ p ∈ names ++ [name], Path.IsName p) :
    endAt (Path.spell true (names ++ [name])) here = .child (here ++ [name]) false := by
  have hname := hnames name (List.mem_append_right names List.mem_cons_self)
  have hslashed : Path.endsInSlash (Path.spell true (names ++ [name])) = false := by
    rw [Path.spell_concat hname.ne_nil, Path.endsInSlash, List.getLast?_append,
      List.getLast?_eq_some_getLast hname.ne_nil, Option.some_or, decide_eq_false_iff_not, Option.some_inj]
    exact fun hlast => hname.no_slash (hlast ▸ List.getLast_mem hname.ne_nil)
  simp only [endAt, Path.parts_spell hnames, List.getLast?_concat, if_neg hname.ne_dot, if_neg hname.ne_dots,
    hslashed]

theorem ending_spell (hsound : t.Sound) (hnames : ∀ p ∈ names ++ [name], IsEntry p)
    (hdir : t.get? names = some .directory) (hlong : (Path.spell true (names ++ [name])).length < maxPath) :
    t.ending (Path.spell true (names ++ [name])) = .ok (.child (names ++ [name]) false) := by
  have hisName : ∀ p ∈ names ++ [name], Path.IsName p := fun p hp => (hnames p hp).isName
  refine ending_ok.mpr ⟨(legal_spell hnames).mpr hlong, names, ?_, endAt_spell hisName⟩
  rw [Path.parts_spell hisName, List.dropLast_concat]
  exact descend_names hsound (List.forall_mem_append.mp hnames).1 hdir

/-- What can be looked up is what the tree has, and has a path that is short enough. -/
theorem kindAt_spell (hsound : t.Sound) (hnames : ∀ p ∈ names, IsEntry p) :
    (t.kindAt (Path.spell true names)).isSome ↔ t.Visible names := by
  constructor
  · intro h
    obtain ⟨kind, hkind⟩ := Option.isSome_iff_exists.mp h
    obtain ⟨e, hend⟩ := ending_of_kindAt hkind
    obtain ⟨place, node, hlocate, -⟩ := kindAt_some hkind
    obtain ⟨rfl, hget⟩ := locate_found hsound hlocate
    rw [placeOf_spell_names fun p hp => (hnames p hp).isName] at hget
    exact ⟨get?_ne_none hget, (legal_spell hnames).mp (ending_ok.mp hend).1⟩
  · rintro ⟨hthere, hlong⟩
    cases names using List.reverseRecOn with
    | nil =>
      rw [kindAt_of_descend ((legal_spell hnames).mpr hlong) (descend_nil (stop?_eq_none.mpr rfl))]
      rfl
    | append_singleton names name =>
      have hdir := hsound _ (by simp) hthere
      rw [List.dropLast_concat] at hdir
      have hshort : tooLong (names ++ [name]) = false := by
        simpa [tooLong] using (hnames name (List.mem_append_right names List.mem_cons_self)).length_le
      obtain ⟨node, hget⟩ := Option.ne_none_iff_exists'.mp hthere
      cases node <;> simp [kindAt, locate, ending_spell hsound hnames hdir hlong, hshort, hget]

/-- Cleaning changes nothing in where a path leads. -/
theorem placeOf_clean (t : FileTree) (path : Text) : t.placeOf (Path.clean path) = t.placeOf path := by
  have hkept := Path.kept_splitAt (Path.isAbsolute path) path
  have hfold := @foldl_enter_cleanStep (Path.isAbsolute path) [] (Text.splitAt Path.slash path) (t.start path)
    .nil (fun _ => Text.not_mem_of_mem_splitAt) (fun h => by rw [start, if_pos h])
  rw [Path.clean_eq, Path.cleanParts, placeOf_spell fun p hp => hkept.ne_nil_no_slash p (List.mem_reverse.mp hp)]
  exact hfold

theorem placeOf_dir (h : t.ending path = .ok (.child place false)) :
    t.placeOf (Path.dir path) = place.dropLast := by
  obtain ⟨hlegal, here, hdescend, hat⟩ := ending_ok.mp h
  obtain ⟨part, rfl, hslashed, -⟩ := endAt_child hat
  rw [List.dropLast_concat, (descend_ok hdescend).1, Path.dir, placeOf_clean, placeOf]
  rcases Path.upToSlash_cases path with ⟨hslash, hup⟩ | ⟨front, name, hslash, hpath, hup⟩
  · -- the path is a name in the current directory
    have hrelative : Path.isAbsolute path = false :=
      @Path.isAbsolute_lead false [] path (List.forall_mem_nil _) hslash
    have halone : parts (path ++ []) = [path] := parts_name hlegal.1 hslash (List.forall_mem_nil _)
    rw [List.append_nil] at halone
    rw [hup, halone, start, start, hrelative]
    rfl
  · have hne : name ≠ [] := by
      rintro rfl
      rw [hpath] at hslashed
      simp [Path.endsInSlash] at hslashed
    have hname : parts (name ++ []) = [name] := parts_name hne hslash (List.forall_mem_nil _)
    have hstart : t.start (front ++ [Path.slash]) = t.start path := by
      rw [hpath]
      cases front <;> rfl
    rw [List.append_nil] at hname
    have hnil : parts [] = [] := rfl
    rw [hup, hstart, hpath, parts_append, parts_append, hname, hnil, List.append_nil, List.dropLast_concat]

theorem workingDir_eq (t : FileTree) :
    (Storage.workingDir : StateM FileTree _) t = (Path.spell true t.current, t) := rfl

theorem absolute_eq (hcurrent : ∀ p ∈ t.current, Path.IsName p) (path : Text) :
    (Storage.absolute path : StateM FileTree _) t = (Path.spell true (t.placeOf path), t) := by
  have hclean (p : Text) (hp : Path.isAbsolute p = true) :
      Path.clean p = Path.spell true ((parts p).foldl enter []) := by
    rw [Path.clean_eq, hp, Path.cleanParts_eq_foldl_enter]
  by_cases habsolute : Path.isAbsolute path = true
  · rw [Storage.absolute, if_pos habsolute, hclean path habsolute, placeOf, start, if_pos habsolute]
    rfl
  · have hjoin : Path.join [Path.spell true t.current, path] =
        Path.clean (Path.spell true t.current ++ Path.slash :: path) := by
      simp [Path.join, Path.spell, Text.join, List.intercalate_cons_cons]
    rw [Storage.absolute, if_neg habsolute, run_bind, workingDir_eq]
    show (Path.join [Path.spell true t.current, path], t) = _
    rw [hjoin, hclean _ rfl, parts_append, Path.parts_spell hcurrent, List.foldl_append,
      foldl_enter_names hcurrent, List.nil_append, placeOf, start, if_neg habsolute]

end

end FileTree

end ClassForge
