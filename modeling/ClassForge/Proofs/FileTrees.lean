import Mathlib.Data.List.Induction
import ClassForge.FileTree

/-!
# File trees over time

A path is looked up directory by directory. Where directories are only added and a
file stays as it is, the path reads what it read before, unless it climbs out of a
directory that was made in the meantime.
-/

namespace ClassForge.FileTree

/-! ## Places -/

section
variable (t : FileTree) {place : List Text}

theorem get?_insert (h : place ≠ []) (node : FileNode) (other : List Text) :
    (t.insert place node).get? other = if other = place then some node else t.get? other := by
  unfold get? insert
  by_cases ho : other = []
  · simp [ho, h.symm]
  · by_cases he : other = place
    · simp [he, h]
    · have hc : ¬compare place other = .eq := fun hc => he (Std.LawfulEqOrd.eq_of_compare hc).symm
      simp [ho, he, Std.TreeMap.getElem?_insert, hc]

theorem get?_erase (h : place ≠ []) (other : List Text) :
    (t.erase place).get? other = if other = place then none else t.get? other := by
  unfold get? erase
  by_cases ho : other = []
  · simp [ho, h.symm]
  · by_cases he : other = place
    · simp [he, h]
    · have hc : ¬compare place other = .eq := fun hc => he (Std.LawfulEqOrd.eq_of_compare hc).symm
      simp [ho, he, Std.TreeMap.getElem?_erase, hc]

end

def fileAt? (t : FileTree) (place : List Text) : Option (Text × Bool) :=
  match t.get? place with
  | some (.file data shared) => some (data, shared)
  | _ => none

theorem fileAt?_eq_some {t : FileTree} {place : List Text} {data : Text} {shared : Bool} :
    t.fileAt? place = some (data, shared) ↔ t.get? place = some (.file data shared) := by
  unfold fileAt?
  split
  · rename_i h
    simp [h]
  · rename_i h
    simpa using h data shared

/-- Everything lies in a directory. -/
def Sound (t : FileTree) : Prop :=
  ∀ place ≠ [], t.get? place ≠ none → t.get? place.dropLast = some .directory

theorem Sound.get?_eq_none {t : FileTree} (h : t.Sound) {place : List Text} (hp : t.get? place = none)
    (below : List Text) : t.get? (place ++ below) = none := by
  induction below using List.reverseRecOn with
  | nil => rwa [List.append_nil]
  | append_singleton below part ih =>
    by_contra hne
    have hdir := h _ (by simp) hne
    rw [← List.append_assoc, List.dropLast_concat, ih] at hdir
    cases hdir

theorem sound_empty (current : List Text) : ({ current } : FileTree).Sound := by
  intro place hne h
  unfold get? at h
  rw [if_neg hne] at h
  exact absurd Std.TreeMap.getElem?_emptyc h

/-! ## Going down a path -/

def parts (path : Text) : List Text := (Text.splitAt Path.slash path).filter (· != [])

def start (t : FileTree) (path : Text) : List Text := if Path.isAbsolute path then [] else t.current

def enter (here : List Text) (part : Text) : List Text :=
  if part = Text.ofString "." then here
  else if part = Text.ofString ".." then here.dropLast
  else here ++ [part]

/-- The place that a path names, whatever stands there. -/
def placeOf (t : FileTree) (path : Text) : List Text := (parts path).foldl enter (t.start path)

section
variable {t t' : FileTree} {ps here place : List Text} {part : Text} {r : FileReason}

def stop? (t : FileTree) (here : List Text) : Option FileReason :=
  match t.get? here with
  | none => some .noEntry
  | some (.file _ _) => some .notDirectory
  | some .directory => none

theorem stop?_eq_none : t.stop? here = none ↔ t.get? here = some .directory := by
  unfold stop?
  split <;> simp_all

theorem stop?_eq_noEntry : t.stop? here = some .noEntry ↔ t.get? here = none := by
  unfold stop?
  split <;> simp_all

theorem descend_stop (h : t.stop? here = some r) (ps : List Text) : t.descend ps here = .error r := by
  unfold stop? at h
  unfold descend
  split at h
  all_goals simp_all

theorem descend_nil (h : t.stop? here = none) : t.descend [] here = .ok here := by
  unfold descend
  rw [stop?_eq_none.mp h]

theorem descend_cons (h : t.stop? here = none) (part : Text) (ps : List Text) :
    t.descend (part :: ps) here =
      if maxName < part.length then .error .nameTooLong else t.descend ps (enter here part) := by
  have hdots (name : String) (hn : (Text.ofString name).length ≤ maxName)
      (h : part = Text.ofString name) : ¬maxName < part.length := by
    rw [h]
    exact Nat.not_lt.mpr hn
  rw [descend]
  simp only [stop?_eq_none.mp h, enter]
  by_cases hone : part = Text.ofString "."
  · rw [if_pos hone, if_pos hone, if_neg (hdots "." (by decide) hone)]
  · rw [if_neg hone, if_neg hone]
    by_cases htwo : part = Text.ofString ".."
    · rw [if_pos htwo, if_pos htwo, if_neg (hdots ".." (by decide) htwo)]
    · rw [if_neg htwo, if_neg htwo]

theorem descend_cons_ok (h : t.descend (part :: ps) here = .ok place) :
    t.stop? here = none ∧ ¬maxName < part.length ∧ t.descend ps (enter here part) = .ok place := by
  cases hstop : t.stop? here with
  | some r =>
    rw [descend_stop hstop] at h
    cases h
  | none =>
    rw [descend_cons hstop] at h
    split at h
    · cases h
    · rename_i hlen
      exact ⟨rfl, hlen, h⟩

/-- A descent that fails does so where it stands, at the name in front of it, or behind. -/
theorem descend_error (h : t.descend ps here = .error r) :
    t.stop? here = some r ∨ t.stop? here = none ∧ ∃ part rest, ps = part :: rest ∧
      (maxName < part.length ∧ r = .nameTooLong ∨
        ¬maxName < part.length ∧ t.descend rest (enter here part) = .error r) := by
  cases hstop : t.stop? here with
  | some r' =>
    rw [descend_stop hstop] at h
    cases h
    exact .inl rfl
  | none =>
    refine .inr ⟨rfl, ?_⟩
    cases ps with
    | nil =>
      rw [descend_nil hstop] at h
      cases h
    | cons part rest =>
      rw [descend_cons hstop] at h
      split at h
      · rename_i hlong
        cases h
        exact ⟨part, rest, rfl, .inl ⟨hlong, rfl⟩⟩
      · rename_i hlen
        exact ⟨part, rest, rfl, .inr ⟨hlen, h⟩⟩

theorem descend_append (h : t.descend ps here = .error r) (rest : List Text) :
    t.descend (ps ++ rest) here = .error r := by
  induction ps generalizing here with
  | nil =>
    rcases descend_error h with hstop | ⟨-, part, rest, hps, -⟩
    · exact descend_stop hstop _
    · cases hps
  | cons part ps ih =>
    rcases descend_error h with hstop | ⟨hstop, part, rest, hps, hpart⟩
    · exact descend_stop hstop _
    · cases hps
      rw [List.cons_append, descend_cons hstop]
      rcases hpart with ⟨hlong, rfl⟩ | ⟨hlen, hrest⟩
      · rw [if_pos hlong]
      · rw [if_neg hlen]
        exact ih hrest

/-- A descent ends in a directory at the place that the elements name. -/
theorem descend_ok (h : t.descend ps here = .ok place) :
    place = ps.foldl enter here ∧ t.get? place = some .directory := by
  induction ps generalizing here with
  | nil =>
    cases hstop : t.stop? here with
    | some r =>
      rw [descend_stop hstop] at h
      cases h
    | none =>
      rw [descend_nil hstop] at h
      cases h
      exact ⟨rfl, stop?_eq_none.mp hstop⟩
  | cons part ps ih => exact ih (descend_cons_ok h).2.2

theorem descend_mono (hdirs : ∀ p, t.get? p = some .directory → t'.get? p = some .directory)
    (h : t.descend ps here = .ok place) : t'.descend ps here = .ok place := by
  induction ps generalizing here with
  | nil =>
    obtain ⟨rfl, hget⟩ := descend_ok h
    exact descend_nil (stop?_eq_none.mpr (hdirs _ hget))
  | cons part ps ih =>
    obtain ⟨hstop, hlen, hrest⟩ := descend_cons_ok h
    rw [descend_cons (stop?_eq_none.mpr (hdirs _ (stop?_eq_none.mp hstop))), if_neg hlen]
    exact ih hrest

/-- Later there are more directories, and the files that were there are still files. -/
structure Grown (t t' : FileTree) : Prop where
  current : t'.current = t.current
  directories : ∀ p, t.get? p = some .directory → t'.get? p = some .directory
  files : ∀ p, (t.fileAt? p).isSome → (t'.fileAt? p).isSome

theorem Grown.refl (t : FileTree) : Grown t t := ⟨rfl, fun _ => id, fun _ => id⟩

theorem Grown.trans {u : FileTree} (h : Grown t t') (h' : Grown t' u) : Grown t u where
  current := h'.current.trans h.current
  directories := fun p hp => h'.directories p (h.directories p hp)
  files := fun p hp => h'.files p (h.files p hp)

theorem Grown.stop? (h : Grown t t') (hr : t.stop? here ≠ some .noEntry) :
    t'.stop? here = t.stop? here := by
  have hdirs := h.directories here
  have hfiles := h.files here
  unfold fileAt? at hfiles
  unfold FileTree.stop? at hr ⊢
  cases hget : t.get? here with
  | none => simp [hget] at hr
  | some node =>
    cases node with
    | directory => simp [hdirs hget]
    | file data shared =>
      simp only [hget, Option.isSome_some, forall_const] at hfiles
      split at hfiles
      · rename_i h'
        simp [h']
      · cases hfiles

theorem Grown.descend_error (h : Grown t t') (hr : r ≠ .noEntry) (hd : t.descend ps here = .error r) :
    t'.descend ps here = .error r := by
  induction ps generalizing here with
  | nil =>
    rcases FileTree.descend_error hd with hstop | ⟨-, part, rest, hps, -⟩
    · exact descend_stop (by rw [h.stop? (by simp [hstop, hr]), hstop]) []
    · cases hps
  | cons part ps ih =>
    rcases FileTree.descend_error hd with hstop | ⟨hstop, part, rest, hps, hpart⟩
    · exact descend_stop (by rw [h.stop? (by simp [hstop, hr]), hstop]) _
    · cases hps
      rw [descend_cons (by rw [h.stop? (by simp [hstop]), hstop])]
      rcases hpart with ⟨hlong, rfl⟩ | ⟨hlen, hrest⟩
      · rw [if_pos hlong]
      · rw [if_neg hlen]
        exact ih hrest

theorem prefix_foldl_enter (h : Text.ofString ".." ∉ ps) : here <+: ps.foldl enter here := by
  induction ps generalizing here with
  | nil => exact List.prefix_refl here
  | cons part ps ih =>
    rw [List.mem_cons, not_or] at h
    refine List.IsPrefix.trans ?_ (ih h.2)
    unfold enter
    split
    · exact List.prefix_refl here
    · rw [if_neg (Ne.symm h.1)]
      exact List.prefix_append here [part]

/-- A descent that misses a place and does not climb back from there names a place
below it. -/
theorem descend_noEntry (h : t.descend ps here = .error .noEntry)
    (hclimb : ∀ front back, ps = front ++ Text.ofString ".." :: back →
      t.descend front here ≠ .error .noEntry) :
    ∃ missing, t.get? missing = none ∧ missing <+: ps.foldl enter here := by
  induction ps generalizing here with
  | nil =>
    rcases descend_error h with hstop | ⟨-, part, rest, hps, -⟩
    · exact ⟨here, stop?_eq_noEntry.mp hstop, List.prefix_refl here⟩
    · cases hps
  | cons part ps ih =>
    rcases descend_error h with hstop | ⟨hstop, part, rest, hps, hpart⟩
    · refine ⟨here, stop?_eq_noEntry.mp hstop, prefix_foldl_enter fun hmem => ?_⟩
      obtain ⟨front, back, hps⟩ := List.append_of_mem hmem
      exact hclimb front back hps (descend_stop hstop front)
    · cases hps
      rcases hpart with ⟨-, hr⟩ | ⟨hlen, hrest⟩
      · cases hr
      · refine ih hrest fun front back hps hfront => hclimb (part :: front) back (by rw [hps]; rfl) ?_
        rw [descend_cons hstop, if_neg hlen, hfront]

end

/-! ## Paths to files -/

/-- The path climbs by `..` out of a directory that is missing. -/
def Climbs (t : FileTree) (path : Text) : Prop :=
  ∃ front back, (parts path).dropLast = front ++ Text.ofString ".." :: back ∧
    t.descend front (t.start path) = .error .noEntry

def Legal (path : Text) : Prop := path ≠ [] ∧ path.contains 0 = false ∧ path.length < maxPath

def endAt (path : Text) (here : List Text) : PathEnd :=
  match (parts path).getLast? with
  | none => .directory here
  | some part =>
    if part = Text.ofString "." then .directory here
    else if part = Text.ofString ".." then .directory here.dropLast
    else .child (here ++ [part]) (Path.endsInSlash path)

section
variable {t t' : FileTree} {path data : Text} {place here : List Text} {slashed : Bool}

theorem ending_ok {e : PathEnd} : t.ending path = .ok e ↔
    Legal path ∧ ∃ here, t.descend (parts path).dropLast (t.start path) = .ok here ∧ endAt path here = e := by
  unfold ending
  by_cases hnil : path = []
  · rw [if_pos hnil]
    exact ⟨(nomatch ·), fun h => absurd hnil h.1.1⟩
  by_cases hzero : path.contains 0 = true
  · rw [if_neg hnil, if_pos hzero]
    exact ⟨(nomatch ·), fun h => absurd (hzero.symm.trans h.1.2.1) (by decide)⟩
  by_cases hlong : maxPath ≤ path.length
  · rw [if_neg hnil, if_neg hzero, if_pos hlong]
    exact ⟨(nomatch ·), fun h => absurd h.1.2.2 (Nat.not_lt.mpr hlong)⟩
  have hlegal : Legal path := ⟨hnil, Bool.eq_false_iff.mpr hzero, Nat.lt_of_not_le hlong⟩
  have hparts : (Text.splitAt Path.slash path).filter (· != []) = parts path := rfl
  have hstart : (if Path.isAbsolute path then [] else t.current) = t.start path := rfl
  rw [if_neg hnil, if_neg hzero, if_neg hlong]
  simp only [hlegal, true_and, hparts, hstart]
  cases t.descend (parts path).dropLast (t.start path) with
  | error r => simp
  | ok here =>
    simp only [Except.ok.injEq, exists_eq_left', endAt]
    cases (parts path).getLast? with
    | none => simp
    | some part =>
      simp only
      split
      · simp
      · split <;> simp

theorem endAt_child (h : endAt path here = .child place slashed) :
    ∃ part, place = here ++ [part] ∧ slashed = Path.endsInSlash path ∧
      place = enter here part ∧ parts path = (parts path).dropLast ++ [part] := by
  unfold endAt at h
  cases hp : (parts path).getLast? with
  | none => simp [hp] at h
  | some part =>
    simp only [hp] at h
    split at h
    · cases h
    · split at h
      · cases h
      · rename_i hone htwo
        cases h
        refine ⟨part, rfl, rfl, ?_, ?_⟩
        · rw [enter, if_neg hone, if_neg htwo]
        · obtain ⟨front, hfront⟩ := List.getLast?_eq_some_iff.mp hp
          rw [hfront, List.dropLast_concat]

/-- A path that ends in a name leads to the place it names, in a directory that is
there. -/
theorem ending_child (h : t.ending path = .ok (.child place slashed)) :
    place = t.placeOf path ∧ place ≠ [] ∧ t.get? place.dropLast = some .directory ∧
      slashed = Path.endsInSlash path := by
  obtain ⟨-, here, hdescend, hend⟩ := ending_ok.mp h
  obtain ⟨hplace, hdir⟩ := descend_ok hdescend
  obtain ⟨part, hchild, hslash, henter, hparts⟩ := endAt_child hend
  refine ⟨?_, ?_, ?_, hslash⟩
  · rw [placeOf, hparts, List.foldl_append, ← hplace]
    exact henter
  · simp [hchild]
  · rw [hchild, List.dropLast_concat]
    exact hdir

theorem start_congr (h : t'.current = t.current) (path : Text) : t'.start path = t.start path := by
  unfold start
  rw [h]

theorem placeOf_congr (h : t'.current = t.current) (path : Text) : t'.placeOf path = t.placeOf path := by
  rw [placeOf, placeOf, start_congr h]

theorem ending_mono {e : PathEnd} (h : t.ending path = .ok e) (hcurrent : t'.current = t.current)
    (hdirs : ∀ p, t.get? p = some .directory → t'.get? p = some .directory) :
    t'.ending path = .ok e := by
  obtain ⟨hlegal, here, hdescend, hend⟩ := ending_ok.mp h
  refine ending_ok.mpr ⟨hlegal, here, ?_, hend⟩
  rw [start_congr hcurrent]
  exact descend_mono hdirs hdescend

theorem locate_file {shared : Bool} : t.locate path = .ok (.found place (.file data shared)) ↔
    t.ending path = .ok (.child place false) ∧ tooLong place = false ∧
      t.get? place = some (.file data shared) := by
  constructor
  · intro h
    unfold locate at h
    split at h
    · cases h
    · cases h
    · rename_i place' slashed hend
      split at h
      · cases h
      · rename_i hlong
        split at h
        · cases h
        · cases h
        · rename_i hget
          split at h
          · cases h
          · rename_i hslash
            cases h
            rw [Bool.eq_false_iff.mpr hslash] at hend
            exact ⟨hend, Bool.eq_false_iff.mpr hlong, hget⟩
  · rintro ⟨hend, hlong, hget⟩
    simp [locate, hend, hlong, hget]

theorem read_ok : t.read path = .ok data ↔
    ∃ place shared, t.locate path = .ok (.found place (.file data shared)) := by
  unfold read
  cases t.locate path with
  | error r => simp
  | ok target =>
    cases target with
    | absent place => simp
    | found place node => cases node <;> simp

theorem Climbs.mem_parts (h : t.Climbs path) : Text.ofString ".." ∈ parts path := by
  obtain ⟨front, back, hparts, -⟩ := h
  exact List.dropLast_subset _ (hparts ▸ List.mem_append_right front List.mem_cons_self)

/-- What is missing later was missing before. -/
theorem Grown.climbs (h : Grown t t') (hclimb : t'.Climbs path) : t.Climbs path := by
  obtain ⟨front, back, hparts, hfront⟩ := hclimb
  rw [start_congr h.current] at hfront
  refine ⟨front, back, hparts, ?_⟩
  cases hd : t.descend front (t.start path) with
  | ok here =>
    rw [descend_mono h.directories hd] at hfront
    cases hfront
  | error r =>
    by_cases hr : r = .noEntry
    · rw [hr]
    · rw [← hfront, h.descend_error hr hd]

theorem Climbs.read_ne (h : t.Climbs path) : t.read path ≠ .ok data := by
  intro hread
  simp only [read_ok, locate_file] at hread
  obtain ⟨place, shared, hend, -⟩ := hread
  obtain ⟨-, here, hdescend, -⟩ := ending_ok.mp hend
  obtain ⟨front, back, hparts, hfront⟩ := h
  rw [hparts, descend_append hfront] at hdescend
  cases hdescend

theorem Grown.read (h : Grown t t')
    (hfile : t'.fileAt? (t.placeOf path) = t.fileAt? (t.placeOf path)) (hread : t.read path = .ok data) :
    t'.read path = .ok data := by
  simp only [read_ok, locate_file] at hread ⊢
  obtain ⟨place, shared, hend, hlong, hget⟩ := hread
  refine ⟨place, shared, ending_mono hend h.current h.directories, hlong, ?_⟩
  rw [← fileAt?_eq_some] at hget ⊢
  rw [← hget, (ending_child hend).1, hfile]

/-- A file that stays as it is can be read later only if it can be read now, unless
its path climbs out of a directory that was made in the meantime. -/
theorem Grown.read_iff (h : Grown t t') (hs : t.Sound) (hclimb : t.Climbs path → t'.Climbs path)
    (hfile : t'.fileAt? (t.placeOf path) = t.fileAt? (t.placeOf path)) :
    t'.read path = .ok data ↔ t.read path = .ok data := by
  refine ⟨fun hread => ?_, h.read hfile⟩
  replace hclimb : ¬t.Climbs path := fun hc => (hclimb hc).read_ne hread
  simp only [read_ok, locate_file] at hread ⊢
  obtain ⟨place, shared, hend, hlong, hget⟩ := hread
  have hplace : place = t.placeOf path := (ending_child hend).1.trans (placeOf_congr h.current path)
  have hold : t.get? place = some (.file data shared) := by
    rw [← fileAt?_eq_some] at hget ⊢
    rw [← hget, hplace, hfile]
  refine ⟨place, shared, ?_, hlong, hold⟩
  obtain ⟨hlegal, here, hdescend, hat⟩ := ending_ok.mp hend
  rw [start_congr h.current] at hdescend
  refine ending_ok.mpr ⟨hlegal, here, ?_, hat⟩
  cases hd : t.descend (parts path).dropLast (t.start path) with
  | ok here' => rw [← hdescend, descend_mono h.directories hd]
  | error r =>
    by_cases hr : r = .noEntry
    · -- what was missing is a directory by now, and the file would lie below it
      rw [hr] at hd
      obtain ⟨missing, hmissing, hprefix⟩ := descend_noEntry hd fun front back hparts hfront =>
        hclimb ⟨front, back, hparts, hfront⟩
      obtain ⟨part, hchild, -⟩ := endAt_child hat
      rw [← (descend_ok hdescend).1] at hprefix
      obtain ⟨below, hbelow⟩ := hprefix.trans (hchild ▸ List.prefix_append here [part])
      rw [← hbelow, hs.get?_eq_none hmissing] at hold
      cases hold
    · rw [h.descend_error hr hd] at hdescend
      cases hdescend

end

end ClassForge.FileTree
