import ClassForge.Path
import ClassForge.Proofs.FileTrees

/-!
# Cleaned paths

What cleaning keeps of a path are names, with `..` in front of them if the path is
relative. Such elements stay when they are cleaned again, so a name that is joined to a
path becomes its last element, and what stands before it is the path, cleaned.
-/

namespace ClassForge

theorem Text.not_mem_of_mem_splitAt {sep : UInt8} {part t : Text} (h : part ∈ splitAt sep t) :
    sep ∉ part := by
  rw [splitAt_eq_splitOn] at h
  induction t generalizing part with
  | nil =>
    rw [List.splitOn_nil, List.mem_singleton] at h
    rw [h]
    exact List.not_mem_nil
  | cons b t ih =>
    rw [List.splitOn_cons_eq_if_modifyHead] at h
    by_cases hb : b = sep
    · rw [if_pos (beq_iff_eq.mpr hb)] at h
      rcases List.mem_cons.mp h with rfl | h
      · exact List.not_mem_nil
      · exact ih h
    · rw [if_neg (by simpa using hb)] at h
      obtain ⟨first, rest, hsplit⟩ := List.exists_cons_of_ne_nil (List.splitOn_ne_nil sep t)
      rw [hsplit, List.modifyHead_cons] at h
      rw [hsplit] at ih
      rcases List.mem_cons.mp h with rfl | h
      · intro hmem
        rcases List.mem_cons.mp hmem with heq | hmem
        · exact hb heq.symm
        · exact ih List.mem_cons_self hmem
      · exact ih (List.mem_cons_of_mem _ h)

namespace Path

/-! ## The elements of a cleaned path -/

structure IsName (part : Text) : Prop where
  ne_nil : part ≠ []
  ne_dot : part ≠ Text.ofString "."
  ne_dots : part ≠ Text.ofString ".."
  no_slash : slash ∉ part

/-- What may be kept of a path, backwards. -/
inductive Kept (rooted : Bool) : List Text → Prop
  | nil : Kept rooted []
  | up {kept : List Text} (hroot : rooted = false) (hups : ∀ p ∈ kept, p = Text.ofString "..")
      (h : Kept rooted kept) : Kept rooted (Text.ofString ".." :: kept)
  | name {kept : List Text} {part : Text} (h : Kept rooted kept) (hpart : IsName part) :
      Kept rooted (part :: kept)

section
variable {rooted : Bool} {kept parts : List Text} {part : Text}

theorem Kept.ne_nil_no_slash (h : Kept rooted kept) : ∀ p ∈ kept, p ≠ [] ∧ slash ∉ p := by
  induction h with
  | nil => exact fun _ => nofun
  | up _ _ _ ih => exact List.forall_mem_cons.mpr ⟨by decide, ih⟩
  | name _ hpart ih => exact List.forall_mem_cons.mpr ⟨⟨hpart.ne_nil, hpart.no_slash⟩, ih⟩

theorem cleanStep_nil (rooted : Bool) (kept : List Text) : cleanStep rooted kept [] = kept := by
  simp [cleanStep]

theorem cleanStep_name (hpart : IsName part) (rooted : Bool) (kept : List Text) :
    cleanStep rooted kept part = part :: kept := by
  simp [cleanStep, hpart.ne_nil, hpart.ne_dot, hpart.ne_dots]

/-- An element of a path is nothing, a single dot, two dots or a name. -/
theorem part_cases (hpart : slash ∉ part) :
    part = [] ∨ part = Text.ofString "." ∨ part = Text.ofString ".." ∨ IsName part := by
  by_cases hnil : part = []
  · exact .inl hnil
  by_cases hdot : part = Text.ofString "."
  · exact .inr (.inl hdot)
  by_cases hdots : part = Text.ofString ".."
  · exact .inr (.inr (.inl hdots))
  · exact .inr (.inr (.inr ⟨hnil, hdot, hdots, hpart⟩))

theorem cleanStep_dot (rooted : Bool) (kept : List Text) :
    cleanStep rooted kept (Text.ofString ".") = kept := by
  simp [cleanStep]

theorem cleanStep_dots (rooted : Bool) (kept : List Text) :
    cleanStep rooted kept (Text.ofString "..") =
      match kept with
      | [] => if rooted then [] else [Text.ofString ".."]
      | last :: before =>
        if last = Text.ofString ".." then Text.ofString ".." :: last :: before else before := by
  unfold cleanStep
  exact (if_neg (by decide)).trans (if_pos rfl)

theorem Kept.cleanStep (h : Kept rooted kept) (hpart : slash ∉ part) :
    Kept rooted (cleanStep rooted kept part) := by
  rcases part_cases hpart with rfl | rfl | rfl | hname
  · rw [cleanStep_nil]
    exact h
  · rw [cleanStep_dot]
    exact h
  · rw [cleanStep_dots]
    cases h with
    | nil =>
      cases rooted with
      | true => exact .nil
      | false => exact .up rfl (fun _ => nofun) .nil
    | up hroot hups h =>
      simp only [if_true]
      exact .up hroot (List.forall_mem_cons.mpr ⟨rfl, hups⟩) (.up hroot hups h)
    | name h hlast =>
      simp only [if_neg hlast.ne_dots]
      exact h
  · rw [cleanStep_name hname]
    exact .name h hname

theorem Kept.foldl (h : Kept rooted kept) (hparts : ∀ p ∈ parts, slash ∉ p) :
    Kept rooted (parts.foldl (Path.cleanStep rooted) kept) := by
  induction parts generalizing kept with
  | nil => exact h
  | cons part parts ih =>
    rw [List.forall_mem_cons] at hparts
    exact ih (h.cleanStep hparts.1) hparts.2

theorem kept_splitAt (rooted : Bool) (path : Text) :
    Kept rooted ((Text.splitAt slash path).foldl (Path.cleanStep rooted) []) :=
  Kept.nil.foldl fun _ => Text.not_mem_of_mem_splitAt

theorem Kept.foldl_reverse (h : Kept rooted kept) : kept.reverse.foldl (Path.cleanStep rooted) [] = kept := by
  induction h with
  | nil => rfl
  | @up kept hroot hups _ ih =>
    rw [List.reverse_cons, List.foldl_append, ih, List.foldl_cons, List.foldl_nil, cleanStep_dots]
    cases kept with
    | nil => rw [hroot, if_neg Bool.false_ne_true]
    | cons last before => simp only [hups last List.mem_cons_self, if_true]
  | name _ hpart ih =>
    rw [List.reverse_cons, List.foldl_append, ih, List.foldl_cons, List.foldl_nil, cleanStep_name hpart]

end

/-! ## Paths with a last name -/

/-- The path of elements; `.` if there are none and it is relative. -/
def spell (rooted : Bool) (parts : List Text) : Text :=
  let body := Text.join [slash] parts
  if rooted then slash :: body else if body = [] then "." else body

theorem clean_eq (path : Text) :
    clean path = spell (isAbsolute path) (cleanParts (isAbsolute path) (Text.splitAt slash path)) := rfl

def lead (rooted : Bool) (parts : List Text) : Text :=
  (if rooted then [slash] else []) ++ parts.flatMap (· ++ [slash])

section
variable {rooted : Bool} {parts : List Text} {file : Text}

theorem join_concat (parts : List Text) (file : Text) :
    Text.join [slash] (parts ++ [file]) = parts.flatMap (· ++ [slash]) ++ file := by
  induction parts with
  | nil => simp [Text.join]
  | cons part parts ih =>
    rw [Text.join] at ih ⊢
    rw [List.cons_append, List.intercalate_cons_of_ne_nil (by simp), ih, List.flatMap_cons]
    simp

theorem spell_concat (hfile : file ≠ []) : spell rooted (parts ++ [file]) = lead rooted parts ++ file := by
  unfold spell lead
  rw [join_concat]
  cases rooted with
  | true => rfl
  | false => simp [hfile]

theorem splitAt_lead (hparts : ∀ p ∈ parts, slash ∉ p) (hfile : slash ∉ file) :
    Text.splitAt slash (lead rooted parts ++ file) = (if rooted then [[]] else []) ++ parts ++ [file] := by
  have hbody : Text.splitAt slash (parts.flatMap (· ++ [slash]) ++ file) = parts ++ [file] := by
    rw [← join_concat, Text.splitAt_eq_splitOn, Text.join, List.splitOn_intercalate]
    · intro p hp
      rcases List.mem_append.mp hp with hp | hp
      · exact hparts p hp
      · rw [List.mem_singleton.mp hp]
        exact hfile
    · simp
  cases rooted with
  | false => exact hbody
  | true =>
    rw [Text.splitAt_eq_splitOn] at hbody ⊢
    show List.splitOn slash (slash :: (parts.flatMap (· ++ [slash]) ++ file)) = _
    rw [List.splitOn_cons_eq_if_modifyHead, if_pos (beq_self_eq_true slash), hbody]
    rfl

theorem isAbsolute_lead (hparts : ∀ p ∈ parts, p ≠ [] ∧ slash ∉ p) (hfile : slash ∉ file) :
    isAbsolute (lead rooted parts ++ file) = rooted := by
  have hfirst {t rest : Text} (hne : t ≠ []) (ht : slash ∉ t) : isAbsolute (t ++ rest) = false := by
    obtain ⟨b, t, rfl⟩ := List.exists_cons_of_ne_nil hne
    simp only [List.cons_append, isAbsolute, decide_eq_false_iff_not]
    exact fun hb => ht (hb ▸ List.mem_cons_self)
  cases rooted with
  | true => rfl
  | false =>
    cases parts with
    | nil =>
      by_cases hne : file = []
      · rw [hne]
        rfl
      · have := @hfirst file [] hne hfile
        rwa [List.append_nil] at this
    | cons part parts =>
      obtain ⟨hne, hslash⟩ := hparts part List.mem_cons_self
      simp only [lead, List.flatMap_cons, List.append_assoc, if_neg Bool.false_ne_true, List.nil_append]
      exact hfirst hne hslash

theorem reverse_lead (rooted : Bool) (parts : List Text) :
    (lead rooted parts).reverse = [] ∨ ∃ rest, (lead rooted parts).reverse = slash :: rest := by
  induction parts using List.reverseRecOn with
  | nil =>
    cases rooted with
    | true => exact .inr ⟨[], rfl⟩
    | false => exact .inl rfl
  | append_singleton parts part _ =>
    refine .inr ⟨part.reverse ++ (lead rooted parts).reverse, ?_⟩
    simp [lead]

theorem reverse_bne (hfile : slash ∉ file) : ∀ b ∈ file.reverse, (b != slash) = true := by
  intro b hb
  rw [bne_iff_ne]
  exact fun heq => hfile (heq ▸ List.mem_reverse.mp hb)

theorem upToSlash_lead (hfile : slash ∉ file) : upToSlash (lead rooted parts ++ file) = lead rooted parts := by
  rw [upToSlash, List.reverse_append, List.dropWhile_append_of_pos (reverse_bne hfile)]
  rcases reverse_lead rooted parts with hlead | ⟨rest, hlead⟩
  · rw [hlead, List.reverse_eq_nil_iff.mp hlead]
    rfl
  · rw [hlead, List.dropWhile_cons_of_neg (by simp), ← hlead, List.reverse_reverse]

theorem afterSlash_lead (hfile : slash ∉ file) : afterSlash (lead rooted parts ++ file) = file := by
  rw [afterSlash, List.reverse_append, List.takeWhile_append_of_pos (reverse_bne hfile)]
  rcases reverse_lead rooted parts with hlead | ⟨rest, hlead⟩
  · rw [hlead, List.takeWhile_nil, List.append_nil, List.reverse_reverse]
  · rw [hlead, List.takeWhile_cons_of_neg (by simp), List.append_nil, List.reverse_reverse]

theorem base_lead (hne : file ≠ []) (hfile : slash ∉ file) : base (lead rooted parts ++ file) = file := by
  obtain ⟨front, last, rfl⟩ : ∃ front last, file = front ++ [last] :=
    ⟨_, _, (List.dropLast_concat_getLast hne).symm⟩
  have hlast : last ≠ slash := fun heq => hfile (heq ▸ List.mem_append_right front List.mem_cons_self)
  have htrim : ((lead rooted parts ++ (front ++ [last])).reverse.dropWhile (· = slash)).reverse =
      lead rooted parts ++ (front ++ [last]) := by
    rw [List.reverse_append, List.reverse_append, List.reverse_singleton, List.singleton_append,
      List.cons_append, List.dropWhile_cons_of_neg (by simpa using hlast)]
    simp
  rw [base, if_neg (by simp), htrim, afterSlash_lead hfile]
  split
  · rename_i hnil
    exact absurd hnil hne
  · rfl

end

section
variable {rooted : Bool} {kept : List Text} {file : Text}

theorem clean_lead (h : Kept rooted kept) : clean (lead rooted kept.reverse) = spell rooted kept.reverse := by
  have hparts : ∀ p ∈ kept.reverse, p ≠ [] ∧ slash ∉ p := fun p hp =>
    h.ne_nil_no_slash p (List.mem_reverse.mp hp)
  have habsolute := @isAbsolute_lead rooted _ [] hparts List.not_mem_nil
  have hsplit := @splitAt_lead rooted _ [] (fun p hp => (hparts p hp).2) List.not_mem_nil
  rw [List.append_nil] at habsolute hsplit
  rw [clean_eq, habsolute, hsplit, cleanParts, List.foldl_append, List.foldl_append]
  have hfront : (if rooted then [[]] else [] : List Text).foldl (cleanStep rooted) [] = [] := by
    cases rooted <;> rfl
  rw [hfront, h.foldl_reverse, List.foldl_cons, List.foldl_nil, cleanStep_nil]

theorem join_name (hfile : IsName file) (dir : Text) :
    join [dir, file] = spell (isAbsolute dir)
      (cleanParts (isAbsolute dir) (Text.splitAt slash dir) ++ [file]) := by
  have hparts (rooted : Bool) (parts : List Text) :
      cleanParts rooted (parts ++ [file]) = cleanParts rooted parts ++ [file] := by
    rw [cleanParts, cleanParts, List.foldl_append, List.foldl_cons, List.foldl_nil,
      cleanStep_name hfile, List.reverse_cons]
  have hsplit : Text.splitAt slash file = [file] := by
    rw [Text.splitAt_eq_splitOn, List.splitOn_eq_singleton hfile.no_slash]
  by_cases hdir : dir = []
  · have hrelative := @isAbsolute_lead false [] file (fun _ => nofun) hfile.no_slash
    have hjoin : join [[], file] = clean file := by
      obtain ⟨b, t, rfl⟩ := List.exists_cons_of_ne_nil hfile.ne_nil
      simp [join, Text.join]
    rw [hdir, hjoin, clean_eq, hsplit]
    show spell (isAbsolute file) _ = _
    rw [show isAbsolute file = false from hrelative]
    exact congrArg (spell false) (hparts false [])
  · obtain ⟨b, t, rfl⟩ := List.exists_cons_of_ne_nil hdir
    have hjoin : join [b :: t, file] = clean ((b :: t) ++ slash :: file) := by
      simp [join, Text.join, List.intercalate_cons_cons]
    rw [hjoin, clean_eq]
    show spell (isAbsolute (b :: t)) _ = _
    rw [Text.splitAt_eq_splitOn, List.splitOn_append_cons_self, ← Text.splitAt_eq_splitOn,
      ← Text.splitAt_eq_splitOn, hsplit, hparts]
    rfl

/-- A name that is joined to a path is the last element, and the path stands before it. -/
theorem join_name_parts (hfile : IsName file) (dir : Text) :
    ∃ kept, Kept (isAbsolute dir) kept ∧ cleanParts (isAbsolute dir) (Text.splitAt slash dir) = kept.reverse ∧
      join [dir, file] = lead (isAbsolute dir) kept.reverse ++ file :=
  ⟨_, kept_splitAt _ dir, rfl, (join_name hfile dir).trans (spell_concat hfile.ne_nil)⟩

theorem dir_join_name (hfile : IsName file) (dir : Text) : Path.dir (join [dir, file]) = clean dir := by
  obtain ⟨kept, hkept, hclean, hjoin⟩ := join_name_parts hfile dir
  rw [hjoin, Path.dir, upToSlash_lead hfile.no_slash, clean_lead hkept, clean_eq, hclean]

theorem base_join_name (hfile : IsName file) (dir : Text) : base (join [dir, file]) = file := by
  obtain ⟨kept, -, -, hjoin⟩ := join_name_parts hfile dir
  rw [hjoin, base_lead hfile.ne_nil hfile.no_slash]

end

end Path

/-! ## Places -/

namespace FileTree

theorem enter_name {part : Text} (h : Path.IsName part) (here : List Text) : enter here part = here ++ [part] := by
  rw [enter, if_neg h.ne_dot, if_neg h.ne_dots]

/-- Cleaning changes nothing in where a path leads. -/
theorem foldl_enter_cleanStep {rooted : Bool} {kept parts start : List Text} (h : Path.Kept rooted kept)
    (hparts : ∀ p ∈ parts, Path.slash ∉ p) (hstart : rooted = true → start = []) :
    (parts.foldl (Path.cleanStep rooted) kept).reverse.foldl enter start =
      (parts.filter (· != [])).foldl enter (kept.reverse.foldl enter start) := by
  induction parts generalizing kept with
  | nil => rfl
  | cons part parts ih =>
    rw [List.forall_mem_cons] at hparts
    rw [List.foldl_cons, ih (h.cleanStep hparts.1) hparts.2]
    rcases Path.part_cases hparts.1 with rfl | rfl | rfl | hname
    · rw [Path.cleanStep_nil]
      rfl
    · rw [Path.cleanStep_dot]
      rfl
    · have hfilter : (Text.ofString ".." :: parts).filter (· != []) =
        Text.ofString ".." :: parts.filter (· != []) := rfl
      have hup (here : List Text) : enter here (Text.ofString "..") = here.dropLast := rfl
      rw [hfilter, List.foldl_cons, hup, Path.cleanStep_dots]
      congr 1
      cases h with
      | nil =>
        cases rooted with
        | true => simp [hstart rfl]
        | false => rfl
      | up hroot hups h => simp [List.foldl_append, hup]
      | name h hlast => simp [List.foldl_append, enter_name hlast, hlast.ne_dots]
    · rw [Path.cleanStep_name hname, List.filter_cons_of_pos (by simpa using hname.ne_nil),
        List.reverse_cons, List.foldl_append]
      rfl

theorem parts_lead {rooted : Bool} {names : List Text} {file : Text}
    (hnames : ∀ p ∈ names, p ≠ [] ∧ Path.slash ∉ p) (hne : file ≠ []) (hfile : Path.slash ∉ file) :
    parts (Path.lead rooted names ++ file) = names ++ [file] := by
  have hfront : (if rooted then [[]] else [] : List Text).filter (· != []) = [] := by
    cases rooted <;> rfl
  have hkeep : names.filter (· != []) = names :=
    List.filter_eq_self.mpr fun p hp => by simpa using (hnames p hp).1
  have hlast : [file].filter (· != []) = [file] :=
    List.filter_eq_self.mpr fun p hp => by simpa [List.mem_singleton.mp hp] using hne
  rw [parts, Path.splitAt_lead (fun p hp => (hnames p hp).2) hfile, List.filter_append, List.filter_append,
    hfront, hkeep, hlast, List.nil_append]

theorem placeOf_join_name {file : Text} (hfile : Path.IsName file) (t : FileTree) (dir : Text) :
    t.placeOf (Path.join [dir, file]) = t.placeOf dir ++ [file] := by
  obtain ⟨kept, hkept, hclean, hjoin⟩ := Path.join_name_parts hfile dir
  have hparts : ∀ p ∈ kept.reverse, p ≠ [] ∧ Path.slash ∉ p := fun p hp =>
    hkept.ne_nil_no_slash p (List.mem_reverse.mp hp)
  have hstart : t.start (Path.join [dir, file]) = t.start dir := by
    rw [start, start, hjoin, Path.isAbsolute_lead hparts hfile.no_slash]
  have hsplit : parts (Path.join [dir, file]) = kept.reverse ++ [file] := by
    rw [hjoin, parts_lead hparts hfile.ne_nil hfile.no_slash]
  rw [placeOf, placeOf, hstart, hsplit, List.foldl_append, ← hclean, Path.cleanParts,
    foldl_enter_cleanStep .nil (fun p => Text.not_mem_of_mem_splitAt)]
  · exact enter_name hfile _
  · intro hrooted
    rw [start, if_pos hrooted]

end FileTree

end ClassForge
