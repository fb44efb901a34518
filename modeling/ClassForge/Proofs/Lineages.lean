import ClassForge.Proofs.FileWrites

/-!
# The directories that a path lies in

A directory is made after those that it lies in. Where one of them stands, all in front of
it stand too, so the making goes on from where an earlier one was broken off.
-/

namespace ClassForge

open ClassForge.Path (slash)

/-! ## The elements of an ancestor -/

/-- A text falls into what a class of bytes takes from its front and the rest, which
starts with a byte outside. -/
theorem Text.dropWhile_spec (p : UInt8 → Bool) (t : Text) :
    ∃ front, t = front ++ t.dropWhile p ∧ (∀ b ∈ front, p b = true) ∧
      ∀ b rest, t.dropWhile p = b :: rest → p b = false := by
  refine ⟨t.takeWhile p, List.takeWhile_append_dropWhile.symm, List.all_eq_true.mp List.all_takeWhile, ?_⟩
  intro b rest hrest
  have hhead := List.head?_dropWhile_not p t
  rw [hrest] at hhead
  simpa using hhead

theorem Path.parent_spec {path : Text} (h : Path.parent path ≠ []) :
    ∃ name slashes, path = Path.parent path ++ slash :: (name ++ slashes) ∧ name ≠ [] ∧ slash ∉ name ∧
      ∀ b ∈ slashes, b = slash := by
  unfold Path.parent at h ⊢
  by_cases hlt : 1 < (Path.beforeLast path).length
  · rw [if_pos hlt]
    unfold Path.beforeLast at hlt ⊢
    obtain ⟨slashes, hpath, hslashes, hbody⟩ := Text.dropWhile_spec (· = slash) path.reverse
    generalize path.reverse.dropWhile (· = slash) = body at *
    obtain ⟨name, hsplit, hname, hfront⟩ := Text.dropWhile_spec (· != slash) body
    cases hrest : body.dropWhile (· != slash) with
    | nil =>
      rw [hrest] at hlt
      cases hlt
    | cons b rest =>
      have hb : b = slash := by simpa using hfront b rest hrest
      rw [hrest, hb] at hsplit
      refine ⟨name.reverse, slashes.reverse, ?_, ?_, ?_, ?_⟩
      · rw [hsplit] at hpath
        rw [← List.reverse_inj]
        simpa using hpath
      · intro hnil
        -- what follows the slashes would start with one
        rw [List.reverse_eq_nil_iff.mp hnil] at hsplit
        simpa using hbody _ _ hsplit
      · intro hmem
        simpa using hname _ (List.mem_reverse.mp hmem)
      · intro c hc
        simpa using hslashes _ (List.mem_reverse.mp hc)
  · rw [if_neg hlt] at h
    exact absurd rfl h

namespace FileTree

theorem parts_append (front rest : Text) : parts (front ++ slash :: rest) = parts front ++ parts rest := by
  unfold parts
  rw [Text.splitAt_eq_splitOn, List.splitOn_append_cons_self, List.filter_append, Text.splitAt_eq_splitOn,
    Text.splitAt_eq_splitOn]

theorem parts_slashes {slashes : Text} (h : ∀ b ∈ slashes, b = slash) : parts slashes = [] := by
  induction slashes with
  | nil => rfl
  | cons b slashes ih =>
    rw [List.forall_mem_cons] at h
    rw [h.1]
    exact (parts_append [] slashes).trans (ih h.2)

theorem parts_name {name slashes : Text} (hne : name ≠ []) (hname : slash ∉ name)
    (hslashes : ∀ b ∈ slashes, b = slash) : parts (name ++ slashes) = [name] := by
  have halone : parts name = [name] := by
    unfold parts
    rw [Text.splitAt_eq_splitOn, List.splitOn_eq_singleton hname, List.filter_cons_of_pos (by simpa using hne)]
    rfl
  cases slashes with
  | nil => rw [List.append_nil, halone]
  | cons b slashes =>
    rw [List.forall_mem_cons] at hslashes
    rw [hslashes.1, parts_append, halone, parts_slashes hslashes.2]
    rfl

theorem parts_parent {path : Text} (h : Path.parent path ≠ []) :
    ∃ name, parts path = parts (Path.parent path) ++ [name] := by
  obtain ⟨name, slashes, hpath, hne, hname, hslashes⟩ := Path.parent_spec h
  refine ⟨name, ?_⟩
  rw [← parts_name hne hname hslashes, ← parts_append, ← hpath]

/-! ## Directories that are there -/

section
variable {t t' : FileTree} {path : Text} {ps here place : List Text} {slashed : Bool}

theorem descend_concat {part : Text} (h : t.descend (ps ++ [part]) here = .ok place) :
    ∃ front, t.descend ps here = .ok front ∧ ¬maxName < part.length ∧ place = enter front part := by
  induction ps generalizing here with
  | nil =>
    obtain ⟨hstop, hlen, hrest⟩ := descend_cons_ok h
    exact ⟨here, descend_nil hstop, hlen, (descend_ok hrest).1⟩
  | cons p ps ih =>
    obtain ⟨hstop, hlen, hrest⟩ := descend_cons_ok h
    obtain ⟨front, hfront, hpart⟩ := ih hrest
    refine ⟨front, ?_, hpart⟩
    rw [descend_cons hstop, if_neg hlen, hfront]

theorem kindAt_directory (h : t.ending path = .ok (.directory place)) : t.kindAt path = some .directory := by
  simp [kindAt, locate, h]

theorem kindAt_child (h : t.ending path = .ok (.child place slashed)) (hshort : tooLong place = false)
    (hget : t.get? place = some .directory) : t.kindAt path = some .directory := by
  simp [kindAt, locate, h, hshort, hget]

theorem kindAt_of_descend (hlegal : Legal path) (h : t.descend (parts path) (t.start path) = .ok place) :
    t.kindAt path = some .directory := by
  have hend (here : List Text) (hhere : t.descend (parts path).dropLast (t.start path) = .ok here) :
      t.ending path = .ok (endAt path here) := ending_ok.mpr ⟨hlegal, here, hhere, rfl⟩
  cases hlast : (parts path).getLast? with
  | none =>
    rw [List.getLast?_eq_none_iff.mp hlast] at h
    have := hend place (by rw [List.getLast?_eq_none_iff.mp hlast]; exact h)
    rw [endAt, hlast] at this
    exact kindAt_directory this
  | some part =>
    obtain ⟨front, hparts⟩ := List.getLast?_eq_some_iff.mp hlast
    have hget := (descend_ok h).2
    rw [hparts] at h
    obtain ⟨here, hhere, hlen, hplace⟩ := descend_concat h
    have := hend here (by rw [hparts, List.dropLast_concat]; exact hhere)
    simp only [endAt, hlast] at this
    rw [hplace, enter] at hget
    by_cases hdot : part = Text.ofString "."
    · rw [if_pos hdot] at this
      exact kindAt_directory this
    rw [if_neg hdot] at this hget
    by_cases hdots : part = Text.ofString ".."
    · rw [if_pos hdots] at this
      exact kindAt_directory this
    rw [if_neg hdots] at this hget
    exact kindAt_child this (by simpa [tooLong] using hlen) hget

theorem ending_of_kindAt {kind : FileKind} (h : t.kindAt path = some kind) : ∃ e, t.ending path = .ok e := by
  cases hend : t.ending path with
  | ok e => exact ⟨e, rfl⟩
  | error r => simp [kindAt, locate, hend] at h

/-- What is there lies in a directory. -/
theorem kindAt_parent {kind : FileKind} (hparent : Path.parent path ≠ []) (h : t.kindAt path = some kind) :
    t.kindAt (Path.parent path) = some .directory := by
  obtain ⟨e, hend⟩ := ending_of_kindAt h
  obtain ⟨⟨-, hzero, hlong⟩, here, hdescend, -⟩ := ending_ok.mp hend
  obtain ⟨name, hparts⟩ := parts_parent hparent
  obtain ⟨last, slashes, hpath, -⟩ := Path.parent_spec hparent
  have hstart : t.start (Path.parent path) = t.start path := by
    obtain ⟨b, rest, hcons⟩ := List.exists_cons_of_ne_nil hparent
    rw [hcons] at hpath ⊢
    rw [hpath]
    rfl
  have hlegal : Legal (Path.parent path) := by
    refine ⟨hparent, ?_, Nat.lt_trans (Path.length_parent_lt path hparent) hlong⟩
    rw [hpath, List.contains_append, Bool.or_eq_false_iff] at hzero
    exact hzero.1
  rw [hparts, List.dropLast_concat] at hdescend
  exact kindAt_of_descend hlegal (hstart ▸ hdescend)

theorem makeDirectory_ok (h : t.makeDirectory path = .ok t') :
    t.kindAt path = none ∧ t'.kindAt path = some .directory := by
  unfold makeDirectory at h
  split at h
  · cases h
  · cases h
  · rename_i place slashed hend
    split at h
    · cases h
    · rename_i hshort
      rw [Bool.not_eq_true] at hshort
      split at h
      · cases h
      · rename_i hnone
        rw [Option.not_isSome_iff_eq_none] at hnone
        cases h
        have hne := (ending_child hend).2.1
        refine ⟨by simp [kindAt, locate, hend, hshort, hnone], ?_⟩
        refine kindAt_child (ending_mono hend rfl fun p hp => ?_) hshort (by rw [get?_insert t hne, if_pos rfl])
        rw [get?_insert t hne]
        split
        · rfl
        · exact hp

theorem makeDirectory_ne_ok {kind : FileKind} (h : t.kindAt path = some kind) : t.makeDirectory path ≠ .ok t' := by
  intro hmake
  rw [(makeDirectory_ok hmake).1] at h
  cases h

end

/-! ## Making them -/

section
variable {t m : FileTree} {path : Text} {parents : List Text}

/-- The two ways in which a directory comes to be there. -/
theorem makeLineage_cons_ok : (Storage.makeLineage (path :: parents) : StateM FileTree _) t = (.ok (), m) ↔
    t.kindAt path = some .directory ∧ t = m ∨
    t.kindAt path = none ∧ ∃ m₁, (Storage.makeLineage parents : StateM FileTree _) t = (.ok (), m₁) ∧
      (m₁.makeDirectory path = .ok m ∨ m₁.kindAt path = some .directory ∧ m₁ = m) := by
  rw [Storage.makeLineage, run_bind, run_kindAt]
  cases t.kindAt path with
  | some kind =>
    cases kind with
    | directory =>
      constructor
      · rintro ⟨⟩
        exact .inl ⟨rfl, rfl⟩
      · rintro (⟨-, rfl⟩ | ⟨⟨⟩, -⟩)
        rfl
    | file =>
      constructor
      · rintro ⟨⟩
      · rintro (⟨⟨⟩, -⟩ | ⟨⟨⟩, -⟩)
  | none =>
    simp only [run_bind]
    rcases (Storage.makeLineage parents : StateM FileTree (Except FileFault Unit)) t with ⟨_ | _, m₁⟩
    · constructor
      · rintro ⟨⟩
      · rintro (⟨⟨⟩, -⟩ | ⟨-, _, ⟨⟩, -⟩)
    · simp only [run_bind, run_makeDirectory]
      rcases @change_cases m₁ fun t => t.makeDirectory path with ⟨m₂, hmake, hrun⟩ | ⟨f, hrun⟩
      · rw [hrun]
        constructor
        · rintro ⟨⟩
          exact .inr ⟨trivial, _, rfl, .inl hmake⟩
        · rintro (⟨⟨⟩, -⟩ | ⟨-, _, ⟨⟩, hmade | ⟨hkind, -⟩⟩)
          · rw [hmake] at hmade
            cases hmade
            rfl
          · exact absurd hmake (makeDirectory_ne_ok hkind)
      · have hfail (u : FileTree) : m₁.makeDirectory path ≠ .ok u := by
          intro hmade
          rw [change_ok.mpr hmade] at hrun
          cases hrun
        rw [hrun]
        simp only [run_bind, run_kindAt]
        by_cases hkind : m₁.kindAt path = some .directory
        · rw [if_pos hkind]
          constructor
          · rintro ⟨⟩
            exact .inr ⟨trivial, _, rfl, .inr ⟨hkind, rfl⟩⟩
          · rintro (⟨⟨⟩, -⟩ | ⟨-, _, ⟨⟩, hmade | ⟨-, rfl⟩⟩)
            · exact absurd hmade (hfail _)
            · rfl
        · rw [if_neg hkind]
          constructor
          · rintro ⟨⟩
          · rintro (⟨⟨⟩, -⟩ | ⟨-, _, ⟨⟩, hmade | ⟨hdir, -⟩⟩)
            · exact absurd hmade (hfail _)
            · exact absurd hdir hkind

end

end FileTree

end ClassForge
