import Mathlib.Data.List.Chain
import ClassForge.Proofs.Lineages

/-!
# Writing where calls fail

A file tree on which any call may fail, a write after a part of it. Nothing of a write that
fails remains but directories, and the next one starts as if it were the first.
-/

namespace ClassForge

theorem run_bind {σ α β : Type} (x : StateM σ α) (f : α → StateM σ β) (s : σ) :
    (x >>= f) s = f (x s).1 (x s).2 := rfl

inductive Turn where
  /-- It does what it can. A file for passing use is numbered from `draw` on. -/
  | fair (draw : Nat)
  /-- It fails. A write has put down `written` bytes by then. -/
  | fails (fault : FileFault) (written : Nat)

/-- A file tree whose calls take turns. Once all turns are taken, every call does what it
can. -/
structure FaultyTree where
  tree : FileTree
  turns : List Turn := []

namespace FaultyTree

/-- Takes a turn. A failed call leaves what `torn` makes of the tree. -/
def call {α : Type} (op : (draw : Nat) → FileTree → Except FileFault (α × FileTree))
    (torn : (written : Nat) → FileTree → FileTree) : StateM FaultyTree (Except FileFault α) := fun s =>
  match s.turns.headD (.fair FileTree.firstTemp) with
  | .fair draw =>
    let (result, tree) := FileTree.run (op draw) s.tree
    (result, ⟨tree, s.turns.tail⟩)
  | .fails fault written => (.error fault, ⟨torn written s.tree, s.turns.tail⟩)

def whole (op : FileTree → Except FileFault FileTree) : StateM FaultyTree (Except FileFault Unit) :=
  call (fun _ t => (op t).map fun t => ((), t)) fun _ t => t

/-- A call that puts down data, a part of it if it fails. -/
def pour (op : (data : Text) → FileTree → Except FileFault FileTree) (data : Text) :
    StateM FaultyTree (Except FileFault Unit) :=
  call (fun _ t => (op data t).map fun t => ((), t)) fun written t =>
    (op (data.take written) t).toOption.getD t

instance : Storage (StateM FaultyTree) where
  workingDir := fun s => (Path.slash :: Text.join [Path.slash] s.tree.current, s)
  kindAt path := do
    let found ← call (fun _ t => .ok (t.kindAt path, t)) fun _ t => t
    return found.toOption.join
  read path := call (fun _ t => (t.read path).map fun data => (data, t)) fun _ t => t
  write path data := pour (fun data t => t.write path data) data
  makeDirectory path := whole fun t => t.makeDirectory path
  createTemp dir base := call (fun draw t =>
    if base.contains Path.slash then t.createTemp dir base
    else t.createTempFrom dir base (t.nodes.size + 1) draw) fun _ t => t
  fill path data := pour (fun data t =>
    t.modifyFile "write" path fun old shared => .file (old ++ data) shared) data
  close path := whole fun t => t.modifyFile "close" path .file
  share path := whole fun t => t.modifyFile "chmod" path fun data _ => .file data true
  rename source target := whole fun t => t.rename source target
  -- what is for passing use can always be removed
  remove path := modify fun s => { s with tree := s.tree.remove path }

/-! ## What a call can do -/

section
variable {s s' : FaultyTree} {path data : Text}

theorem call_cases {α : Type} {op : Nat → FileTree → Except FileFault (α × FileTree)}
    {torn : Nat → FileTree → FileTree} {r : Except FileFault α} (h : call op torn s = (r, s')) :
    (∃ draw a, r = .ok a ∧ op draw s.tree = .ok (a, s'.tree)) ∨
      ∃ f, r = .error f ∧ (s'.tree = s.tree ∨ ∃ written, s'.tree = torn written s.tree) := by
  unfold call at h
  split at h
  · rename_i draw _
    unfold FileTree.run at h
    cases hop : op draw s.tree with
    | ok x =>
      simp only [hop] at h
      cases h
      exact .inl ⟨draw, x.1, rfl, hop⟩
    | error f =>
      simp only [hop] at h
      cases h
      exact .inr ⟨f, rfl, .inl rfl⟩
  · cases h
    exact .inr ⟨_, rfl, .inr ⟨_, rfl⟩⟩

theorem call_id_cases {α : Type} {op : Nat → FileTree → Except FileFault (α × FileTree)}
    {r : Except FileFault α} (h : call op (fun _ t => t) s = (r, s')) :
    (∃ draw a, r = .ok a ∧ op draw s.tree = .ok (a, s'.tree)) ∨ ∃ f, r = .error f ∧ s'.tree = s.tree := by
  rcases call_cases h with hok | ⟨f, hr, hs | ⟨-, hs⟩⟩
  · exact .inl hok
  · exact .inr ⟨f, hr, hs⟩
  · exact .inr ⟨f, hr, hs⟩

theorem ok_of_map {x : Except FileFault FileTree} {u : Unit} {t : FileTree}
    (h : x.map (fun t => ((), t)) = .ok (u, t)) : x = .ok t := by
  cases x with
  | ok t' =>
    cases h
    rfl
  | error f => cases h

theorem whole_cases {op : FileTree → Except FileFault FileTree} {r : Except FileFault Unit}
    (h : whole op s = (r, s')) :
    r = .ok () ∧ op s.tree = .ok s'.tree ∨ ∃ f, r = .error f ∧ s'.tree = s.tree := by
  rcases call_id_cases h with ⟨-, u, hr, hop⟩ | herror
  · exact .inl ⟨hr, ok_of_map hop⟩
  · exact .inr herror

theorem pour_cases {op : Text → FileTree → Except FileFault FileTree} {r : Except FileFault Unit}
    (h : pour op data s = (r, s')) :
    r = .ok () ∧ op data s.tree = .ok s'.tree ∨
      ∃ f, r = .error f ∧ (s'.tree = s.tree ∨ ∃ written, op (data.take written) s.tree = .ok s'.tree) := by
  rcases call_cases h with ⟨-, u, hr, hop⟩ | ⟨f, hr, hs | ⟨written, hs⟩⟩
  · exact .inl ⟨hr, ok_of_map hop⟩
  · exact .inr ⟨f, hr, .inl hs⟩
  · refine .inr ⟨f, hr, ?_⟩
    cases htree : op (data.take written) s.tree with
    | ok t =>
      rw [htree] at hs
      exact .inr ⟨written, htree.trans (congrArg Except.ok hs.symm)⟩
    | error f =>
      rw [htree] at hs
      exact .inl hs

theorem kindAt_cases {kind : Option FileKind}
    (h : (Storage.kindAt path : StateM FaultyTree _) s = (kind, s')) :
    s'.tree = s.tree ∧ (kind = s.tree.kindAt path ∨ kind = none) := by
  have hrun : (Storage.kindAt path : StateM FaultyTree _) s =
    (call (fun _ t => .ok (t.kindAt path, t)) (fun _ t => t) >>= fun found => pure found.toOption.join) s := rfl
  rw [hrun, run_bind] at h
  rcases hcall : call (fun _ t => .ok (t.kindAt path, t)) (fun _ t => t) s with ⟨r, s₁⟩
  rw [hcall] at h
  cases h
  rcases call_id_cases hcall with ⟨-, a, rfl, hop⟩ | ⟨f, rfl, hs⟩
  · obtain ⟨rfl, htree⟩ := Prod.mk.inj (Except.ok.inj hop)
    exact ⟨htree.symm, .inl rfl⟩
  · exact ⟨hs, .inr rfl⟩

theorem createTemp_cases {dir base : Text} {r : Except FileFault Text}
    (h : (Storage.createTemp dir base : StateM FaultyTree _) s = (r, s')) :
    (∃ temp, r = .ok temp ∧ FileTree.Free s.tree temp ∧
      s'.tree = s.tree.insert (s.tree.placeOf temp) (.file [] false)) ∨
      ∃ f, r = .error f ∧ s'.tree = s.tree := by
  rcases call_id_cases h with ⟨draw, temp, hr, hop⟩ | herror
  · refine .inl ⟨temp, hr, ?_⟩
    split at hop
    · exact FileTree.createTemp_ok hop
    · exact FileTree.createTempFrom_ok hop
  · exact .inr herror

end

/-! ## Making directories -/

def Within (path parent : Text) : Prop :=
  ∀ (t : FileTree) (kind : FileKind), t.kindAt path = some kind → t.kindAt parent = some .directory

theorem exists_lineage (dir : Text) : ∃ rest, Path.lineage dir = dir :: rest := by
  rw [Path.lineage]
  split
  · exact ⟨[], rfl⟩
  · exact ⟨_, rfl⟩

theorem isChain_lineage (dir : Text) : (Path.lineage dir).IsChain Within := by
  induction dir using Path.lineage.induct with
  | case1 dir h =>
    rw [Path.lineage, dif_pos h]
    exact .singleton dir
  | case2 dir h ih =>
    obtain ⟨rest, hrest⟩ := exists_lineage (Path.parent dir)
    rw [Path.lineage, dif_neg h]
    rw [hrest] at ih ⊢
    exact .cons_cons (fun t kind => FileTree.kindAt_parent h) ih

section
variable {t m : FileTree} {s s' : FaultyTree} {path : Text} {ps parents : List Text}
  {r : Except FileFault Unit}

theorem kindAt_of_makeLineage
    (h : (Storage.makeLineage (path :: parents) : StateM FileTree _) t = (.ok (), m)) :
    m.kindAt path = some .directory := by
  rcases FileTree.makeLineage_cons_ok.mp h with ⟨hkind, rfl⟩ | ⟨-, m₁, -, hmake | ⟨hkind, rfl⟩⟩
  · exact hkind
  · exact (FileTree.makeDirectory_ok hmake).2
  · exact hkind

theorem makeLineage_there {kind : FileKind} (hchain : (path :: parents).IsChain Within)
    (h : t.kindAt path = some kind) :
    (Storage.makeLineage parents : StateM FileTree _) t = (.ok (), t) := by
  cases hchain with
  | singleton => rfl
  | cons_cons hwithin _ => exact FileTree.makeLineage_cons_ok.mpr (.inl ⟨hwithin t kind h, rfl⟩)

theorem makeLineage_cons_cases
    (h : (Storage.makeLineage (path :: parents) : StateM FaultyTree _) s = (r, s')) :
    s'.tree = s.tree ∧ (r = .ok () → s.tree.kindAt path = some .directory) ∨
    ∃ r₁ s₀ s₁, s₀.tree = s.tree ∧ (Storage.makeLineage parents : StateM FaultyTree _) s₀ = (r₁, s₁) ∧
      ((∃ f, r = .error f) ∧ s'.tree = s₁.tree ∨
        r = .ok () ∧ r₁ = .ok () ∧ (s₁.tree.makeDirectory path = .ok s'.tree ∨
          s'.tree = s₁.tree ∧ s₁.tree.kindAt path = some .directory)) := by
  rw [Storage.makeLineage, run_bind] at h
  rcases hkind : (Storage.kindAt path : StateM FaultyTree _) s with ⟨kind, s₀⟩
  rw [hkind] at h
  obtain ⟨hs₀, hseen⟩ := kindAt_cases hkind
  cases kind with
  | some kind =>
    rcases hseen with hseen | hseen
    · cases kind with
      | directory =>
        cases h
        exact .inl ⟨hs₀, fun _ => hseen.symm⟩
      | file =>
        cases h
        refine .inl ⟨hs₀, ?_⟩
        intro hok
        cases hok
    · cases hseen
  | none =>
    simp only [run_bind] at h
    rcases hparents : (Storage.makeLineage parents : StateM FaultyTree (Except FileFault Unit)) s₀ with
      ⟨r₁, s₁⟩
    refine .inr ⟨r₁, s₀, s₁, hs₀, hparents, ?_⟩
    rw [hparents] at h
    cases r₁ with
    | error f =>
      cases h
      exact .inl ⟨⟨f, rfl⟩, rfl⟩
    | ok u =>
      simp only [run_bind] at h
      rcases hmake : (Storage.makeDirectory path : StateM FaultyTree _) s₁ with ⟨r₂, s₂⟩
      rw [hmake] at h
      rcases whole_cases hmake with ⟨rfl, hmade⟩ | ⟨f, rfl, hs₂⟩
      · cases h
        exact .inr ⟨rfl, rfl, .inl hmade⟩
      · simp only [run_bind] at h
        rcases hagain : (Storage.kindAt path : StateM FaultyTree _) s₂ with ⟨kind, s₃⟩
        obtain ⟨hs₃, hseen⟩ := kindAt_cases hagain
        rw [hagain] at h
        by_cases hdir : kind = some .directory
        · rw [if_pos hdir] at h
          cases h
          rcases hseen with hseen | hseen
          · exact .inr ⟨rfl, rfl, .inr ⟨hs₃.trans hs₂, by rw [← hs₂, ← hseen, hdir]⟩⟩
          · rw [hdir] at hseen
            cases hseen
        · rw [if_neg hdir] at h
          cases h
          exact .inl ⟨⟨f, rfl⟩, hs₃.trans hs₂⟩

theorem made_makeLineage (h : (Storage.makeLineage ps : StateM FaultyTree _) s = (r, s')) :
    FileTree.Made s.tree s'.tree := by
  induction ps generalizing s s' r with
  | nil =>
    cases h
    exact .refl _
  | cons path parents ih =>
    rcases makeLineage_cons_cases h with ⟨hs, -⟩ | ⟨r₁, s₀, s₁, hs₀, hparents, hs⟩
    · rw [hs]
      exact .refl _
    · have hmade := ih hparents
      rw [hs₀] at hmade
      rcases hs with ⟨-, hs⟩ | ⟨-, -, hmake | ⟨hs, -⟩⟩
      · rw [hs]
        exact hmade
      · exact hmade.trans (FileTree.made_makeDirectory hmake)
      · rw [hs]
        exact hmade

/-- Nothing is made where all is there already, whatever fails. -/
theorem tree_makeLineage (hchain : ps.IsChain Within)
    (hthere : (Storage.makeLineage ps : StateM FileTree _) s.tree = (.ok (), s.tree))
    (h : (Storage.makeLineage ps : StateM FaultyTree _) s = (r, s')) : s'.tree = s.tree := by
  induction ps generalizing s s' r with
  | nil =>
    cases h
    rfl
  | cons path parents ih =>
    have hkind := kindAt_of_makeLineage hthere
    rcases makeLineage_cons_cases h with ⟨hs, -⟩ | ⟨r₁, s₀, s₁, hs₀, hparents, hs⟩
    · exact hs
    · have hs₁ : s₁.tree = s.tree := by
        rw [← hs₀] at hkind ⊢
        exact ih hchain.tail (makeLineage_there hchain hkind) hparents
      rcases hs with ⟨-, hs⟩ | ⟨-, -, hmake | ⟨hs, -⟩⟩
      · rw [hs, hs₁]
      · rw [hs₁] at hmake
        exact absurd hmake (FileTree.makeDirectory_ne_ok hkind)
      · rw [hs, hs₁]

/-- A directory can be made from wherever those that it lies in can, with the same end. -/
theorem makeLineage_of_parents {m₁ : FileTree} (hchain : (path :: parents).IsChain Within)
    (hparents : (Storage.makeLineage parents : StateM FileTree _) t = (.ok (), m₁))
    (hlast : m₁.makeDirectory path = .ok m ∨ m₁.kindAt path = some .directory ∧ m₁ = m) :
    (Storage.makeLineage (path :: parents) : StateM FileTree _) t = (.ok (), m) := by
  cases hkind : t.kindAt path with
  | none => exact FileTree.makeLineage_cons_ok.mpr (.inr ⟨hkind, m₁, hparents, hlast⟩)
  | some kind =>
    rw [makeLineage_there hchain hkind] at hparents
    cases hparents
    rcases hlast with hmake | ⟨hdir, heq⟩
    · exact absurd hmake (FileTree.makeDirectory_ne_ok hkind)
    · exact FileTree.makeLineage_cons_ok.mpr (.inl ⟨hdir, heq⟩)

/-- However far the making of directories got, it can be taken up there, with the same
end. -/
theorem makeLineage_resume (hchain : ps.IsChain Within)
    (hfirst : (Storage.makeLineage ps : StateM FileTree _) s.tree = (.ok (), m))
    (h : (Storage.makeLineage ps : StateM FaultyTree _) s = (r, s')) :
    (Storage.makeLineage ps : StateM FileTree _) s'.tree = (.ok (), m) ∧ (r = .ok () → s'.tree = m) := by
  induction ps generalizing s s' r m with
  | nil =>
    cases h
    cases hfirst
    exact ⟨rfl, fun _ => rfl⟩
  | cons path parents ih =>
    rcases FileTree.makeLineage_cons_ok.mp hfirst with ⟨hkind, rfl⟩ | ⟨hkind, m₁, hfirst₁, hlast⟩
    · have hs := tree_makeLineage hchain hfirst h
      rw [hs]
      exact ⟨hfirst, fun _ => rfl⟩
    have hm₁ (hdir : m₁.kindAt path = some .directory) : m₁ = m := by
      rcases hlast with hmake | ⟨-, heq⟩
      · exact absurd hmake (FileTree.makeDirectory_ne_ok hdir)
      · exact heq
    rcases makeLineage_cons_cases h with ⟨hs, hr⟩ | ⟨r₁, s₀, s₁, hs₀, hparents, hs⟩
    · rw [hs]
      refine ⟨hfirst, fun hok => ?_⟩
      rw [hr hok] at hkind
      cases hkind
    rw [← hs₀] at hfirst₁
    obtain ⟨hresume, hdone⟩ := ih hchain.tail hfirst₁ hparents
    have hstopped := makeLineage_of_parents hchain hresume hlast
    rcases hs with ⟨⟨f, rfl⟩, hs⟩ | ⟨-, rfl, hmake | ⟨hs, hdir⟩⟩
    · rw [hs]
      exact ⟨hstopped, nofun⟩
    · rw [hdone rfl] at hmake
      have hs' : s'.tree = m := by
        rcases hlast with hlast | ⟨hdir, -⟩
        · rw [hmake] at hlast
          exact Except.ok.inj hlast
        · exact absurd hmake (FileTree.makeDirectory_ne_ok hdir)
      rw [← hs']
      exact ⟨FileTree.makeLineage_cons_ok.mpr (.inl ⟨(FileTree.makeDirectory_ok hmake).2, rfl⟩), fun _ => rfl⟩
    · rw [hdone rfl] at hdir
      rw [hs]
      exact ⟨hstopped, fun _ => (hdone rfl).trans (hm₁ hdir)⟩

end

end FaultyTree

/-! ## Trees with the same nodes -/

namespace FileTree

structure Alike (m u : FileTree) : Prop where
  current : u.current = m.current
  nodes : ∀ p, u.get? p = m.get? p
  size : u.nodes.size = m.nodes.size

section
variable {m u : FileTree} {path temp data : Text} {shared : Bool} {a : FileTree}

theorem Alike.fileAt? (h : Alike m u) (p : List Text) : u.fileAt? p = m.fileAt? p := by
  unfold FileTree.fileAt?
  rw [h.nodes]

theorem Alike.descend (h : Alike m u) (ps here : List Text) : u.descend ps here = m.descend ps here := by
  induction ps generalizing here with
  | nil =>
    unfold FileTree.descend
    rw [h.nodes]
  | cons part ps ih =>
    unfold FileTree.descend
    simp only [h.nodes, ih]

theorem Alike.ending (h : Alike m u) (path : Text) : u.ending path = m.ending path := by
  unfold FileTree.ending
  simp only [h.descend, h.current]

theorem Alike.locate (h : Alike m u) (path : Text) : u.locate path = m.locate path := by
  unfold FileTree.locate
  simp only [h.ending, h.nodes]

theorem Alike.kindAt (h : Alike m u) (path : Text) : u.kindAt path = m.kindAt path := by
  unfold FileTree.kindAt
  rw [h.locate]

theorem Alike.createTempFrom (h : Alike m u) {dir base : Text} {tries n : Nat}
    (hm : m.createTempFrom dir base tries n = .ok (temp, a)) :
    ∃ b, u.createTempFrom dir base tries n = .ok (temp, b) := by
  induction tries generalizing n with
  | zero => cases hm
  | succ tries ih =>
    rw [FileTree.createTempFrom] at hm ⊢
    simp only [h.locate] at hm ⊢
    split at hm
    · cases hm
    · exact ih hm
    · cases hm
      exact ⟨_, rfl⟩

theorem Alike.createTemp (h : Alike m u) {dir base : Text} (hm : m.createTemp dir base = .ok (temp, a)) :
    ∃ b, u.createTemp dir base = .ok (temp, b) := by
  unfold FileTree.createTemp at hm ⊢
  split at hm
  · cases hm
  · rename_i hslash
    rw [if_neg hslash, h.size]
    exact h.createTempFrom hm

theorem Parked.remove (hp : Parked m temp data shared a) (hf : Free m temp) : Alike m (a.remove temp) := by
  have hremove : a.remove temp = a.erase (m.placeOf temp) := by
    unfold FileTree.remove
    rw [hp.locate hf]
  rw [hremove]
  refine ⟨hp.current, fun p => ?_, ?_⟩
  · rw [get?_erase _ hf.placeOf_ne_nil, hp.nodes]
    split
    · rename_i heq
      rw [heq, hf.ending.2.2]
    · rfl
  · have hsome : a.nodes.contains (m.placeOf temp) = true := by
      rw [contains_nodes hf.placeOf_ne_nil, hp.nodes, if_pos rfl]
      rfl
    rw [erase, Std.TreeMap.size_erase, hsome, if_pos rfl, hp.size]
    rfl

end

end FileTree

namespace FaultyTree

/-! ## Writing -/

section
variable {m : FileTree} {s s' : FaultyTree} {path temp data : Text} {r : Except FileFault Unit}

theorem inOrder_cons_cases {step : StateM FaultyTree (Except FileFault Unit)}
    {rest : List (StateM FaultyTree (Except FileFault Unit))}
    (h : Output.inOrder (step :: rest) s = (r, s')) :
    (∃ a, step s = (.ok (), a) ∧ Output.inOrder rest a = (r, s')) ∨
      ∃ f, r = .error f ∧ step s = (.error f, s') := by
  rw [Output.inOrder, run_bind] at h
  rcases hstep : step s with ⟨_ | _, a⟩
  · rw [hstep] at h
    cases h
    exact .inr ⟨_, rfl, rfl⟩
  · rw [hstep] at h
    exact .inl ⟨a, rfl, h⟩

/-- The data is moved to its place, or the file for passing use still stands, with some of
it. -/
theorem inOrder_cases (hf : FileTree.Free m temp) (hp : FileTree.Parked m temp data false s.tree)
    (h : (Output.inOrder [Storage.close temp, Storage.share temp, Storage.rename temp path] :
      StateM FaultyTree _) s = (r, s')) :
    r = .ok () ∧ FileTree.Placed m path data s'.tree ∨
      ∃ f shared, r = .error f ∧ FileTree.Parked m temp data shared s'.tree := by
  rcases inOrder_cons_cases h with ⟨a, hclose, h⟩ | ⟨f, hr, hclose⟩
  swap
  · rcases whole_cases hclose with ⟨⟨⟩, -⟩ | ⟨-, -, hs⟩
    exact .inr ⟨f, false, hr, by rwa [hs]⟩
  replace hp : FileTree.Parked m temp data false a.tree := by
    rcases whole_cases hclose with ⟨-, hop⟩ | ⟨-, ⟨⟩, -⟩
    exact hp.modified hf hop rfl
  rcases inOrder_cons_cases h with ⟨b, hshare, h⟩ | ⟨f, hr, hshare⟩
  swap
  · rcases whole_cases hshare with ⟨⟨⟩, -⟩ | ⟨-, -, hs⟩
    exact .inr ⟨f, false, hr, by rwa [hs]⟩
  replace hp : FileTree.Parked m temp data true b.tree := by
    rcases whole_cases hshare with ⟨-, hop⟩ | ⟨-, ⟨⟩, -⟩
    exact hp.modified hf hop rfl
  rcases inOrder_cons_cases h with ⟨c, hrename, h⟩ | ⟨f, hr, hrename⟩
  · rcases whole_cases hrename with ⟨-, hop⟩ | ⟨-, ⟨⟩, -⟩
    cases h
    exact .inl ⟨rfl, hp.placed hf hop⟩
  · rcases whole_cases hrename with ⟨⟨⟩, -⟩ | ⟨-, -, hs⟩
    exact .inr ⟨f, true, hr, by rwa [hs]⟩

theorem place_cases (hf : FileTree.Free m temp) (hp : FileTree.Parked m temp [] false s.tree)
    (h : (Output.place temp path data : StateM FaultyTree _) s = (r, s')) :
    r = .ok () ∧ FileTree.Placed m path data s'.tree ∨
      ∃ f, r = .error f ∧ FileTree.Alike m s'.tree := by
  rw [Output.place, run_bind] at h
  rcases hfill : (Storage.fill temp data : StateM FaultyTree _) s with ⟨r₁, a⟩
  rw [hfill] at h
  rcases pour_cases hfill with ⟨rfl, hop⟩ | ⟨f, rfl, htorn⟩
  · simp only [run_bind] at h
    rcases hsteps : (Output.inOrder [Storage.close temp, Storage.share temp, Storage.rename temp path] :
      StateM FaultyTree _) a with ⟨r₂, b⟩
    rw [hsteps] at h
    rcases inOrder_cases hf (hp.modified hf hop rfl) hsteps with ⟨rfl, hplaced⟩ | ⟨f, shared, rfl, hparked⟩
    · cases h
      exact .inl ⟨rfl, hplaced⟩
    · cases h
      exact .inr ⟨f, rfl, hparked.remove hf⟩
  · simp only [run_bind] at h
    rcases hclose : (Storage.close temp : StateM FaultyTree _) a with ⟨r₂, b⟩
    rw [hclose] at h
    have hparked : ∃ data', FileTree.Parked m temp data' false a.tree := by
      rcases htorn with hs | ⟨written, hop⟩
      · exact ⟨[], by rwa [hs]⟩
      · exact ⟨_, hp.modified hf hop rfl⟩
    obtain ⟨data', hparked⟩ := hparked
    replace hparked : FileTree.Parked m temp data' false b.tree := by
      rcases whole_cases hclose with ⟨-, hop⟩ | ⟨-, -, hs⟩
      · exact hparked.modified hf hop rfl
      · rwa [hs]
    cases h
    exact .inr ⟨f, rfl, hparked.remove hf⟩

theorem write_cases (h : (Output.write path data : StateM FaultyTree _) s = (r, s')) :
    ∃ r₀ a, (Storage.makeDirectories (Path.dir path) : StateM FaultyTree _) s = (r₀, a) ∧
      ((∃ f, r = .error f) ∧ s'.tree = a.tree ∨ r₀ = .ok () ∧
        (r = .ok () ∧ FileTree.Placed a.tree path data s'.tree ∨
          (∃ f, r = .error f) ∧ FileTree.Alike a.tree s'.tree)) := by
  rw [Output.write, run_bind] at h
  rcases hdirs : (Storage.makeDirectories (Path.dir path) : StateM FaultyTree _) s with ⟨r₀, a⟩
  refine ⟨r₀, a, rfl, ?_⟩
  rw [hdirs] at h
  cases r₀ with
  | error f =>
    cases h
    exact .inl ⟨⟨f, rfl⟩, rfl⟩
  | ok u =>
    simp only [run_bind] at h
    rcases hcreate : (Storage.createTemp (Path.dir path) (Path.base path) : StateM FaultyTree _) a with
      ⟨r₁, b⟩
    rw [hcreate] at h
    rcases createTemp_cases hcreate with ⟨temp, rfl, hfree, hb⟩ | ⟨f, rfl, hb⟩
    · refine .inr ⟨rfl, ?_⟩
      rcases place_cases hfree (by rw [hb]; exact hfree.parked) h with hok | ⟨f, hr, halike⟩
      · exact .inl hok
      · exact .inr ⟨⟨f, hr⟩, halike⟩
    · cases h
      exact .inl ⟨⟨f, rfl⟩, hb⟩

end

end FaultyTree

end ClassForge
