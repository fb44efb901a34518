import ClassForge.Proofs.BoundClasses
import ClassForge.Proofs.Walks

/-!
# What the check of a class reports

A breach is a way to break the contract at one place: of the class, of a final or a global by
its number, of a method by its number, or of a node by the number of its method and its
address. The check reports the breaches that occur, each once, in the order of their places;
so it reports nothing exactly when the class keeps its contract.
-/

namespace ClassForge

/-! ## The contract -/

/-- The node has a known kind and, if it uses a name, a symbol that fits its kind. -/
structure Node.Settled (n : Node) : Prop where
  known : n.kind ∈ NodeKind.named ∧ n.kind ≠ .invalid
  bound : n.kind = .var ∨ n.kind = .const ∨ n.kind = .call → ∃ sym, n.sym = some sym ∧
    (n.kind = .call → sym.kind = .proc) ∧ (n.kind = .const → sym.kind = .const)

theorem Node.breach?_eq_none {n : Node} : n.breach? = none ↔ n.Settled := by
  have hparts : n.Settled ↔ (n.kind ∈ NodeKind.named ∧ n.kind ≠ .invalid) ∧
      (n.kind = .var ∨ n.kind = .const ∨ n.kind = .call → ∃ sym, n.sym = some sym ∧
        (n.kind = .call → sym.kind = .proc) ∧ (n.kind = .const → sym.kind = .const)) :=
    ⟨fun h => ⟨h.known, h.bound⟩, fun h => ⟨h.1, h.2⟩⟩
  rw [hparts, breach?]
  cases hk : n.kind with
  | var | const | call => cases n.sym <;> simp [NodeKind.named]
  | _ => simp [NodeKind.named]

structure ClassDecl.Kept (c : ClassDecl) : Prop where
  symbol : ∃ s, c.symbol = some s ∧ s.name ≠ [] ∧ 47 ∉ s.name ∧ 92 ∉ s.name ∧
    ¬ Text.ofString ".." <:+: s.name ∧ s.kind = .classSym
  finals : ∀ f ∈ c.finals, ∃ s, f = some s ∧ s.kind = .const ∧ s.hasValue = true
  globals : ∀ v ∈ c.globals, ∃ s, v = some s ∧ s.kind = .var
  methods : ∀ m ∈ c.methods, ∃ d proc, m = some d ∧ d.symbol = some proc ∧ proc.kind = .proc ∧
    (proc.type = .int ∨ proc.type = .void) ∧ d.scope ≠ none
  nodes : ∀ d body a n, some d ∈ c.methods → d.body = some body → body.at? a = some n → n.Settled

/-! ## Breaches -/

inductive MethodBreach where
  | symbol
  | kind
  | returnType
  | scope
  | node (a : List Edge)

namespace MethodBreach

def rank : MethodBreach → Nat
  | symbol => 0
  | kind => 1
  | returnType => 2
  | scope => 3
  | node _ => 4

def address : MethodBreach → List Edge
  | node a => a
  | _ => []

/-- The method has the breach. Without a symbol it has no other. -/
def Occurs (m : Option MethodDecl) : MethodBreach → Prop
  | symbol => m.bind MethodDecl.symbol = none
  | kind => ∃ d proc, m = some d ∧ d.symbol = some proc ∧ proc.kind ≠ .proc
  | returnType => ∃ d proc, m = some d ∧ d.symbol = some proc ∧ ¬ (proc.type = .int ∨ proc.type = .void)
  | scope => ∃ d proc, m = some d ∧ d.symbol = some proc ∧ d.scope = none
  | node a => ∃ d proc body n, m = some d ∧ d.symbol = some proc ∧ d.body = some body ∧
      body.at? a = some n ∧ ¬ n.Settled

def pos? (m : MethodDecl) : MethodBreach → Option Position
  | symbol | kind | scope => some m.pos
  | returnType => m.symbol.map Symbol.pos
  | node a => (m.body.bind fun body => body.at? a).map Node.pos

end MethodBreach

inductive Breach where
  | classPath
  | classKind
  | final (i : Nat)
  | global (i : Nat)
  | method (i : Nat) (b : MethodBreach)

namespace Breach

/-- Part of the class, number in the part, aspect. -/
def place : Breach → List Nat
  | classPath => [0, 0, 0]
  | classKind => [0, 0, 1]
  | final i => [1, i, 0]
  | global i => [2, i, 0]
  | method i b => [3, i, b.rank]

def address : Breach → List Edge
  | method _ b => b.address
  | _ => []

/-- The order of reports: class, finals, globals, methods, and in a method the nodes by their
addresses. -/
def Before (b b' : Breach) : Prop :=
  b.place < b'.place ∨ b.place = b'.place ∧ b.address < b'.address

def Occurs (c : ClassDecl) : Breach → Prop
  | classPath => ∃ s, c.symbol = some s ∧ (47 ∈ s.name ∨ 92 ∈ s.name ∨ Text.ofString ".." <:+: s.name)
  | classKind => ∃ s, c.symbol = some s ∧ s.kind ≠ .classSym
  | final i => ∃ f, c.finals[i]? = some f ∧ ¬ ∃ s, f = some s ∧ s.kind = .const ∧ s.hasValue = true
  | global i => ∃ v, c.globals[i]? = some v ∧ ¬ ∃ s, v = some s ∧ s.kind = .var
  | method i b => ∃ m, c.methods[i]? = some m ∧ b.Occurs m

def code : Breach → Text
  | method _ .returnType => "E0911"
  | _ => "E0910"

def pos? (c : ClassDecl) : Breach → Option Position
  | classPath | classKind => some c.pos
  | final i => c.finals[i]?.map fun f => (f.map Symbol.pos).getD c.pos
  | global i => c.globals[i]?.map fun v => (v.map Symbol.pos).getD c.pos
  | method i b => c.methods[i]?.bind fun m => (m.map b.pos?).getD (some c.pos)

def Reports (c : ClassDecl) (b : Breach) (d : Diagnostic) : Prop :=
  d.code = b.code ∧ b.pos? c = some ⟨d.file, d.line, d.column⟩

end Breach

/-! ## Reports in order -/

/-- These diagnostics report the breaches with `P`, each once and in order. -/
def Reported (c : ClassDecl) (P : Breach → Prop) (ds : List Diagnostic) : Prop :=
  ∃ members : List (Breach × Diagnostic), members.map Prod.snd = ds ∧
    (members.map Prod.fst).Pairwise Breach.Before ∧ (∀ b, b ∈ members.map Prod.fst ↔ P b) ∧
    ∀ x ∈ members, x.1.Reports c x.2

section
variable {c : ClassDecl} {P Q : Breach → Prop} {ds es : List Diagnostic}

theorem Reported.congr (h : Reported c P ds) (hPQ : ∀ b, P b ↔ Q b) : Reported c Q ds := by
  obtain ⟨members, hds, hsorted, hmem, hreports⟩ := h
  exact ⟨members, hds, hsorted, fun b => (hmem b).trans (hPQ b), hreports⟩

theorem Reported.eq_nil_iff (h : Reported c P ds) : ds = [] ↔ ∀ b, ¬ P b := by
  obtain ⟨members, rfl, -, hmem, -⟩ := h
  cases members with
  | nil =>
    simp only [List.map_nil, true_iff]
    intro b hb
    cases (hmem b).mpr hb
  | cons x members =>
    simp only [List.map_cons, reduceCtorEq, false_iff]
    intro hnone
    exact hnone x.1 ((hmem x.1).mp (List.mem_cons_self ..))

theorem reported_nil (h : ∀ b, ¬ P b) : Reported c P [] :=
  ⟨[], rfl, .nil, fun b => by simp [h b], by simp⟩

theorem reported_one {b : Breach} {p : Prop} (hnil : p → ds = [])
    (hone : ¬ p → ∃ d, ds = [d] ∧ b.Reports c d) : Reported c (fun b' => b' = b ∧ ¬ p) ds := by
  by_cases hp : p
  · rw [hnil hp]
    exact reported_nil fun _ h => h.2 hp
  · obtain ⟨d, rfl, hd⟩ := hone hp
    exact ⟨[(b, d)], rfl, List.pairwise_singleton .., fun b' => by simp [hp], by simpa using hd⟩

theorem reported_ite {b : Breach} {d : Diagnostic} (p : Prop) [Decidable p] (h : b.Reports c d) :
    Reported c (fun b' => b' = b ∧ ¬ p) (if p then [] else [d]) :=
  reported_one (fun hp => if_pos hp) fun hp => ⟨d, if_neg hp, h⟩

theorem Reported.append (hP : Reported c P ds) (hQ : Reported c Q es)
    (hbefore : ∀ b b', P b → Q b' → b.Before b') : Reported c (fun b => P b ∨ Q b) (ds ++ es) := by
  obtain ⟨ms, rfl, hsorted, hmem, hreports⟩ := hP
  obtain ⟨ns, rfl, hsorted', hmem', hreports'⟩ := hQ
  refine ⟨ms ++ ns, List.map_append, ?_, fun b => ?_, fun x hx => ?_⟩
  · rw [List.map_append, List.pairwise_append]
    exact ⟨hsorted, hsorted', fun b hb b' hb' => hbefore b b' ((hmem b).mp hb) ((hmem' b').mp hb')⟩
  · rw [List.map_append, List.mem_append, hmem, hmem']
  · exact (List.mem_append.mp hx).elim (hreports x) (hreports' x)

theorem reported_flatMap {β : Type} {xs : List β} {P : β → Breach → Prop} {f : β → List Diagnostic}
    (h : ∀ x ∈ xs, Reported c (P x) (f x))
    (hbefore : xs.Pairwise fun x y => ∀ b b', P x b → P y b' → b.Before b') :
    Reported c (fun b => ∃ x ∈ xs, P x b) (xs.flatMap f) := by
  induction xs with
  | nil => exact reported_nil (by simp)
  | cons x xs ih =>
    rw [List.pairwise_cons] at hbefore
    rw [List.forall_mem_cons] at h
    refine (h.1.append (ih h.2 hbefore.2) ?_).congr (by simp)
    rintro b b' hb ⟨y, hy, hb'⟩
    exact hbefore.1 y hy b b' hb hb'

theorem reported_items {α : Type} {xs : List α} {P : Nat → α → Breach → Prop} {f : α → List Diagnostic}
    (h : ∀ i x, xs[i]? = some x → Reported c (P i x) (f x))
    (hbefore : ∀ i j x y b b', i < j → P i x b → P j y b' → b.Before b') :
    Reported c (fun b => ∃ i x, xs[i]? = some x ∧ P i x b) (xs.flatMap f) := by
  have hnumbers : (xs.zipIdx.map Prod.snd).Pairwise (· < ·) := by
    rw [List.zipIdx_map_snd]
    exact List.pairwise_lt_range'
  rw [List.pairwise_map] at hnumbers
  have hzip : Reported c (fun b => ∃ x ∈ xs.zipIdx, P x.2 x.1 b) (xs.zipIdx.flatMap fun x => f x.1) :=
    reported_flatMap (fun x hx => h x.2 x.1 (List.mem_zipIdx_iff_getElem?.mp hx))
      (hnumbers.imp fun hlt b b' => hbefore _ _ _ _ b b' hlt)
  have hxs : xs.zipIdx.flatMap (fun x => f x.1) = xs.flatMap f := by
    rw [← List.flatMap_map, List.zipIdx_map_fst]
  rw [hxs] at hzip
  refine hzip.congr fun b => ?_
  constructor
  · rintro ⟨⟨x, i⟩, hx, hb⟩
    exact ⟨i, x, List.mem_zipIdx_iff_getElem?.mp hx, hb⟩
  · rintro ⟨i, x, hx, hb⟩
    exact ⟨(x, i), List.mem_zipIdx_iff_getElem?.mpr hx, hb⟩

end

/-! ## The parts of a class -/

namespace Breach

theorem before_of_part {b b' : Breach} {k l : Nat} {r r' : List Nat} (hb : b.place = k :: r)
    (hb' : b'.place = l :: r') (h : k < l) : b.Before b' := by
  refine .inl ?_
  rw [hb, hb']
  exact List.cons_lt_cons_iff.mpr (.inl h)

theorem before_of_number {b b' : Breach} {k i j : Nat} {r r' : List Nat} (hb : b.place = k :: i :: r)
    (hb' : b'.place = k :: j :: r') (h : i < j) : b.Before b' := by
  refine .inl ?_
  rw [hb, hb', List.cons_lt_cons_iff]
  exact .inr ⟨rfl, List.cons_lt_cons_iff.mpr (.inl h)⟩

theorem before_of_rank {i : Nat} {b b' : MethodBreach} (h : b.rank < b'.rank) :
    (method i b).Before (method i b') := by
  refine .inl ?_
  rw [place, place, List.cons_lt_cons_iff, List.cons_lt_cons_iff]
  exact .inr ⟨rfl, .inr ⟨rfl, List.cons_lt_cons_iff.mpr (.inl h)⟩⟩

end Breach

namespace ClassDecl

variable {c : ClassDecl} {symbol : Symbol}

theorem isPlainName_iff (name : Text) : isPlainName name = true ↔
    ¬ (47 ∈ name ∨ 92 ∈ name ∨ Text.ofString ".." <:+: name) := by
  simp [isPlainName, ← Text.hasPart_iff, and_assoc]

theorem reported_own (hs : c.symbol = some symbol) :
    Reported c (fun b => (b = .classPath ∨ b = .classKind) ∧ b.Occurs c) (c.ownBreaches symbol) := by
  unfold ownBreaches
  refine ((reported_ite (b := .classPath) _ ⟨rfl, rfl⟩).append
    (reported_ite (b := .classKind) _ ⟨rfl, rfl⟩) ?_).congr fun b => ?_
  · rintro b b' ⟨rfl, -⟩ ⟨rfl, -⟩
    exact .inl (by decide)
  · rw [isPlainName_iff, not_not]
    cases b <;> simp [Breach.Occurs, hs]

theorem reported_symbols {xs : List (Option Symbol)} {b : Nat → Breach} {k : Nat}
    {p : Option Symbol → Prop} {f : Option Symbol → Option Diagnostic}
    (hplace : ∀ i, (b i).place = [k, i, 0]) (hcode : ∀ i, (b i).code = Code.unresolvedNode)
    (hpos : ∀ i, (b i).pos? c = xs[i]?.map fun x => (x.map Symbol.pos).getD c.pos)
    (hgood : ∀ x, p x → f x = none)
    (hbad : ∀ x, ¬ p x → ∃ message, f x = some (.breach ((x.map Symbol.pos).getD c.pos) message)) :
    Reported c (fun b' => ∃ i x, xs[i]? = some x ∧ (b' = b i ∧ ¬ p x)) (xs.filterMap f) := by
  rw [List.filterMap_eq_flatMap_toList]
  refine reported_items (fun i x hx => reported_one (fun h => ?_) fun h => ?_) ?_
  · rw [hgood x h, Option.toList_none]
  · obtain ⟨message, hmessage⟩ := hbad x h
    refine ⟨_, by rw [hmessage, Option.toList_some], (hcode i).symm, ?_⟩
    rw [hpos, hx]
    rfl
  · rintro i j x y _ _ hij ⟨rfl, -⟩ ⟨rfl, -⟩
    exact Breach.before_of_number (hplace i) (hplace j) hij

theorem reported_finals :
    Reported c (fun b => ∃ i f, c.finals[i]? = some f ∧
      (b = .final i ∧ ¬ ∃ s, f = some s ∧ s.kind = .const ∧ s.hasValue = true))
      (c.finals.filterMap c.finalBreach?) := by
  refine reported_symbols (fun _ => rfl) (fun _ => rfl) (fun _ => rfl) ?_ fun f h => ?_
  · rintro _ ⟨s, rfl, hkind, hvalue⟩
    simp [finalBreach?, hkind, hvalue]
  · cases f with
    | none => exact ⟨_, rfl⟩
    | some s =>
      simp only [finalBreach?]
      by_cases hkind : s.kind = .const
      · have hvalue : s.hasValue = false := by
          by_contra hvalue
          exact h ⟨s, rfl, hkind, by simpa using hvalue⟩
        simp only [hkind, hvalue]
        exact ⟨_, rfl⟩
      · rw [if_pos (by simpa using hkind)]
        exact ⟨_, rfl⟩

theorem reported_globals :
    Reported c (fun b => ∃ i v, c.globals[i]? = some v ∧
      (b = .global i ∧ ¬ ∃ s, v = some s ∧ s.kind = .var))
      (c.globals.filterMap c.globalBreach?) := by
  refine reported_symbols (fun _ => rfl) (fun _ => rfl) (fun _ => rfl) ?_ fun v h => ?_
  · rintro _ ⟨s, rfl, hkind⟩
    simp [globalBreach?, hkind]
  · cases v with
    | none => exact ⟨_, rfl⟩
    | some s =>
      rw [globalBreach?, if_pos (by simpa using h)]
      exact ⟨_, rfl⟩

end ClassDecl

/-! ## Methods -/

theorem Node.exists_message {n : Node} {d : Diagnostic} (h : n.breach? = some d) :
    ∃ message, d = .breach n.pos message := by
  unfold breach? at h
  cases hk : n.kind with
  | var | const | call =>
    cases hs : n.sym with
    | none =>
      simp only [hk, hs] at h
      cases h
      exact ⟨_, rfl⟩
    | some sym =>
      simp only [hk, hs] at h
      split at h
      · cases h
        exact ⟨_, rfl⟩
      · split at h
        · cases h
          exact ⟨_, rfl⟩
        · cases h
  | invalid | other =>
    simp only [hk] at h
    cases h
    exact ⟨_, rfl⟩
  | _ =>
    simp only [hk] at h
    cases h

namespace ClassDecl

section
variable {c : ClassDecl} {i : Nat} {m : MethodDecl} {proc : Symbol} (hm : c.methods[i]? = some (some m))
include hm

theorem reports_method {b : MethodBreach} {d : Diagnostic} (hcode : d.code = (Breach.method i b).code)
    (hpos : b.pos? m = some ⟨d.file, d.line, d.column⟩) : (Breach.method i b).Reports c d := by
  refine ⟨hcode, ?_⟩
  rw [Breach.pos?, hm]
  exact hpos

theorem reported_nodes :
    Reported c (fun b => ∃ body a n, m.body = some body ∧ body.at? a = some n ∧
      (b = .method i (.node a) ∧ ¬ n.Settled))
      (m.body.toList.flatMap fun body => body.all.filterMap Node.breach?) := by
  cases hbody : m.body with
  | none => exact reported_nil (by simp)
  | some body =>
    have hall : body.all.filterMap Node.breach? =
        (body.located fun _ => true).flatMap fun x => x.2.breach?.toList := by
      rw [Node.all, ← Node.map_snd_located, List.filterMap_map, List.filterMap_eq_flatMap_toList]
      rfl
    rw [Option.toList_some, List.flatMap_singleton, hall]
    refine (reported_flatMap (P := fun x b => b = .method i (.node x.1) ∧ ¬ x.2.Settled)
      (fun x hx => ?_) ?_).congr fun b => ?_
    · refine reported_one (fun h => ?_) fun h => ?_
      · rw [Node.breach?_eq_none.mpr h, Option.toList_none]
      · rw [← Node.breach?_eq_none] at h
        obtain ⟨d, hd⟩ := Option.ne_none_iff_exists'.mp h
        obtain ⟨message, rfl⟩ := Node.exists_message hd
        refine ⟨_, by rw [hd, Option.toList_some], reports_method hm rfl ?_⟩
        rw [MethodBreach.pos?, hbody, Option.bind_some, Node.mem_located_all.mp hx]
        rfl
    · refine (Node.pairwise_located body).imp fun hlt => ?_
      rintro _ _ ⟨rfl, -⟩ ⟨rfl, -⟩
      exact .inr ⟨rfl, hlt⟩
    · constructor
      · rintro ⟨⟨a, n⟩, hx, hb⟩
        exact ⟨body, a, n, rfl, Node.mem_located_all.mp hx, hb⟩
      · rintro ⟨body', a, n, hbody', hat, hb⟩
        cases hbody'
        exact ⟨(a, n), Node.mem_located_all.mpr hat, hb⟩

theorem reported_returnType (hs : m.symbol = some proc) :
    Reported c (fun b => b = .method i .returnType ∧ ¬ (proc.type = .int ∨ proc.type = .void))
      (match proc.returnType with
        | .ok _ => []
        | .error d => [d]) := by
  have hpos (d : Diagnostic) (hd : ⟨d.file, d.line, d.column⟩ = proc.pos) :
      MethodBreach.returnType.pos? m = some ⟨d.file, d.line, d.column⟩ := by
    rw [MethodBreach.pos?, hs, hd]
    rfl
  unfold Symbol.returnType
  refine reported_one (fun h => ?_) fun h => ?_
  · rcases h with h | h <;> rw [h]
  · cases htype : proc.type with
    | int => exact absurd (.inl htype) h
    | void => exact absurd (.inr htype) h
    | unknown | bool => exact ⟨_, rfl, reports_method hm rfl (hpos _ rfl)⟩

/-- A method with a symbol is reported for its kind, its return type and its scope, then for
its nodes. -/
theorem reported_method (hs : m.symbol = some proc) :
    Reported c (fun b => ∃ mb, b = .method i mb ∧ mb.Occurs (some m)) (m.breachesOf proc) := by
  unfold MethodDecl.breachesOf
  refine ((((reported_ite (b := .method i .kind) _ (reports_method hm rfl rfl)).append
    (reported_returnType hm hs) ?_).append
      (reported_ite (b := .method i .scope) _ (reports_method hm rfl rfl)) ?_).append
        (reported_nodes hm) ?_).congr fun b => ?_
  · rintro _ _ ⟨rfl, -⟩ ⟨rfl, -⟩
    exact Breach.before_of_rank (by decide)
  · rintro _ _ (⟨rfl, -⟩ | ⟨rfl, -⟩) ⟨rfl, -⟩ <;> exact Breach.before_of_rank (by decide)
  · rintro _ _ ((⟨rfl, -⟩ | ⟨rfl, -⟩) | ⟨rfl, -⟩) ⟨_, a, _, _, _, rfl, -⟩ <;>
      exact Breach.before_of_rank (show _ < 4 by decide)
  · constructor
    · rintro (((⟨rfl, h⟩ | ⟨rfl, h⟩) | ⟨rfl, h⟩) | ⟨body, a, n, hbody, hn, rfl, h⟩)
      · exact ⟨_, rfl, m, proc, rfl, hs, h⟩
      · exact ⟨_, rfl, m, proc, rfl, hs, h⟩
      · exact ⟨_, rfl, m, proc, rfl, hs, by simpa using h⟩
      · exact ⟨_, rfl, m, proc, body, n, rfl, hs, hbody, hn, h⟩
    · rintro ⟨mb, rfl, h⟩
      cases mb with
      | symbol => exact absurd (hs.symm.trans h) (by simp)
      | kind =>
        obtain ⟨_, _, ⟨⟩, hs', h⟩ := h
        cases hs.symm.trans hs'
        exact .inl (.inl (.inl ⟨rfl, h⟩))
      | returnType =>
        obtain ⟨_, _, ⟨⟩, hs', h⟩ := h
        cases hs.symm.trans hs'
        exact .inl (.inl (.inr ⟨rfl, h⟩))
      | scope =>
        obtain ⟨_, _, ⟨⟩, -, h⟩ := h
        exact .inl (.inr ⟨rfl, by simp [h]⟩)
      | node a =>
        obtain ⟨_, _, body, n, ⟨⟩, -, hbody, hn, h⟩ := h
        exact .inr ⟨body, a, n, hbody, hn, rfl, h⟩

end

variable {c : ClassDecl}

theorem reported_noSymbol {i : Nat} {m : Option MethodDecl} {d : Diagnostic}
    (hm : m.bind MethodDecl.symbol = none) (hd : (Breach.method i .symbol).Reports c d) :
    Reported c (fun b => ∃ mb, b = .method i mb ∧ mb.Occurs m) [d] := by
  have hone : Reported c (fun b => b = .method i .symbol ∧ ¬ False) [d] :=
    reported_one (fun h => h.elim) fun _ => ⟨d, rfl, hd⟩
  refine hone.congr fun b => ?_
  constructor
  · rintro ⟨rfl, -⟩
    exact ⟨_, rfl, hm⟩
  · rintro ⟨mb, rfl, h⟩
    refine ⟨?_, not_false⟩
    cases mb with
    | symbol => rfl
    | kind | returnType | scope =>
      obtain ⟨d, proc, rfl, hs, -⟩ := h
      exact absurd (hm.symm.trans hs) (by simp)
    | node a =>
      obtain ⟨d, proc, body, n, rfl, hs, -⟩ := h
      exact absurd (hm.symm.trans hs) (by simp)

theorem reported_methods :
    Reported c (fun b => ∃ i m, c.methods[i]? = some m ∧ ∃ mb, b = .method i mb ∧ mb.Occurs m)
      (c.methods.flatMap c.methodBreaches) := by
  refine reported_items (fun i m hm => ?_) ?_
  · cases m with
    | none => exact reported_noSymbol rfl ⟨rfl, by rw [Breach.pos?, hm]; rfl⟩
    | some m =>
      simp only [methodBreaches]
      cases hs : m.symbol with
      | none => exact reported_noSymbol (m := some m) hs (reports_method hm rfl rfl)
      | some proc => exact reported_method hm hs
  · rintro i j m m' _ _ hij ⟨mb, rfl, -⟩ ⟨mb', rfl, -⟩
    exact Breach.before_of_number rfl rfl hij

/-- All breaches of a class are reported, part by part. -/
theorem reported_breaches {symbol : Symbol} (hs : c.symbol = some symbol) :
    Reported c (fun b => b.Occurs c) (c.breaches symbol) := by
  refine ((((reported_own hs).append reported_finals ?_).append reported_globals ?_).append
    reported_methods ?_).congr fun b => ?_
  · rintro _ _ ⟨rfl | rfl, -⟩ ⟨i, f, -, rfl, -⟩ <;> exact Breach.before_of_part rfl rfl (by decide)
  · rintro _ _ (⟨rfl | rfl, -⟩ | ⟨i, f, -, rfl, -⟩) ⟨j, v, -, rfl, -⟩ <;>
      exact Breach.before_of_part rfl rfl (by decide)
  · rintro _ _ ((⟨rfl | rfl, -⟩ | ⟨i, f, -, rfl, -⟩) | ⟨i, f, -, rfl, -⟩) ⟨j, m, -, mb, rfl, -⟩ <;>
      exact Breach.before_of_part rfl rfl (by decide)
  · cases b <;> simp [Breach.Occurs]

/-! ## Breaches and the contract -/

theorem Kept.not_occurs (h : c.Kept) (b : Breach) : ¬ b.Occurs c := by
  intro hb
  cases b with
  | classPath =>
    obtain ⟨s, hs, -, hslash, hback, hdots, -⟩ := h.symbol
    obtain ⟨s', hs', hpath⟩ := hb
    cases hs.symm.trans hs'
    exact hpath.elim hslash fun hpath => hpath.elim hback hdots
  | classKind =>
    obtain ⟨s, hs, -, -, -, -, hkind⟩ := h.symbol
    obtain ⟨s', hs', hne⟩ := hb
    cases hs.symm.trans hs'
    exact hne hkind
  | final i =>
    obtain ⟨f, hf, hbad⟩ := hb
    exact hbad (h.finals f (List.mem_of_getElem? hf))
  | global i =>
    obtain ⟨v, hv, hbad⟩ := hb
    exact hbad (h.globals v (List.mem_of_getElem? hv))
  | method i mb =>
    obtain ⟨m, hm, hb⟩ := hb
    have hmem := List.mem_of_getElem? hm
    obtain ⟨d, proc, rfl, hproc, hkind, htype, hscope⟩ := h.methods m hmem
    cases mb with
    | symbol => exact absurd (hproc.symm.trans hb) (by simp)
    | kind =>
      obtain ⟨_, _, ⟨⟩, hproc', hne⟩ := hb
      cases hproc.symm.trans hproc'
      exact hne hkind
    | returnType =>
      obtain ⟨_, _, ⟨⟩, hproc', hne⟩ := hb
      cases hproc.symm.trans hproc'
      exact hne htype
    | scope =>
      obtain ⟨_, _, ⟨⟩, -, hnone⟩ := hb
      exact hscope hnone
    | node a =>
      obtain ⟨_, _, body, n, ⟨⟩, -, hbody, hn, hbad⟩ := hb
      exact hbad (h.nodes d body a n hmem hbody hn)

section
variable (hnone : ∀ b : Breach, ¬ b.Occurs c)
include hnone

theorem exists_symbol_of_not_occurs {m : Option MethodDecl} (hm : m ∈ c.methods) :
    ∃ (i : Nat) (d : MethodDecl) (proc : Symbol), c.methods[i]? = some (some d) ∧ m = some d ∧ d.symbol = some proc := by
  obtain ⟨i, hi⟩ := List.mem_iff_getElem?.mp hm
  have hsome : m.bind MethodDecl.symbol ≠ none := fun h => hnone (.method i .symbol) ⟨m, hi, h⟩
  obtain ⟨proc, hproc⟩ := Option.ne_none_iff_exists'.mp hsome
  obtain ⟨d, rfl, hproc⟩ := Option.bind_eq_some_iff.mp hproc
  exact ⟨i, d, proc, hi, rfl, hproc⟩

theorem kept_of_not_occurs {s : Symbol} (hs : c.symbol = some s) (hn : s.name ≠ []) : c.Kept where
  symbol := by
    have hpath : ¬ (47 ∈ s.name ∨ 92 ∈ s.name ∨ Text.ofString ".." <:+: s.name) :=
      fun h => hnone .classPath ⟨s, hs, h⟩
    rw [not_or, not_or] at hpath
    refine ⟨s, hs, hn, hpath.1, hpath.2.1, hpath.2.2, ?_⟩
    by_contra h
    exact hnone .classKind ⟨s, hs, h⟩
  finals := by
    intro f hf
    obtain ⟨i, hi⟩ := List.mem_iff_getElem?.mp hf
    by_contra h
    exact hnone (.final i) ⟨f, hi, h⟩
  globals := by
    intro v hv
    obtain ⟨i, hi⟩ := List.mem_iff_getElem?.mp hv
    by_contra h
    exact hnone (.global i) ⟨v, hi, h⟩
  methods := by
    intro m hm
    obtain ⟨i, d, proc, hi, rfl, hproc⟩ := exists_symbol_of_not_occurs hnone hm
    refine ⟨d, proc, rfl, hproc, ?_, ?_, fun h => hnone (.method i .scope) ⟨_, hi, d, proc, rfl, hproc, h⟩⟩
    · by_contra h
      exact hnone (.method i .kind) ⟨_, hi, d, proc, rfl, hproc, h⟩
    · by_contra h
      exact hnone (.method i .returnType) ⟨_, hi, d, proc, rfl, hproc, h⟩
  nodes := by
    intro d body a n hd hbody ha
    obtain ⟨i, d', proc, hi, hd', hproc⟩ := exists_symbol_of_not_occurs hnone hd
    cases hd'
    by_contra h
    exact hnone (.method i (.node a)) ⟨_, hi, d, proc, body, n, rfl, hproc, hbody, ha, h⟩

end

/-- The check of a class passes if the class keeps its contract, and only then. A class that
has a name is reported for every breach, once and in order, and for nothing else. -/
theorem check_reports (c : ClassDecl) :
    (c.check = none ↔ c.Kept) ∧
    ∀ symbol, c.symbol = some symbol → symbol.name ≠ [] →
      ∃ members : List (Breach × Diagnostic),
        (members.map Prod.fst).Pairwise Breach.Before ∧
        (∀ b, b ∈ members.map Prod.fst ↔ b.Occurs c) ∧
        (∀ x ∈ members, x.1.Reports c x.2) ∧
        c.check = if members = [] then none
          else some (.many (members.map fun x => .diagnosed x.2 none)) := by
  refine ⟨?_, fun symbol hs hn => ?_⟩
  · rw [check_eq_none]
    constructor
    · rintro ⟨s, hs, hn, hb⟩
      exact kept_of_not_occurs ((reported_breaches hs).eq_nil_iff.mp hb) hs hn
    · intro h
      obtain ⟨s, hs, hn, -⟩ := h.symbol
      exact ⟨s, hs, hn, (reported_breaches hs).eq_nil_iff.mpr h.not_occurs⟩
  · obtain ⟨members, hds, hsorted, hmem, hreports⟩ := reported_breaches hs
    refine ⟨members, hsorted, hmem, hreports, ?_⟩
    simp only [check, hs, if_neg hn]
    rw [Failure.ofList?_diagnosed, ← hds, List.map_map]
    simp only [List.map_eq_nil_iff, Function.comp_def]

def broken : ClassDecl where
  symbol := some { name := "a/b", kind := .var }
  finals := [none, some { name := "f", kind := .const }]
  globals := [some { name := "g", kind := .var }, some { name := "h", kind := .const }]
  methods := [
    none,
    some {
      symbol := some { name := "m", kind := .var, type := .bool }
      body := some {
        kind := .assign
        left := some { kind := .var, name := "x" }
        next := some { kind := .other 99 } } }]

theorem check_reports_broken :
    ¬ broken.Kept ∧ ∃ members : List (Breach × Diagnostic), members.length = 11 ∧
      (members.map Prod.fst).Pairwise Breach.Before ∧
      .method 1 (.node [.left]) ∈ members.map Prod.fst ∧
      .method 1 (.node [.next]) ∈ members.map Prod.fst := by
  have hcheck : ∃ fs, broken.check = some (.many fs) ∧ fs.length = 11 := ⟨_, rfl, rfl⟩
  obtain ⟨fs, hcheck, hlength⟩ := hcheck
  obtain ⟨hkept, hreports⟩ := check_reports broken
  refine ⟨fun h => ?_, ?_⟩
  · rw [hkept.mpr h] at hcheck
    cases hcheck
  · obtain ⟨members, hsorted, hmem, -, hmembers⟩ := hreports _ rfl (by decide)
    refine ⟨members, ?_, hsorted, (hmem _).mpr ?_, (hmem _).mpr ?_⟩
    · rw [hcheck] at hmembers
      split at hmembers
      · cases hmembers
      · cases hmembers
        simpa using hlength
    · exact ⟨_, rfl, _, _, _, _, rfl, rfl, rfl, rfl, fun h => by simpa using h.bound (.inl rfl)⟩
    · exact ⟨_, rfl, _, _, _, _, rfl, rfl, rfl, rfl, fun h => absurd h.known (by decide)⟩

end ClassDecl

end ClassForge
