import ClassForge.Libraries.Usual
import ClassForge.Proofs.TomlLines

/-!
# Settings files read

The settings in the lines of a well-formed file are changed one after the other, since no
key comes twice: so the reader of this project keeps the rules of TOML.
-/

namespace ClassForge

namespace Toml

/-! ## Keys that are used -/

namespace Seen

theorem get?_set (s : Seen) (key k : Text) (child : Seen) :
    (s.set key child).get? k = if k = key then some child else s.get? k := by
  have hlookup (cs : List (Text × Seen)) :
      (setIn key child cs).lookup k = if k = key then some child else cs.lookup k := by
    induction cs with
    | nil =>
      by_cases hk : k = key
      · simp [setIn, hk]
      · simp [setIn, hk]
    | cons c cs ih =>
      obtain ⟨a, c⟩ := c
      rw [setIn]
      by_cases ha : a = key
      · subst ha
        by_cases hk : k = a
        · simp [hk]
        · simp [List.lookup_cons, hk, beq_false_of_ne hk]
      · rw [if_neg ha]
        by_cases hk : k = a
        · subst hk
          simp [ha]
        · rw [List.lookup_cons, List.lookup_cons, beq_false_of_ne hk, ih]
  exact hlookup s.children

theorem lookup_settleAll {k : Text} {cs : List (Text × Seen)} (h : cs.lookup k = none) :
    (settleAll cs).lookup k = none := by
  induction cs with
  | nil => simp [settleAll]
  | cons c cs ih =>
    obtain ⟨a, kind, closed, dotted, children⟩ := c
    rw [settleAll]
    by_cases hk : k = a
    · simp [hk] at h
    · rw [List.lookup_cons, beq_false_of_ne hk] at h ⊢
      exact ih h

theorem get?_settle {k : Text} {s : Seen} (h : s.get? k = none) : s.settle.get? k = none := by
  obtain ⟨kind, closed, dotted, children⟩ := s
  rw [settle]
  exact lookup_settleAll h

theorem assign_new {s : Seen} {key : Text} (h : s.get? key = none) :
    assign [key] s = .ok (s.set key { kind := .value, dotted := true }) := by
  rw [assign, h]

end Seen

namespace Used

def open? (u : Used) : Option Seen :=
  match u.current with
  | [] => some u.root
  | [name] => u.root.get? name
  | _ => none

def Fresh (u : Used) (key : Text) : Prop := ∃ table, u.open? = some table ∧ table.get? key = none

theorem clash?_value (v : Scalar) : v.value.clash? = none := by
  cases v <;> rfl

/-- A new key gets its value, and the others stay as they are. -/
theorem add_assign {u : Used} {key : Text} (h : u.Fresh key) (v : Scalar) :
    ∃ u', u.add (.assign [key] v.value) = .ok u' ∧ u'.current = u.current ∧
      ∀ k ≠ key, u.Fresh k → u'.Fresh k := by
  obtain ⟨root, current⟩ := u
  obtain ⟨table, htable, hnew⟩ := h
  match current with
  | [] =>
    cases htable
    refine ⟨⟨root.set key { kind := .value, dotted := true }, []⟩, ?_, rfl, ?_⟩
    · rw [add, Seen.tryModify, Seen.assign_new hnew]
      simp only [clash?_value]
    · rintro k hk ⟨table, htable, hfresh⟩
      cases htable
      refine ⟨root.set key { kind := .value, dotted := true }, rfl, ?_⟩
      rw [Seen.get?_set, if_neg hk]
      exact hfresh
  | [name] =>
    replace htable : root.get? name = some table := htable
    refine ⟨⟨root.set name (table.set key { kind := .value, dotted := true }), [name]⟩, ?_, rfl, ?_⟩
    · rw [add, Seen.tryModify, htable]
      simp only [Seen.tryModify, Seen.assign_new hnew, Except.map, clash?_value]
    · rintro k hk ⟨table', htable', hfresh⟩
      replace htable' : root.get? name = some table' := htable'
      rw [htable] at htable'
      cases htable'
      refine ⟨table.set key { kind := .value, dotted := true }, ?_, ?_⟩
      · show Seen.get? (root.set name _) name = _
        rw [Seen.get?_set, if_pos rfl]
      · rw [Seen.get?_set, if_neg hk, hfresh]
  | _ :: _ :: _ => cases htable

theorem add_table {u : Used} {name : Text} (hcurrent : u.current = []) (h : u.Fresh name) :
    ∃ u', u.add (.table [name]) = .ok u' ∧ ∀ k, u'.Fresh k := by
  obtain ⟨root, current⟩ := u
  subst hcurrent
  obtain ⟨table, htable, hnew⟩ := h
  cases htable
  refine ⟨⟨root.settle.set name { closed := true }, [name]⟩, ?_, fun k => ?_⟩
  · show (Seen.openHeader false [name] root.settle).map _ = _
    rw [Seen.openHeader, Seen.get?_settle hnew]
    rfl
  · refine ⟨{ closed := true }, ?_, rfl⟩
    show Seen.get? (root.settle.set name _) name = _
    rw [Seen.get?_set, if_pos rfl]

end Used

end Toml

/-! ## Lines -/

namespace Settings

open Toml (Used Scalar DocLine)

variable {s t : Settings}

theorem word?_ofNat {n : Nat} (h : n < 65536) : word? (Text.ofNat n) = some (UInt16.ofNat n) := by
  rw [word?, Toml.integer?_ofNat]
  simp only
  rw [if_pos (by omega)]
  rfl

theorem set?_value {slot : Slot} {v : Scalar} (h : s.assign? slot v = some t) :
    v.spelled = true ∧ s.set? slot v.value = some t := by
  cases v with
  | flag b => cases slot <;> cases h <;> exact ⟨rfl, rfl⟩
  | number n =>
    refine ⟨rfl, ?_⟩
    cases slot
    case major | minor =>
      simp only [assign?, Option.ite_none_right_eq_some, Option.some.injEq] at h
      obtain ⟨hn, rfl⟩ := h
      simp [set?, Scalar.value, word?_ofNat hn]
    all_goals cases h
  | string parts =>
    have hcontents : ∃ x, Toml.contents? parts = some x := by
      cases hx : Toml.contents? parts with
      | none => cases slot <;> simp [assign?, hx] at h
      | some x => exact ⟨x, rfl⟩
    obtain ⟨x, hx⟩ := hcontents
    refine ⟨?_, ?_⟩
    · rw [Toml.contents?_eq] at hx
      by_contra hspelled
      rw [if_neg hspelled] at hx
      cases hx
    · cases slot <;> simp [assign?, set?, Scalar.value, hx] at h ⊢ <;> exact h

theorem step_assign {place : Place} {slot : Slot} {v : Scalar} {u u' : Used}
    (hplace : Place.follow [slot.key] place = .ok (some (.slot slot)))
    (hu : u.add (.assign [slot.key] v.value) = .ok u') (h : s.assign? slot v = some t) :
    Reading.step { settings := s, used := u, place := some place } (.assign [slot.key] v.value) =
      .ok { settings := t, used := u', place := some place } := by
  have hset : setBelow place s [slot.key] v.value = .ok t := by
    unfold setBelow
    rw [hplace]
    simp only [(set?_value h).2, Option.elim_some]
  have huse : Reading.use { settings := s, used := u, place := some place }
      (.assign [slot.key] v.value) = .ok u' := by
    rw [Reading.use, hu]
    rfl
  simp only [Reading.step, huse, hset]
  rfl

/-- The lines of one table change the settings one after another, as long as their keys are
new. -/
theorem foldlM_lines {place : Place} {ls : List Line}
    (hplace : ∀ slot ∈ ls.filterMap Line.slot?, Place.follow [slot.key] place = .ok (some (.slot slot)))
    (hd : (ls.filterMap Line.slot?).Nodup) {u : Used}
    (hu : ∀ slot ∈ ls.filterMap Line.slot?, u.Fresh slot.key) (h : ls.foldlM Line.change? s = some t) :
    (∀ l ∈ ls, l.spelled = true) ∧ ∃ u', u'.current = u.current ∧
      (∀ k, (∀ slot ∈ ls.filterMap Line.slot?, k ≠ slot.key) → u.Fresh k → u'.Fresh k) ∧
      ((ls.map DocLine.line).filterMap DocLine.expression?).foldlM Reading.step
        { settings := s, used := u, place := some place } =
          .ok { settings := t, used := u', place := some place } := by
  induction ls generalizing s u with
  | nil =>
    cases h
    exact ⟨List.forall_mem_nil _, u, rfl, fun _ _ hk => hk, rfl⟩
  | cons l ls ih =>
    rw [List.foldlM_cons] at h
    rw [List.forall_mem_cons]
    match l with
    | .blank =>
      obtain ⟨hspelled, hrest⟩ := ih hplace hd hu h
      exact ⟨⟨rfl, hspelled⟩, hrest⟩
    | .remark words =>
      obtain ⟨hspelled, hrest⟩ := ih hplace hd hu h
      exact ⟨⟨rfl, hspelled⟩, hrest⟩
    | .setting slot v =>
      have hslots : (Line.setting slot v :: ls).filterMap Line.slot? = slot :: ls.filterMap Line.slot? := rfl
      have hexprs : ((Line.setting slot v :: ls).map DocLine.line).filterMap DocLine.expression? =
          .assign [slot.key] v.value :: (ls.map DocLine.line).filterMap DocLine.expression? := rfl
      obtain ⟨s', hs', h⟩ := Option.bind_eq_some_iff.mp h
      rw [hslots, List.forall_mem_cons] at hplace hu
      rw [hslots, List.nodup_cons] at hd
      obtain ⟨u₁, hadd, hcurrent₁, hkept₁⟩ := Used.add_assign hu.1 v
      -- settings with one key would be one setting, and it has come already
      have hne : ∀ slot' ∈ ls.filterMap Line.slot?, slot'.key ≠ slot.key := by
        intro slot' hslot' hkey
        have hsame := hplace.2 slot' hslot'
        rw [hkey, hplace.1] at hsame
        cases hsame
        exact hd.1 hslot'
      obtain ⟨hspelled, u₂, hcurrent₂, hkept₂, hfold⟩ := ih hplace.2 hd.2
        (fun slot' hslot' => hkept₁ _ (hne slot' hslot') (hu.2 slot' hslot')) h
      refine ⟨⟨(set?_value hs').1, hspelled⟩, u₂, hcurrent₂.trans hcurrent₁, ?_, ?_⟩
      · intro k hk hfresh
        rw [hslots, List.forall_mem_cons] at hk
        exact hkept₂ k hk.2 (hkept₁ k hk.1 hfresh)
      · rw [hexprs, List.foldlM_cons, step_assign hplace.1 hadd hs']
        exact hfold

theorem follow_key (slot : Slot) :
    Place.follow [slot.key] (if slot.inLog then .log else .root) = .ok (some (.slot slot)) := by
  cases slot <;> decide +kernel

/-! ## Files -/

namespace Layout

def rows (l : Layout) : List DocLine := l.root.map .line ++ .header "log" :: l.log.map .line

theorem text_rows (l : Layout) : l.rows.flatMap DocLine.text = l.text := by
  have hline : (fun line => (DocLine.line line).text) = Line.text := rfl
  have hlog : Text.ofString "[log]\n" = (DocLine.header "log").text := by decide
  rw [rows, List.flatMap_append, List.flatMap_cons, List.flatMap_map, List.flatMap_map, hline, ← hlog,
    text, List.append_assoc]

variable {l : Layout}

theorem forall_mem_rows (p : DocLine → Bool) (hheader : p (.header "log") = true) :
    (∀ r ∈ l.rows, p r = true) ↔ ∀ line ∈ l.lines, p (.line line) = true := by
  simp only [rows, lines, List.forall_mem_append, List.forall_mem_cons, List.forall_mem_map, hheader,
    true_and]

theorem WellFormed.parse_text (h : l.WellFormed) :
    Toml.parse l.text = ⟨(l.rows.takeWhile DocLine.spelled).filterMap DocLine.expression?,
      if l.rows.all DocLine.spelled then none else some .malformed⟩ := by
  rw [← text_rows]
  exact Toml.parse_rows ((forall_mem_rows DocLine.fits rfl).mpr h.fits)

/-- The whole file is read table by table. -/
theorem WellFormed.foldlM_rows (h : l.WellFormed) (hl : l.lines.foldlM Line.change? s = some t) :
    (∀ r ∈ l.rows, r.spelled = true) ∧
      ∃ r, (l.rows.filterMap DocLine.expression?).foldlM Reading.step { settings := s } = .ok r ∧
        r.settings = t := by
  rw [lines, List.foldlM_append] at hl
  obtain ⟨s', hroot, hlog⟩ := Option.bind_eq_some_iff.mp hl
  have honce := h.once
  rw [lines, List.filterMap_append, List.nodup_append] at honce
  have hfresh : ∀ k, Used.Fresh {} k := fun k => ⟨{}, rfl, rfl⟩
  have hplace : ∀ slot ∈ l.root.filterMap Line.slot?,
      Place.follow [slot.key] .root = .ok (some (.slot slot)) := by
    intro slot hslot
    simpa [h.root slot hslot] using follow_key slot
  have hplace' : ∀ slot ∈ l.log.filterMap Line.slot?,
      Place.follow [slot.key] .log = .ok (some (.slot slot)) := by
    intro slot hslot
    simpa [h.log slot hslot] using follow_key slot
  obtain ⟨hspelled, u₁, hcurrent, hkept, hfold⟩ :=
    foldlM_lines hplace honce.1 (fun slot _ => hfresh slot.key) hroot
  have hnew : u₁.Fresh "log" := by
    refine hkept _ (fun slot _ => ?_) (hfresh _)
    cases slot <;> decide
  obtain ⟨u₂, hheader, hfresh₂⟩ := Used.add_table hcurrent hnew
  obtain ⟨hspelled', u₃, -, -, hfold'⟩ :=
    foldlM_lines hplace' honce.2.1 (fun slot _ => hfresh₂ slot.key) hlog
  have htable : Reading.step { settings := s', used := u₁, place := some .root } (.table ["log"]) =
      .ok { settings := s', used := u₂, place := some .log } := by
    have huse : Reading.use { settings := s', used := u₁, place := some .root } (.table ["log"]) =
        .ok u₂ := by
      rw [Reading.use, hheader]
      rfl
    simp only [Reading.step, huse]
    rfl
  refine ⟨(forall_mem_rows DocLine.spelled rfl).mpr (List.forall_mem_append.mpr ⟨hspelled, hspelled'⟩), ?_⟩
  refine ⟨{ settings := t, used := u₃, place := some .log }, ?_, rfl⟩
  have hexprs : l.rows.filterMap DocLine.expression? = (l.root.map DocLine.line).filterMap DocLine.expression? ++
      .table ["log"] :: (l.log.map DocLine.line).filterMap DocLine.expression? := by
    rw [rows, List.filterMap_append]
    rfl
  rw [hexprs, List.foldlM_append,
    show ({ settings := s } : Reading) = { settings := s, used := {}, place := some .root } from rfl, hfold]
  show (Reading.step _ _).bind _ = _
  rw [htable]
  exact hfold'

end Layout

end Settings

open Settings in
theorem Toml.rules_reader : Toml.reader.Rules where
  reads l s t h hl := by
    obtain ⟨hspelled, r, hfold, rfl⟩ := h.foldlM_rows hl
    have htake : l.rows.takeWhile DocLine.spelled = l.rows := List.takeWhile_eq_self_iff.mpr hspelled
    have hall : l.rows.all DocLine.spelled = true := List.all_eq_true.mpr hspelled
    simp only [reader, Settings.parse, h.parse_text, htake, hall, hfold, if_true, Except.mapError]
  refuses l s h hl := by
    have hall : ¬l.rows.all DocLine.spelled = true := by
      rw [List.all_eq_true, Layout.forall_mem_rows DocLine.spelled rfl]
      obtain ⟨line, hmem, hline⟩ := hl
      intro hspelled
      have := hspelled line hmem
      rw [show (DocLine.line line).spelled = line.spelled from rfl, hline] at this
      cases this
    simp only [reader, Settings.parse, h.parse_text, if_neg hall]
    cases List.foldlM Reading.step _ _ with
    | error f => exact ⟨_, rfl⟩
    | ok r => exact ⟨_, rfl⟩

end ClassForge
