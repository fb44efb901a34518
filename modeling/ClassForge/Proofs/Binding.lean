import ClassForge.Proofs.Declarations

/-!
# When a document can be bound

Every item of a body is checked once for itself and, if it stands in a list of
statements, once for its place. A document can be bound if and only if its names
are distinct and no check fails; the faults are then those of the repeated
declarations and of the failed checks, in the order of the document.
-/

namespace ClassForge

/-! ## Kinds of items -/

namespace NodeKind

def statementWords : List Text := ["assign", "if", "while", "return", "call"]

def valueWords : List Text := ["binary", "unary", "number", "var", "const"]

theorem parse?_eq_some {word : Text} {k : NodeKind} :
    parse? word = some k ↔ word = k.name ∧ k ∈ named ∧ k ≠ invalid := by
  constructor
  · intro h
    have hname := List.find?_some h
    simp only [Bool.and_eq_true, decide_eq_true_eq, bne_iff_ne] at hname
    exact ⟨hname.1.symm, List.mem_of_find?_eq_some h, hname.2⟩
  · rintro ⟨rfl, hmem, hne⟩
    simp only [named, List.mem_cons, List.not_mem_nil, or_false] at hmem
    rcases hmem with rfl | rfl | rfl | rfl | rfl | rfl | rfl | rfl | rfl | rfl | rfl
    · exact absurd rfl hne
    all_goals rfl

theorem isSome_parse? {word : Text} : (parse? word).isSome ↔ word ∈ statementWords ++ valueWords := by
  have hwords : statementWords ++ valueWords = (named.filter (· != invalid)).map name := rfl
  rw [hwords, parse?, List.find?_isSome]
  simp only [List.mem_map, List.mem_filter, bne_iff_ne, Bool.and_eq_true, decide_eq_true_eq]
  exact exists_congr fun k => ⟨fun h => ⟨⟨h.1, h.2.2⟩, h.2.1⟩, fun h => ⟨h.1.1, h.2, h.1.2⟩⟩

theorem eq_word_iff {word word' : Text} {k j : NodeKind} (hk : parse? word = some k)
    (hj : parse? word' = some j) : word = word' ↔ k = j := by
  constructor
  · rintro rfl
    exact Option.some.inj (hk.symm.trans hj)
  · rintro rfl
    exact (parse?_eq_some.mp hk).1.trans (parse?_eq_some.mp hj).1.symm

theorem isStatement_iff {word : Text} {k : NodeKind} (h : parse? word = some k) :
    k.isStatement = true ↔ word ∈ statementWords := by
  obtain ⟨rfl, hmem, -⟩ := parse?_eq_some.mp h
  have hall : ∀ k ∈ named, k.isStatement = true ↔ k.name ∈ statementWords := by decide
  exact hall k hmem

theorem not_mem_valueWords {word : Text} (h : word ∈ statementWords) : word ∉ valueWords := by
  have hall : ∀ w ∈ statementWords, w ∉ valueWords := by decide
  exact hall word h

end NodeKind

namespace NodeItem

def values (item : NodeItem) : List NodeItem :=
  if item.kind = "assign" ∨ item.kind = "binary" then item.left.toList ++ item.right.toList
  else if item.kind = "if" ∨ item.kind = "while" then item.cond.toList
  else if item.kind = "return" ∨ item.kind = "unary" then item.left.toList
  else if item.kind = "call" then item.args
  else []

def blocks (item : NodeItem) : List NodeItem :=
  if item.kind = "if" then item.thenItems ++ item.elseItems
  else if item.kind = "while" then item.thenItems
  else []

theorem values_of_known {item : NodeItem} {k : NodeKind} : NodeKind.parse? item.kind = some k →
    item.values =
      match k with
      | .assign | .binary => item.left.toList ++ item.right.toList
      | .ifElse | .whileLoop => item.cond.toList
      | .ret | .unary => item.left.toList
      | .call => item.args
      | _ => [] := by
  intro hk
  obtain ⟨hkind, hmem, hne⟩ := NodeKind.parse?_eq_some.mp hk
  simp only [values, hkind]
  cases k with
  | invalid => exact absurd rfl hne
  | other n => simp [NodeKind.named] at hmem
  | _ => rfl

theorem blocks_of_known {item : NodeItem} {k : NodeKind} : NodeKind.parse? item.kind = some k →
    item.blocks =
      match k with
      | .ifElse => item.thenItems ++ item.elseItems
      | .whileLoop => item.thenItems
      | _ => [] := by
  intro hk
  obtain ⟨hkind, hmem, hne⟩ := NodeKind.parse?_eq_some.mp hk
  simp only [blocks, hkind]
  cases k with
  | invalid => exact absurd rfl hne
  | other n => simp [NodeKind.named] at hmem
  | _ => rfl

theorem parts_of_unknown {item : NodeItem} (hk : NodeKind.parse? item.kind = none) :
    item.values = [] ∧ item.blocks = [] := by
  have hne (w : Text) (hw : (NodeKind.parse? w).isSome) : item.kind ≠ w := by
    rintro rfl
    simp [hk] at hw
  constructor
  · simp [values, hne "assign" rfl, hne "binary" rfl, hne "if" rfl, hne "while" rfl, hne "return" rfl,
      hne "unary" rfl, hne "call" rfl]
  · simp [blocks, hne "if" rfl, hne "while" rfl]

theorem sizeOf_lt_of_mem_values {item part : NodeItem} (h : part ∈ item.values) :
    sizeOf part < sizeOf item := by
  obtain ⟨kind, line, column, name, op, value, left, right, cond, thenItems, elseItems, args⟩ := item
  have hopt {o : Option NodeItem} (ho : part ∈ o.toList) : sizeOf part < sizeOf o := by
    rw [Option.mem_toList.mp ho]
    simp
  simp only [mk.sizeOf_spec]
  simp only [values] at h
  split at h
  · rcases List.mem_append.mp h with h | h
    · have := hopt h
      omega
    · have := hopt h
      omega
  split at h
  · have := hopt h
    omega
  split at h
  · have := hopt h
    omega
  split at h
  · have := List.sizeOf_lt_of_mem h
    omega
  · cases h

theorem sizeOf_lt_of_mem_blocks {item part : NodeItem} (h : part ∈ item.blocks) :
    sizeOf part < sizeOf item := by
  obtain ⟨kind, line, column, name, op, value, left, right, cond, thenItems, elseItems, args⟩ := item
  simp only [mk.sizeOf_spec]
  simp only [blocks] at h
  split at h
  · rcases List.mem_append.mp h with h | h
    · have := List.sizeOf_lt_of_mem h
      omega
    · have := List.sizeOf_lt_of_mem h
      omega
  split at h
  · have := List.sizeOf_lt_of_mem h
    omega
  · cases h

/-- A check of an item: for itself, or for its place among statements. -/
inductive Check where
  | own (item : NodeItem)
  | place (item : NodeItem)

/-- The checks of an item and of what it uses; `listed` says whether it stands in a
list of statements. -/
def checks (listed : Bool) (item : NodeItem) : List Check :=
  .own item :: (item.values.attach.flatMap (fun part => checks false part.1) ++
    (item.blocks.attach.flatMap (fun part => checks true part.1) ++
      if listed then [.place item] else []))
termination_by sizeOf item
decreasing_by
  · exact sizeOf_lt_of_mem_values part.2
  · exact sizeOf_lt_of_mem_blocks part.2

theorem checks_eq (listed : Bool) (item : NodeItem) :
    item.checks listed = .own item :: (item.values.flatMap (checks false) ++
      (item.blocks.flatMap (checks true) ++ if listed then [.place item] else [])) := by
  rw [checks, List.flatMap_subtype fun _ _ => rfl, List.flatMap_subtype fun _ _ => rfl]
  simp

theorem checks_true (item : NodeItem) : item.checks true = item.checks false ++ [.place item] := by
  rw [checks_eq, checks_eq]
  simp

theorem own_mem_checks (listed : Bool) (item : NodeItem) : .own item ∈ item.checks listed := by
  rw [checks_eq]
  exact List.mem_cons_self ..

theorem place_mem_checks (item : NodeItem) : .place item ∈ item.checks true := by
  rw [checks_true]
  simp

/-! ## Faults of items -/

section
variable (c : Document) (m : MethodItem) (item : NodeItem)

def pos : Position := ⟨c.file, item.line, item.column⟩

def unbound : Diagnostic :=
  .placed "E0912" (item.pos c) ("cannot resolve identifier " ++ item.name.quote)

def valueFault? : Option Diagnostic :=
  match c.meaning? m item.name with
  | none => some (item.unbound c)
  | some sym =>
    if sym.kind = .proc then some (.breach (item.pos c) ("proc " ++ item.name ++ " used as a value"))
    else if item.kind = "const" ∧ sym.kind ≠ .const then
      some (.breach (item.pos c) (item.name ++ " is not a final constant"))
    else none

def callFault? : Option Diagnostic :=
  match c.meaning? m item.name with
  | none => some (item.unbound c)
  | some sym =>
    if sym.kind = .proc then none
    else some (.breach (item.pos c) (sym.kind.name ++ " " ++ item.name ++ " is not callable"))

def targetFault? : Option Diagnostic :=
  if ∃ target, item.left = some target ∧ target.kind = "var" then none
  else some (.breach (item.pos c) "assignment target must be a variable")

def fault? : Option Diagnostic :=
  if item.kind ∉ NodeKind.statementWords ++ NodeKind.valueWords then
    some (.breach (item.pos c) ("unknown node kind " ++ item.kind.quote))
  else if item.kind = "var" ∨ item.kind = "const" then item.valueFault? c m
  else if item.kind = "call" then item.callFault? c m
  else if item.kind = "assign" then item.targetFault? c
  else none

def boundWord : Text :=
  if item.kind = "var" ∧ (c.meaning? m item.name).any fun sym => sym.kind = .const then "const"
  else item.kind

/-- What is wrong with the place of an item among statements. An item of an unknown
kind is reported as such only. -/
def placeFault? : Option Diagnostic :=
  if item.kind ∈ NodeKind.valueWords then
    some ((Diagnostic.breach (item.pos c) (item.boundWord c m ++ " node in statement position")).withNote
      "statement lists hold assign, if, while, return and call nodes")
  else none

def Check.fault? : Check → Option Diagnostic
  | .own item => item.fault? c m
  | .place item => item.placeFault? c m

variable {item}

theorem fault?_of_unknown (hk : NodeKind.parse? item.kind = none) :
    item.fault? c m = some (.breach (item.pos c) ("unknown node kind " ++ item.kind.quote)) := by
  have hword : item.kind ∉ NodeKind.statementWords ++ NodeKind.valueWords := by
    rw [← NodeKind.isSome_parse?, hk]
    simp
  rw [fault?, if_pos hword]

theorem fault?_of_known {k : NodeKind} : NodeKind.parse? item.kind = some k →
    item.fault? c m =
      match k with
      | .var | .const => item.valueFault? c m
      | .call => item.callFault? c m
      | .assign => item.targetFault? c
      | _ => none := by
  intro hk
  obtain ⟨hkind, hmem, hne⟩ := NodeKind.parse?_eq_some.mp hk
  simp only [fault?, hkind]
  cases k with
  | invalid => exact absurd rfl hne
  | other n => simp [NodeKind.named] at hmem
  | _ => rfl

end

end NodeItem

namespace Document

def violations (c : Document) : List Diagnostic :=
  (c.repeated c.methods).map Declared.twice ++
    c.methods.flatMap fun m => (m.body.flatMap (NodeItem.checks true)).filterMap (NodeItem.Check.fault? c m)

end Document

/-! ## The faults that are collected -/

namespace Binder

section
variable (c : Document) (m : MethodItem)

theorem valueFaults_eq {item : NodeItem} {k : NodeKind} (hk : NodeKind.parse? item.kind = some k) :
    (c.binder c.declared.scope m).valueFaults k item.name (item.pos c) =
      (item.valueFault? c m).toList := by
  have hconst : item.kind = "const" ↔ k = .const := NodeKind.eq_word_iff hk rfl
  simp only [NodeItem.valueFault?, hconst, valueFaults, Document.bind?_binder]
  rcases c.meaning?_cases m item.name with ⟨-, sym, hsym, hs⟩ | ⟨-, -, sym, hsym, hs⟩ |
    ⟨-, -, -, sym, hsym, hs⟩ | ⟨-, -, -, -, sym, hsym, hs⟩ | ⟨-, -, -, -, hnone⟩
  · rcases hs with hs | hs <;> by_cases hc : k = .const <;> simp [hsym, hs, hc]
  · simp [hsym, hs]
  · by_cases hc : k = .const <;> simp [hsym, hs, hc]
  · simp only [hsym, hs]
    rfl
  · rw [hnone]
    rfl

theorem callFaults_eq (item : NodeItem) :
    (c.binder c.declared.scope m).callFaults item.name (item.pos c) = (item.callFault? c m).toList := by
  simp only [NodeItem.callFault?, callFaults, Document.bind?_binder]
  cases c.meaning? m item.name with
  | none => rfl
  | some sym =>
    by_cases hs : sym.kind = .proc
    · simp [hs]
    · simp [hs]

theorem targetFaults_eq (item : NodeItem) :
    targetFaults item.left (item.pos c) = (item.targetFault? c).toList := by
  have hvar : NodeKind.var.name = "var" := rfl
  simp only [NodeItem.targetFault?, targetFaults, Option.any_eq_true, decide_eq_true_eq, hvar]
  split <;> rfl

theorem name_boundKind {item : NodeItem} {k : NodeKind} (hk : NodeKind.parse? item.kind = some k) :
    ((c.binder c.declared.scope m).boundKind k item.name).name = item.boundWord c m := by
  have hkind : item.kind = k.name := (NodeKind.parse?_eq_some.mp hk).1
  have hvar : item.kind = "var" ↔ k = .var := NodeKind.eq_word_iff hk rfl
  simp only [boundKind, NodeItem.boundWord, hvar, Document.bind?_binder]
  cases k with
  | var =>
    cases c.meaning? m item.name with
    | none => exact hkind.symm
    | some sym =>
      by_cases hs : sym.kind = .const
      · simp [hs]
        rfl
      · simp [hs, hkind]
  | const =>
    cases c.meaning? m item.name with
    | none => exact hkind.symm
    | some sym => simp [hkind]
  | _ => simp [hkind]

theorem placeFaults_eq (item : NodeItem) :
    (c.binder c.declared.scope m).placeFaults item = (item.placeFault? c m).toList := by
  unfold placeFaults NodeItem.placeFault?
  cases hk : NodeKind.parse? item.kind with
  | none =>
    have hword := mt NodeKind.isSome_parse?.mpr (by rw [hk]; simp)
    rw [List.mem_append, not_or] at hword
    rw [if_neg hword.2]
    rfl
  | some k =>
    have hword := NodeKind.isSome_parse?.mp (by rw [hk]; rfl)
    simp only [name_boundKind c m hk]
    by_cases hs : k.isStatement = true
    · have hstatement := (NodeKind.isStatement_iff hk).mp hs
      rw [if_pos hs, if_neg (NodeKind.not_mem_valueWords hstatement)]
      rfl
    · have hvalue := (List.mem_append.mp hword).resolve_left (mt (NodeKind.isStatement_iff hk).mpr hs)
      rw [if_neg hs, if_pos hvalue]
      rfl

/-! An item is bound like this: its own faults, then those of the values that it uses, then those of
the statements below it. -/

variable (b : Binder)

theorem optionFaults_eq (o : Option NodeItem) (done : List Diagnostic) :
    b.optionFaults o done = b.itemFaults o.toList done := by
  cases o <;> rfl

theorem itemFaults_append (xs ys : List NodeItem) (done : List Diagnostic) :
    b.itemFaults (xs ++ ys) done = b.itemFaults ys (b.itemFaults xs done) := by
  induction xs generalizing done with
  | nil => rfl
  | cons x xs ih => exact ih _

theorem statementFaults_append (xs ys : List NodeItem) (done : List Diagnostic) :
    b.statementFaults (xs ++ ys) done = b.statementFaults ys (b.statementFaults xs done) := by
  induction xs generalizing done with
  | nil => rfl
  | cons x xs ih => exact ih _

theorem faults_eq_parts (item : NodeItem) (done : List Diagnostic) :
    (c.binder c.declared.scope m).faults item done =
      (c.binder c.declared.scope m).statementFaults item.blocks
        ((c.binder c.declared.scope m).itemFaults item.values
          ((item.fault? c m).toList.reverse ++ done)) := by
  cases hk : NodeKind.parse? item.kind with
  | none =>
    obtain ⟨hvalues, hblocks⟩ := NodeItem.parts_of_unknown hk
    rw [hvalues, hblocks, NodeItem.fault?_of_unknown c m hk]
    obtain ⟨kind, line, column, name, op, value, left, right, cond, thenItems, elseItems, args⟩ := item
    rw [faults]
    simp only at hk
    simp only [hk]
    rfl
  | some k =>
    have hvalue := valueFaults_eq c m hk
    have hcall := callFaults_eq c m item
    have htarget := targetFaults_eq c item
    -- what an item uses is read by its kind before the item is opened for `faults`
    rw [NodeItem.values_of_known hk, NodeItem.blocks_of_known hk,
      NodeItem.fault?_of_known c m hk]
    obtain ⟨kind, line, column, name, op, value, left, right, cond, thenItems, elseItems, args⟩ := item
    rw [faults]
    simp only at hk
    simp only [hk, optionFaults_eq]
    cases k with
    | var | const => exact congrArg (fun own => own.reverse ++ done) hvalue
    | call => exact congrArg (fun own => itemFaults _ args (own.reverse ++ done)) hcall
    | assign =>
      simp only [← itemFaults_append]
      exact congrArg (fun own => itemFaults _ (left.toList ++ right.toList) (own.reverse ++ done)) htarget
    | binary =>
      simp only [← itemFaults_append]
      rfl
    | ifElse =>
      simp only [← statementFaults_append]
      rfl
    | _ => rfl

theorem itemFaults_eq {items : List NodeItem} (h : ∀ item ∈ items, ∀ done,
      (c.binder c.declared.scope m).faults item done =
        ((item.checks false).filterMap (NodeItem.Check.fault? c m)).reverse ++ done)
    (done : List Diagnostic) :
    (c.binder c.declared.scope m).itemFaults items done =
      ((items.flatMap (NodeItem.checks false)).filterMap (NodeItem.Check.fault? c m)).reverse ++ done := by
  induction items generalizing done with
  | nil => rfl
  | cons item items ih =>
    rw [itemFaults, h item (List.mem_cons_self ..),
      ih fun part hpart => h part (List.mem_cons_of_mem _ hpart)]
    simp

theorem statementFaults_eq {items : List NodeItem} (h : ∀ item ∈ items, ∀ done,
      (c.binder c.declared.scope m).faults item done =
        ((item.checks false).filterMap (NodeItem.Check.fault? c m)).reverse ++ done)
    (done : List Diagnostic) :
    (c.binder c.declared.scope m).statementFaults items done =
      ((items.flatMap (NodeItem.checks true)).filterMap (NodeItem.Check.fault? c m)).reverse ++ done := by
  induction items generalizing done with
  | nil => rfl
  | cons item items ih =>
    have hplace : (item.placeFault? c m).toList =
        [NodeItem.Check.place item].filterMap (NodeItem.Check.fault? c m) := by
      rw [List.filterMap_cons, List.filterMap_nil]
      cases h : item.placeFault? c m <;> simp [NodeItem.Check.fault?, h]
    rw [statementFaults, h item (List.mem_cons_self ..), placeFaults_eq, hplace,
      ih fun part hpart => h part (List.mem_cons_of_mem _ hpart)]
    simp only [List.flatMap_cons, NodeItem.checks_true, List.filterMap_append, List.reverse_append,
      List.append_assoc]

theorem faults_eq (item : NodeItem) (done : List Diagnostic) :
    (c.binder c.declared.scope m).faults item done =
      ((item.checks false).filterMap (NodeItem.Check.fault? c m)).reverse ++ done := by
  rw [faults_eq_parts, statementFaults_eq c m fun part hpart => faults_eq part,
    itemFaults_eq c m fun part hpart => faults_eq part, NodeItem.checks_eq]
  cases h : item.fault? c m <;> simp [NodeItem.Check.fault?, h]
termination_by sizeOf item
decreasing_by
  · exact NodeItem.sizeOf_lt_of_mem_blocks hpart
  · exact NodeItem.sizeOf_lt_of_mem_values hpart

end

end Binder

theorem Document.faults_eq_violations (c : Document) : c.faults = c.violations := by
  have hfold : ∀ (ms : List MethodItem) (done : List Diagnostic),
      ms.foldl (fun done m => (c.binder c.declared.scope m).statementFaults m.body done) done =
        (ms.flatMap fun m => (m.body.flatMap (NodeItem.checks true)).filterMap
          (NodeItem.Check.fault? c m)).reverse ++ done := by
    intro ms
    induction ms with
    | nil => exact fun done => rfl
    | cons m ms ih =>
      intro done
      rw [List.foldl_cons, ih, Binder.statementFaults_eq c m fun item _ => Binder.faults_eq c m item]
      simp
  rw [faults, hfold, faults_declared, violations]
  simp

/-! ## Items of a body -/

namespace MethodItem

/-- The item occurs in the body of `m`; `listed` says whether in a list of
statements. -/
inductive Has (m : MethodItem) : (listed : Bool) → NodeItem → Prop where
  | body {item : NodeItem} (h : item ∈ m.body) : m.Has true item
  | value {listed : Bool} {item part : NodeItem} (h : m.Has listed item) (hp : part ∈ item.values) :
    m.Has false part
  | block {listed : Bool} {item part : NodeItem} (h : m.Has listed item) (hp : part ∈ item.blocks) :
    m.Has true part

variable {m : MethodItem}

theorem Has.checks_subset {listed : Bool} {item : NodeItem} (h : m.Has listed item) :
    item.checks listed ⊆ m.body.flatMap (NodeItem.checks true) := by
  induction h with
  | body h => exact fun check hc => List.mem_flatMap.mpr ⟨_, h, hc⟩
  | value h hp ih =>
    refine fun check hc => ih ?_
    rw [NodeItem.checks_eq]
    exact List.mem_cons_of_mem _ (List.mem_append_left _ (List.mem_flatMap.mpr ⟨_, hp, hc⟩))
  | block h hp ih =>
    refine fun check hc => ih ?_
    rw [NodeItem.checks_eq]
    exact List.mem_cons_of_mem _
      (List.mem_append_right _ (List.mem_append_left _ (List.mem_flatMap.mpr ⟨_, hp, hc⟩)))

section
variable {P : NodeItem.Check → Prop} (hown : ∀ listed item, m.Has listed item → P (.own item))
  (hplace : ∀ item, m.Has true item → P (.place item))
include hown hplace

theorem Has.forall_checks {listed : Bool} {item : NodeItem} (h : m.Has listed item) :
    ∀ check ∈ item.checks listed, P check := by
  intro check hc
  rw [NodeItem.checks_eq, List.mem_cons, List.mem_append, List.mem_append, List.mem_flatMap,
    List.mem_flatMap] at hc
  rcases hc with rfl | ⟨part, hp, hc⟩ | ⟨part, hp, hc⟩ | hc
  · exact hown listed item h
  · exact Has.forall_checks (.value h hp) check hc
  · exact Has.forall_checks (.block h hp) check hc
  · cases listed with
    | false => cases hc
    | true =>
      obtain rfl := List.mem_singleton.mp hc
      exact hplace item h
termination_by sizeOf item
decreasing_by
  · exact NodeItem.sizeOf_lt_of_mem_values hp
  · exact NodeItem.sizeOf_lt_of_mem_blocks hp

end

theorem forall_checks_iff {P : NodeItem.Check → Prop} :
    (∀ check ∈ m.body.flatMap (NodeItem.checks true), P check) ↔
      (∀ listed item, m.Has listed item → P (.own item)) ∧ ∀ item, m.Has true item → P (.place item) := by
  constructor
  · intro h
    exact ⟨fun listed item hi => h _ (hi.checks_subset (NodeItem.own_mem_checks listed item)),
      fun item hi => h _ (hi.checks_subset (NodeItem.place_mem_checks item))⟩
  · rintro ⟨hown, hplace⟩ check hc
    obtain ⟨item, hi, hc⟩ := List.mem_flatMap.mp hc
    exact (Has.body hi).forall_checks hown hplace check hc

end MethodItem

/-! ## Documents without a fault -/

namespace NodeItem

section
variable (c : Document) (m : MethodItem) (item : NodeItem)

theorem valueFault?_eq_none : item.valueFault? c m = none ↔
    (item.name ∈ m.ownNames ∨ item.name ∈ c.finals.map FinalItem.name ∨
      item.name ∈ c.globals.map VarItem.name) ∧
    (item.kind = "const" → item.name ∉ m.ownNames ∧ item.name ∈ c.finals.map FinalItem.name) := by
  unfold valueFault?
  rcases c.meaning?_cases m item.name with ⟨h₁, sym, hsym, hs⟩ | ⟨h₁, h₂, sym, hsym, hs⟩ |
    ⟨h₁, h₂, h₃, sym, hsym, hs⟩ | ⟨h₁, h₂, h₃, h₄, sym, hsym, hs⟩ | ⟨h₁, h₂, h₃, h₄, hnone⟩
  · rcases hs with hs | hs <;> simp [hsym, hs, h₁]
  · simp only [hsym, hs, h₁, h₂]
    simp
  · simp only [hsym, hs, h₁, h₂, h₃]
    simp
  · simp only [hsym, hs, h₁, h₂, h₃]
    simp
  · simp only [hnone, h₁, h₂, h₃]
    simp

theorem callFault?_eq_none : item.callFault? c m = none ↔
    item.name ∉ m.ownNames ∧ item.name ∉ c.finals.map FinalItem.name ∧
      item.name ∉ c.globals.map VarItem.name ∧ item.name ∈ c.methods.map MethodItem.name := by
  unfold callFault?
  rcases c.meaning?_cases m item.name with ⟨h₁, sym, hsym, hs⟩ | ⟨h₁, h₂, sym, hsym, hs⟩ |
    ⟨h₁, h₂, h₃, sym, hsym, hs⟩ | ⟨h₁, h₂, h₃, h₄, sym, hsym, hs⟩ | ⟨h₁, h₂, h₃, h₄, hnone⟩
  · rcases hs with hs | hs <;> simp [hsym, hs, h₁]
  · simp only [hsym, hs, h₁, h₂]
    simp
  · simp only [hsym, hs, h₁, h₂, h₃]
    simp
  · simp only [hsym, hs, h₁, h₂, h₃, h₄]
    simp
  · simp only [hnone, h₁, h₂, h₃, h₄]
    simp

theorem targetFault?_eq_none : item.targetFault? c = none ↔
    ∃ target, item.left = some target ∧ target.kind = "var" := by
  simp [targetFault?]

theorem fault?_eq_none : item.fault? c m = none ↔
    item.kind ∈ NodeKind.statementWords ++ NodeKind.valueWords ∧
    (item.kind = "var" ∨ item.kind = "const" → item.valueFault? c m = none) ∧
    (item.kind = "call" → item.callFault? c m = none) ∧
    (item.kind = "assign" → item.targetFault? c = none) := by
  cases hk : NodeKind.parse? item.kind with
  | none =>
    have hword := mt NodeKind.isSome_parse?.mpr (by rw [hk]; simp)
    simp only [fault?_of_unknown c m hk, hword, reduceCtorEq, false_and]
  | some k =>
    have hword := NodeKind.isSome_parse?.mp (by rw [hk]; rfl)
    have hvar : item.kind = "var" ↔ k = .var := NodeKind.eq_word_iff hk rfl
    have hconst : item.kind = "const" ↔ k = .const := NodeKind.eq_word_iff hk rfl
    have hcall : item.kind = "call" ↔ k = .call := NodeKind.eq_word_iff hk rfl
    have hassign : item.kind = "assign" ↔ k = .assign := NodeKind.eq_word_iff hk rfl
    simp only [fault?_of_known c m hk, hword, hvar, hconst, hcall, hassign]
    cases k <;> simp

theorem placeFault?_eq_none : item.placeFault? c m = none ↔ item.kind ∉ NodeKind.valueWords := by
  simp [placeFault?]

end

end NodeItem

namespace Document

/-- Every name of the document is declared once and means what it is used as. -/
structure WellBound (c : Document) : Prop where
  members : (c.finals.map FinalItem.name ++ c.globals.map VarItem.name ++
    c.methods.map MethodItem.name).Nodup
  locals : ∀ m ∈ c.methods, m.ownNames.Nodup
  statements : ∀ m ∈ c.methods, ∀ item, m.Has true item → item.kind ∈ NodeKind.statementWords
  kinds : ∀ m ∈ c.methods, ∀ listed item, m.Has listed item →
    item.kind ∈ NodeKind.statementWords ++ NodeKind.valueWords
  values : ∀ m ∈ c.methods, ∀ listed item, m.Has listed item → item.kind = "var" ∨ item.kind = "const" →
    item.name ∈ m.ownNames ∨ item.name ∈ c.finals.map FinalItem.name ∨
      item.name ∈ c.globals.map VarItem.name
  consts : ∀ m ∈ c.methods, ∀ listed item, m.Has listed item → item.kind = "const" →
    item.name ∉ m.ownNames ∧ item.name ∈ c.finals.map FinalItem.name
  calls : ∀ m ∈ c.methods, ∀ listed item, m.Has listed item → item.kind = "call" →
    item.name ∉ m.ownNames ∧ item.name ∈ c.methods.map MethodItem.name
  targets : ∀ m ∈ c.methods, ∀ listed item, m.Has listed item → item.kind = "assign" →
    ∃ target, item.left = some target ∧ target.kind = "var"

theorem violations_eq_nil (c : Document) : c.violations = [] ↔
    c.repeated c.methods = [] ∧ ∀ m ∈ c.methods,
      (∀ listed item, m.Has listed item → item.fault? c m = none) ∧
        ∀ item, m.Has true item → item.kind ∉ NodeKind.valueWords := by
  simp only [violations, List.append_eq_nil_iff, List.map_eq_nil_iff, List.flatMap_eq_nil_iff,
    List.filterMap_eq_nil_iff, MethodItem.forall_checks_iff, NodeItem.Check.fault?,
    NodeItem.placeFault?_eq_none]

theorem wellBound_iff (c : Document) : c.WellBound ↔ c.violations = [] := by
  rw [violations_eq_nil, repeated_eq_nil, map_members]
  simp only [MethodItem.map_ownSymbols, NodeItem.fault?_eq_none, NodeItem.valueFault?_eq_none,
    NodeItem.callFault?_eq_none, NodeItem.targetFault?_eq_none]
  constructor
  · intro h
    refine ⟨⟨h.members, h.locals⟩, fun m hm => ⟨fun listed item hi => ⟨?_, ?_, ?_, ?_⟩, fun item hi => ?_⟩⟩
    · exact h.kinds m hm listed item hi
    · exact fun hk => ⟨h.values m hm listed item hi hk, h.consts m hm listed item hi⟩
    · intro hk
      obtain ⟨hown, hmethod⟩ := h.calls m hm listed item hi hk
      -- a final or global of the same name would repeat the method
      have hdisjoint := List.disjoint_of_nodup_append h.members
      refine ⟨hown, fun hf => ?_, fun hg => ?_, hmethod⟩
      · exact hdisjoint (List.mem_append_left _ hf) hmethod
      · exact hdisjoint (List.mem_append_right _ hg) hmethod
    · exact h.targets m hm listed item hi
    · exact NodeKind.not_mem_valueWords (h.statements m hm item hi)
  · rintro ⟨⟨hmembers, hlocals⟩, h⟩
    exact {
      members := hmembers
      locals := hlocals
      statements := fun m hm item hi =>
        (List.mem_append.mp ((h m hm).1 true item hi).1).resolve_right ((h m hm).2 item hi)
      kinds := fun m hm listed item hi => ((h m hm).1 listed item hi).1
      values := fun m hm listed item hi hk => (((h m hm).1 listed item hi).2.1 hk).1
      consts := fun m hm listed item hi hk => (((h m hm).1 listed item hi).2.1 (.inr hk)).2 hk
      calls := fun m hm listed item hi hk =>
        have hcall := ((h m hm).1 listed item hi).2.2.1 hk
        ⟨hcall.1, hcall.2.2.2⟩
      targets := fun m hm listed item hi => ((h m hm).1 listed item hi).2.2.2 }

end Document

namespace Failure

theorem ofList?_diagnosed (ds : List Diagnostic) :
    ofList? (ds.map fun d => diagnosed d none) =
      if ds = [] then none else some (many (ds.map fun d => diagnosed d none)) := by
  cases ds <;> rfl

end Failure

namespace Document

theorem resolve_eq (c : Document) (h : c.className ≠ []) :
    c.resolve = if c.violations = [] then .ok c.classDecl
      else .error (.many (c.violations.map fun d => .diagnosed d none)) := by
  rw [resolve, if_neg h, faults_eq_violations, Failure.ofList?_diagnosed]
  by_cases hv : c.violations = []
  · simp [hv]
  · simp [hv]

/-- A document with a class name is bound if and only if it is well bound; otherwise
the violations are reported, one for each declaration and each check that is at
fault, in the order of the document. -/
theorem resolve_iff_wellBound (c : Document) (h : c.className ≠ []) :
    ((∃ k, c.resolve = .ok k) ↔ c.WellBound) ∧
    (¬ c.WellBound → c.violations ≠ [] ∧
      c.resolve = .error (.many (c.violations.map fun d => .diagnosed d none))) := by
  rw [wellBound_iff, resolve_eq c h]
  by_cases hv : c.violations = []
  · simp [hv]
  · simp [hv]

def sample (locals : List VarItem) : Document where
  className := "K"
  finals := [{ name := "limit" }]
  globals := [{ name := "n" }]
  methods := [
    { name := "run", type := "void", locals,
      body := [
        { kind := "while", cond := some { kind := "var", name := "limit" },
          thenItems := [{ kind := "call", name := "step", args := [{ kind := "var", name := "n" }] }] }] },
    { name := "step", type := "int", params := [{ name := "n" }],
      body := [
        { kind := "assign", left := some { kind := "var", name := "n" },
          right := some { kind := "const", name := "limit" } }] }]

theorem resolve_iff_wellBound_sample :
    (sample []).className ≠ [] ∧ (sample []).WellBound ∧
      (sample [{ name := "step" }]).className ≠ [] ∧ ¬ (sample [{ name := "step" }]).WellBound ∧
      (sample [{ name := "step" }]).violations ≠ [] := by
  have hname : ∀ locals, (sample locals).className ≠ [] := fun _ h => by cases h
  have hbound : ∃ k, (sample []).resolve = .ok k := ⟨_, rfl⟩
  have hhidden : ∃ f, (sample [{ name := "step" }]).resolve = .error f := ⟨_, rfl⟩
  have hfails : ¬ (sample [{ name := "step" }]).WellBound := by
    rw [← (resolve_iff_wellBound _ (hname _)).1]
    rintro ⟨k, hk⟩
    obtain ⟨f, hf⟩ := hhidden
    rw [hf] at hk
    cases hk
  exact ⟨hname _, (resolve_iff_wellBound _ (hname _)).1.mp hbound, hname _, hfails,
    ((resolve_iff_wellBound _ (hname _)).2 hfails).1⟩

end Document

end ClassForge
