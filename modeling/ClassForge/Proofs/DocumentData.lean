import ClassForge.Document.Datum
import ClassForge.Document.Draft

/-!
# Documents read from their data

The data of a document is read as the document. Writing leaves out what is zero
or empty, and reading starts from a draft in which all is zero and empty, so each
member is read into the very value that its absence stands for.
-/

namespace ClassForge

/-! ## Members that may be left out -/

namespace Datum

variable {α β γ : Type}

section
variable {step : α → Text → Datum → Option α} {a b c : α} {name : Text}

theorem readMembers_append {ms ns : List (Text × Datum)} (hm : readMembers step a ms = some b)
    (hn : readMembers step b ns = some c) : readMembers step a (ms ++ ns) = some c := by
  induction ms generalizing a with
  | nil =>
    cases hm
    exact hn
  | cons m ms ih =>
    obtain ⟨key, d⟩ := m
    rw [readMembers] at hm
    rw [List.cons_append, readMembers]
    cases h : step a key d with
    | none => rw [h] at hm; cases hm
    | some a' =>
      rw [h] at hm
      exact ih hm

theorem readMembers_member {d : Datum} (h : step a name d = some b) :
    readMembers step a (member name d) = some b := by
  rw [member, readMembers, h]
  rfl

theorem readMembers_textMember {t : Text} (h : step a name (.text t) = some b)
    (hzero : t = [] → a = b) : readMembers step a (textMember name t) = some b := by
  unfold textMember
  split
  · rename_i ht
    rw [hzero ht]
    rfl
  · exact readMembers_member h

theorem readMembers_intMember {n : Int} (h : step a name (.int n) = some b) (hzero : n = 0 → a = b) :
    readMembers step a (intMember name n) = some b := by
  unfold intMember
  split
  · rename_i hn
    rw [hzero hn]
    rfl
  · exact readMembers_member h

theorem readMembers_listMember {items : List Datum} (h : step a name (.list items) = some b)
    (hzero : items = [] → a = b) : readMembers step a (listMember name items) = some b := by
  unfold listMember
  split
  · rename_i hitems
    rw [hzero (List.isEmpty_iff.mp hitems)]
    rfl
  · exact readMembers_member h

end

theorem int64_eq_zero {n : Int64} (h : n.toInt = 0) : n = 0 :=
  Int64.toInt_inj.mp (h.trans Int64.toInt_zero.symm)

theorem int32_eq_zero {n : Int32} (h : n.toInt = 0) : n = 0 :=
  Int32.toInt_inj.mp (h.trans Int32.toInt_zero.symm)

theorem readInt64_toInt (current n : Int64) : readInt64 current (.int n.toInt) = some n := by
  have hle := n.le_toInt
  have hlt := n.toInt_lt
  rw [readInt64, if_pos (by omega), Int64.ofInt_toInt]

theorem readInt32_toInt (current n : Int32) : readInt32 current (.int n.toInt) = some n := by
  have hle := n.le_toInt
  have hlt := n.toInt_lt
  rw [readInt32, if_pos (by omega), Int32.ofInt_toInt]

/-- Items are read one by one, each into a fresh one. -/
theorem readList_map {fresh : α} {read : α → Datum → Option α} {write : β → Datum} {g : β → α}
    (h : ∀ x, read fresh (write x) = some (g x)) (xs : List β) :
    readList fresh read {} (.list (xs.map write)) = some ⟨xs.map g, []⟩ := by
  have hitems : ∀ done,
      readItems fresh read [] (xs.map write) done = some ⟨done.reverse ++ xs.map g, []⟩ := by
    induction xs with
    | nil =>
      intro done
      rw [List.map_nil, List.map_nil, List.append_nil]
      rfl
    | cons x xs ih =>
      intro done
      rw [List.map_cons, readItems, List.headD_nil, h x]
      refine (ih (g x :: done)).trans ?_
      rw [List.reverse_cons, List.append_assoc]
      rfl
  cases xs with
  | nil => rfl
  | cons x xs => exact hitems []

section
variable (step : α → Text → Datum → Option α) (name : Text)

theorem readMembers_line (set : Int64 → α) (h : ∀ d, step (set 0) name d = (readInt64 0 d).map set)
    (v : Int64) : readMembers step (set 0) (intMember name v.toInt) = some (set v) := by
  refine readMembers_intMember ?_ fun hv => by rw [int64_eq_zero hv]
  rw [h, readInt64_toInt]
  rfl

theorem readMembers_items (set : Slots γ → α) {fresh : γ} {read : γ → Datum → Option γ}
    (h : ∀ d, step (set {}) name d = (readList fresh read {} d).map set) {write : β → Datum}
    {g : β → γ} (hread : ∀ x, read fresh (write x) = some (g x)) (xs : List β) :
    readMembers step (set {}) (listMember name (xs.map write)) = some (set ⟨xs.map g, []⟩) := by
  refine readMembers_listMember ?_ fun hxs => by rw [List.map_eq_nil_iff.mp hxs]; rfl
  rw [h, readList_map hread]
  rfl

end

end Datum

open Datum

/-! ## Declarations -/

theorem FinalItem.read_toDatum (f : FinalItem) : FinalItem.read {} f.toDatum = some f := by
  obtain ⟨name, value, line⟩ := f
  have hname : readMembers readMember {} (member "name" (.text name)) = some ⟨name, none, 0⟩ := rfl
  have hvalue : readMembers readMember ⟨name, none, 0⟩
      (member "value" ((value.map fun v => Datum.int v.toInt).getD .null)) = some ⟨name, value, 0⟩ := by
    apply readMembers_member
    cases value with
    | none => rfl
    | some v =>
      show ((readInt32 0 (.int v.toInt)).map some).map _ = _
      rw [readInt32_toInt]
      rfl
  have hline := readMembers_line readMember "line" (FinalItem.mk name value) (fun _ => rfl) line
  exact readMembers_append (readMembers_append hname hvalue) hline

theorem VarItem.read_toDatum (v : VarItem) : VarItem.read {} v.toDatum = some v := by
  obtain ⟨name, line⟩ := v
  have hname : readMembers readMember {} (member "name" (.text name)) = some ⟨name, 0⟩ := rfl
  have hline := readMembers_line readMember "line" (VarItem.mk name) (fun _ => rfl) line
  exact readMembers_append hname hline

/-! ## Nodes -/

namespace NodeItem

mutual

def draft : NodeItem → NodeDraft
  | ⟨kind, line, column, name, op, value, left, right, cond, thenItems, elseItems, args⟩ =>
    { kind, line, column, name, op, value
      left := draft? left
      right := draft? right
      cond := draft? cond
      thenItems := ⟨drafts thenItems, []⟩
      elseItems := ⟨drafts elseItems, []⟩
      args := ⟨drafts args, []⟩ }

def draft? : Option NodeItem → Option NodeDraft
  | none => none
  | some n => some (draft n)

def drafts : List NodeItem → List NodeDraft
  | [] => []
  | n :: rest => draft n :: drafts rest

end

mutual

theorem finish_draft : ∀ n : NodeItem, n.draft.finish = n
  | ⟨kind, line, column, name, op, value, left, right, cond, thenItems, elseItems, args⟩ => by
    rw [draft, NodeDraft.finish, finish_draft? left, finish_draft? right, finish_draft? cond,
      finish_drafts thenItems, finish_drafts elseItems, finish_drafts args]
    rfl

theorem finish_draft? : ∀ o : Option NodeItem, NodeDraft.finish? (draft? o) = o
  | none => rfl
  | some n => by rw [draft?, NodeDraft.finish?, finish_draft n]

theorem finish_drafts : ∀ (ns : List NodeItem) (done : List NodeItem),
    NodeDraft.finishAll (drafts ns) done = done.reverse ++ ns
  | [], done => by rw [drafts, NodeDraft.finishAll, List.append_nil]
  | n :: rest, done => by
    rw [drafts, NodeDraft.finishAll, finish_draft n, finish_drafts rest, List.reverse_cons,
      List.append_assoc, List.singleton_append]

end

def slots (ns : List NodeItem) : Slots NodeDraft := ⟨drafts ns, []⟩

theorem toData_eq (ns : List NodeItem) (done : List Datum) :
    toData ns done = done.reverse ++ ns.map toDatum := by
  induction ns generalizing done with
  | nil => simp [toData]
  | cons n ns ih => simp [toData, ih]

end NodeItem

namespace NodeDraft

open NodeItem (draft? slots optionMember toData)

def readMember (n : NodeDraft) (key : Text) (d : Datum) : Option NodeDraft := readMembers n [(key, d)]

theorem readMembers_eq (n : NodeDraft) (ms : List (Text × Datum)) :
    readMembers n ms = Datum.readMembers readMember n ms := by
  induction ms generalizing n with
  | nil => rfl
  | cons m ms ih =>
    obtain ⟨key, d⟩ := m
    rw [Datum.readMembers, readMember]
    simp only [readMembers]
    split
    · exact ih n
    · split
      · exact ih _
      · rfl

theorem readMembers_scalars (kind : Text) (line column : Int64) (name op : Text) (value : Int32) :
    Datum.readMembers readMember {} (member "kind" (.text kind) ++ intMember "line" line.toInt ++
      intMember "column" column.toInt ++ textMember "name" name ++ textMember "op" op ++
      intMember "value" value.toInt) = some { kind, line, column, name, op, value } := by
  have hkind : Datum.readMembers readMember {} (member "kind" (.text kind)) = some { kind } := rfl
  have hline : Datum.readMembers readMember { kind } (intMember "line" line.toInt) =
      some { kind, line } := by
    refine readMembers_intMember ?_ fun h => by rw [int64_eq_zero h]
    simp only [readMember, readMembers, readInt64_toInt]
    rfl
  have hcolumn : Datum.readMembers readMember { kind, line } (intMember "column" column.toInt) =
      some { kind, line, column } := by
    refine readMembers_intMember ?_ fun h => by rw [int64_eq_zero h]
    simp only [readMember, readMembers, readInt64_toInt]
    rfl
  have hname : Datum.readMembers readMember { kind, line, column } (textMember "name" name) =
      some { kind, line, column, name } :=
    readMembers_textMember rfl fun h => by rw [h]
  have hop : Datum.readMembers readMember { kind, line, column, name } (textMember "op" op) =
      some { kind, line, column, name, op } :=
    readMembers_textMember rfl fun h => by rw [h]
  have hvalue : Datum.readMembers readMember { kind, line, column, name, op }
      (intMember "value" value.toInt) = some { kind, line, column, name, op, value } := by
    refine readMembers_intMember ?_ fun h => by rw [int32_eq_zero h]
    simp only [readMember, readMembers, readInt32_toInt]
    rfl
  exact readMembers_append (readMembers_append (readMembers_append (readMembers_append
    (readMembers_append hkind hline) hcolumn) hname) hop) hvalue

def Reads? (o : Option NodeItem) : Prop := ∀ x ∈ o, read? none x.toDatum = some (draft? o)

theorem readMembers_optionMember {n n' : NodeDraft} {key : Text} {o : Option NodeItem}
    (h : ∀ x ∈ o, readMember n key x.toDatum = some n') (hnone : o = none → n = n') :
    Datum.readMembers readMember n (optionMember key o) = some n' := by
  cases o with
  | none =>
    rw [hnone rfl]
    rfl
  | some x => exact readMembers_member (h x rfl)

theorem readMembers_nodes (n : NodeDraft) {l r c : Option NodeItem} (hl : Reads? l) (hr : Reads? r)
    (hc : Reads? c) :
    Datum.readMembers readMember { n with left := none, right := none, cond := none }
      (optionMember "left" l ++ optionMember "right" r ++ optionMember "cond" c) =
        some { n with left := draft? l, right := draft? r, cond := draft? c } := by
  have hleft : Datum.readMembers readMember { n with left := none, right := none, cond := none }
      (optionMember "left" l) = some { n with left := draft? l, right := none, cond := none } := by
    refine readMembers_optionMember (fun x hx => ?_) fun h => by rw [h]; rfl
    simp only [readMember, readMembers, hl x hx]
    rfl
  have hright : Datum.readMembers readMember { n with left := draft? l, right := none, cond := none }
      (optionMember "right" r) =
        some { n with left := draft? l, right := draft? r, cond := none } := by
    refine readMembers_optionMember (fun x hx => ?_) fun h => by rw [h]; rfl
    simp only [readMember, readMembers, hr x hx]
    rfl
  have hcond : Datum.readMembers readMember
      { n with left := draft? l, right := draft? r, cond := none } (optionMember "cond" c) =
        some { n with left := draft? l, right := draft? r, cond := draft? c } := by
    refine readMembers_optionMember (fun x hx => ?_) fun h => by rw [h]; rfl
    simp only [readMember, readMembers, hc x hx]
    rfl
  exact readMembers_append (readMembers_append hleft hright) hcond

def ReadsAll (ns : List NodeItem) : Prop := readList {} (.list (toData ns [])) = some (slots ns)

theorem slots_of_toData {ns : List NodeItem} (h : toData ns [] = []) : slots ns = {} := by
  rw [NodeItem.toData_eq, List.reverse_nil, List.nil_append, List.map_eq_nil_iff] at h
  rw [h]
  rfl

theorem readMembers_lists (n : NodeDraft) {t e a : List NodeItem} (ht : ReadsAll t) (he : ReadsAll e)
    (ha : ReadsAll a) :
    Datum.readMembers readMember { n with thenItems := {}, elseItems := {}, args := {} }
      (listMember "then" (toData t []) ++ listMember "else" (toData e []) ++
        listMember "args" (toData a [])) =
      some { n with thenItems := slots t, elseItems := slots e, args := slots a } := by
  have hthen : Datum.readMembers readMember { n with thenItems := {}, elseItems := {}, args := {} }
      (listMember "then" (toData t [])) =
        some { n with thenItems := slots t, elseItems := {}, args := {} } := by
    refine readMembers_listMember ?_ fun h => by rw [slots_of_toData h]
    rw [readMember, readMembers, ht]
    rfl
  have helse : Datum.readMembers readMember
      { n with thenItems := slots t, elseItems := {}, args := {} }
      (listMember "else" (toData e [])) =
        some { n with thenItems := slots t, elseItems := slots e, args := {} } := by
    refine readMembers_listMember ?_ fun h => by rw [slots_of_toData h]
    rw [readMember, readMembers, he]
    rfl
  have hargs : Datum.readMembers readMember
      { n with thenItems := slots t, elseItems := slots e, args := {} }
      (listMember "args" (toData a [])) =
        some { n with thenItems := slots t, elseItems := slots e, args := slots a } := by
    refine readMembers_listMember ?_ fun h => by rw [slots_of_toData h]
    rw [readMember, readMembers, ha]
    rfl
  exact readMembers_append (readMembers_append hthen helse) hargs

end NodeDraft

namespace NodeItem

open NodeDraft

mutual

theorem read_toDatum : ∀ n : NodeItem, NodeDraft.read {} n.toDatum = some n.draft
  | ⟨kind, line, column, name, op, value, left, right, cond, thenItems, elseItems, args⟩ => by
    have hscalars := readMembers_scalars kind line column name op value
    have hnodes := readMembers_nodes { kind, line, column, name, op, value } (reads?_option left)
      (reads?_option right) (reads?_option cond)
    have hlists := readMembers_lists
      ⟨kind, line, column, name, op, value, draft? left, draft? right, draft? cond, {}, {}, {}⟩
      (readsAll_list thenItems) (readsAll_list elseItems) (readsAll_list args)
    -- the members are written in one row, here they are read in three
    have hall := readMembers_append (readMembers_append hscalars hnodes) hlists
    simp only [← List.append_assoc] at hall
    rw [toDatum, NodeDraft.read, readMembers_eq, draft]
    exact hall

theorem reads?_option : ∀ o : Option NodeItem, Reads? o
  | none => by
    intro x hx
    cases hx
  | some n => by
    intro x hx
    cases hx
    have hread := read_toDatum n
    cases n
    rw [toDatum, NodeDraft.read] at hread
    rw [toDatum, NodeDraft.read?, Option.getD_none, hread]
    rfl

theorem readsAll_list : ∀ ns : List NodeItem, ReadsAll ns
  | [] => rfl
  | n :: rest => by
    rw [ReadsAll, toData_eq]
    exact readItems_toDatum (n :: rest) []

theorem readItems_toDatum : ∀ (ns : List NodeItem) (done : List NodeDraft),
    NodeDraft.readItems [] (ns.map toDatum) done = some ⟨done.reverse ++ drafts ns, []⟩
  | [], done => by rw [List.map_nil, NodeDraft.readItems, drafts, List.append_nil]
  | n :: rest, done => by
    rw [List.map_cons, NodeDraft.readItems, List.headD_nil, read_toDatum n]
    refine (readItems_toDatum rest (draft n :: done)).trans ?_
    rw [drafts, List.reverse_cons, List.append_assoc]
    rfl

end

end NodeItem

/-! ## Methods and documents -/

namespace MethodItem

def draft (m : MethodItem) : MethodDraft :=
  ⟨m.name, m.type, ⟨m.params, []⟩, ⟨m.locals, []⟩, NodeItem.slots m.body, m.line⟩

theorem finish_draft (m : MethodItem) : m.draft.finish = m := by
  show MethodItem.mk _ _ _ _ (NodeDraft.finishAll (NodeItem.drafts m.body) []) _ = m
  rw [NodeItem.finish_drafts]
  rfl

theorem read_toDatum (m : MethodItem) : MethodDraft.read {} m.toDatum = some m.draft := by
  obtain ⟨name, type, params, locals, body, line⟩ := m
  have hhead : readMembers MethodDraft.readMember {}
      (member "name" (.text name) ++ member "type" (.text type)) = some { name, type } := rfl
  have hparams := readMembers_items MethodDraft.readMember "params"
    (fun params => { name, type, params }) (fun _ => rfl) VarItem.read_toDatum params
  have hlocals := readMembers_items MethodDraft.readMember "locals"
    (fun locals => { name, type, params := ⟨params, []⟩, locals }) (fun _ => rfl)
    VarItem.read_toDatum locals
  rw [List.map_id'] at hparams hlocals
  have hbody : readMembers MethodDraft.readMember
      { name, type, params := ⟨params, []⟩, locals := ⟨locals, []⟩ }
      (listMember "body" (NodeItem.toData body [])) =
        some ⟨name, type, ⟨params, []⟩, ⟨locals, []⟩, NodeItem.slots body, 0⟩ := by
    refine readMembers_listMember ?_ fun h => by rw [NodeDraft.slots_of_toData h]
    show (NodeDraft.readList {} _).map _ = _
    rw [NodeItem.readsAll_list body]
    rfl
  have hline := readMembers_line MethodDraft.readMember "line"
    (.mk name type ⟨params, []⟩ ⟨locals, []⟩ (NodeItem.slots body)) (fun _ => rfl) line
  exact readMembers_append (readMembers_append (readMembers_append (readMembers_append
    hhead hparams) hlocals) hbody) hline

end MethodItem

namespace Document

theorem readRecord_toDatum (doc : Document) :
    doc.toDatum.readRecord Draft.readMember {} = some ⟨doc.file, doc.className, doc.line,
      ⟨doc.finals, []⟩, ⟨doc.globals, []⟩, ⟨doc.methods.map MethodItem.draft, []⟩⟩ := by
  obtain ⟨file, className, line, finals, globals, methods⟩ := doc
  have hfile : readMembers Draft.readMember {} (textMember "file" file) = some { file } :=
    readMembers_textMember rfl fun h => by rw [h]
  have hclass : readMembers Draft.readMember { file } (member "class" (.text className)) =
      some { file, className } := rfl
  have hline := readMembers_line Draft.readMember "line" (fun line => { file, className, line })
    (fun _ => rfl) line
  have hfinals := readMembers_items Draft.readMember "finals"
    (fun finals => { file, className, line, finals }) (fun _ => rfl) FinalItem.read_toDatum finals
  have hglobals := readMembers_items Draft.readMember "vars"
    (fun globals => { file, className, line, finals := ⟨finals, []⟩, globals }) (fun _ => rfl)
    VarItem.read_toDatum globals
  have hmethods := readMembers_items Draft.readMember "methods"
    (.mk file className line ⟨finals, []⟩ ⟨globals, []⟩) (fun _ => rfl) MethodItem.read_toDatum methods
  rw [List.map_id'] at hfinals hglobals
  exact readMembers_append (readMembers_append (readMembers_append (readMembers_append
    (readMembers_append hfile hclass) hline) hfinals) hglobals) hmethods

theorem ofDatum?_toDatum (doc : Document) : ofDatum? doc.toDatum = some doc := by
  have hmethods : (doc.methods.map MethodItem.draft).map MethodDraft.finish = doc.methods := by
    rw [List.map_map]
    exact (List.map_congr_left fun m _ => m.finish_draft).trans (List.map_id _)
  rw [ofDatum?, readRecord_toDatum, Option.map_some, Draft.finish, hmethods]

end Document

end ClassForge
