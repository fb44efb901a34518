import ClassForge.Proofs.DocumentData
import ClassForge.Proofs.JsonData
import ClassForge.Document.Format

/-!
# Documents read back

A document that is written in JSON is read back as it was, if its texts are UTF-8
and its nodes do not nest too deep.
-/

namespace ClassForge

/-! ## Plain members -/

namespace Datum

def PlainMembers (ms : List (Text × Datum)) : Prop := ∀ m ∈ ms, isPlainKey m.1 = true ∧ m.2.Plain

theorem PlainMembers.record {ms : List (Text × Datum)} (h : PlainMembers ms) : Plain (.record ms) :=
  .record (fun m hm => (h m hm).1) fun m hm => (h m hm).2

theorem PlainMembers.append {ms ns : List (Text × Datum)} (hm : PlainMembers ms)
    (hn : PlainMembers ns) : PlainMembers (ms ++ ns) := by
  intro m h
  rcases List.mem_append.mp h with h | h
  · exact hm m h
  · exact hn m h

section
variable {name : Text} (hname : isPlainKey name = true)
include hname

theorem plainMembers_member {d : Datum} (hd : d.Plain) : PlainMembers (member name d) := by
  intro m hm
  obtain rfl := List.mem_singleton.mp hm
  exact ⟨hname, hd⟩

theorem plainMembers_textMember {t : Text} (ht : t.isUtf8 = true) :
    PlainMembers (textMember name t) := by
  unfold textMember
  split
  · intro m hm
    cases hm
  · exact plainMembers_member hname (.text ht)

theorem plainMembers_intMember (n : Int) : PlainMembers (intMember name n) := by
  unfold intMember
  split
  · intro m hm
    cases hm
  · exact plainMembers_member hname (.int n)

theorem plainMembers_listMember {items : List Datum} (h : ∀ d ∈ items, d.Plain) :
    PlainMembers (listMember name items) := by
  unfold listMember
  split
  · intro m hm
    cases hm
  · exact plainMembers_member hname (.list h)

end

end Datum

open Datum

/-! ## The texts of a document -/

namespace NodeItem

mutual

def texts : NodeItem → List Text
  | ⟨kind, _, _, name, op, _, left, right, cond, thenItems, elseItems, args⟩ =>
    [kind, name, op] ++ optionTexts left ++ optionTexts right ++ optionTexts cond ++
      listTexts thenItems ++ listTexts elseItems ++ listTexts args

def optionTexts : Option NodeItem → List Text
  | none => []
  | some n => texts n

def listTexts : List NodeItem → List Text
  | [] => []
  | n :: rest => texts n ++ listTexts rest

end

mutual

theorem plain_toDatum : ∀ n : NodeItem, (∀ t ∈ n.texts, t.isUtf8 = true) → n.toDatum.Plain
  | ⟨kind, line, column, name, op, value, left, right, cond, thenItems, elseItems, args⟩ => by
    intro h
    simp only [texts, List.forall_mem_append, List.forall_mem_cons] at h
    obtain ⟨⟨⟨⟨⟨⟨⟨hkind, hname, hop, _⟩, hleft⟩, hright⟩, hcond⟩, hthen⟩, helse⟩, hargs⟩ := h
    rw [toDatum]
    apply PlainMembers.record
    have hscalars : PlainMembers (member "kind" (.text kind) ++ intMember "line" line.toInt ++
        intMember "column" column.toInt ++ textMember "name" name ++ textMember "op" op ++
        intMember "value" value.toInt) :=
      (((((plainMembers_member rfl (.text hkind)).append (plainMembers_intMember rfl _)).append
        (plainMembers_intMember rfl _)).append (plainMembers_textMember rfl hname)).append
        (plainMembers_textMember rfl hop)).append (plainMembers_intMember rfl _)
    exact (((((hscalars.append (plainMembers_option rfl left hleft)).append
      (plainMembers_option rfl right hright)).append (plainMembers_option rfl cond hcond)).append
      (plainMembers_listMember rfl (plain_toData thenItems hthen))).append
      (plainMembers_listMember rfl (plain_toData elseItems helse))).append
      (plainMembers_listMember rfl (plain_toData args hargs))

theorem plainMembers_option {key : Text} (hkey : isPlainKey key = true) : ∀ o : Option NodeItem,
    (∀ t ∈ optionTexts o, t.isUtf8 = true) → PlainMembers (optionMember key o)
  | none => by
    intro _ m hm
    cases hm
  | some n => by
    intro h
    exact plainMembers_member hkey (plain_toDatum n h)

theorem plain_toData : ∀ ns : List NodeItem, (∀ t ∈ listTexts ns, t.isUtf8 = true) →
    ∀ d ∈ toData ns [], d.Plain
  | [] => by
    intro _ d hd
    cases hd
  | n :: rest => by
    intro h d hd
    rw [listTexts, List.forall_mem_append] at h
    rw [toData_eq, List.reverse_nil, List.nil_append, List.map_cons, List.mem_cons] at hd
    rcases hd with rfl | hd
    · exact plain_toDatum n h.1
    · refine plain_toData rest h.2 d ?_
      rwa [toData_eq, List.reverse_nil, List.nil_append]

end

end NodeItem

theorem FinalItem.plain_toDatum (f : FinalItem) (h : f.name.isUtf8 = true) : f.toDatum.Plain := by
  have hvalue : ((f.value.map fun v => Datum.int v.toInt).getD .null).Plain := by
    cases f.value with
    | none => exact .null
    | some v => exact .int v.toInt
  exact (((plainMembers_member rfl (.text h)).append (plainMembers_member rfl hvalue)).append
    (plainMembers_intMember rfl _)).record

theorem VarItem.plain_toDatum (v : VarItem) (h : v.name.isUtf8 = true) : v.toDatum.Plain :=
  ((plainMembers_member rfl (.text h)).append (plainMembers_intMember rfl _)).record

namespace MethodItem

def texts (m : MethodItem) : List Text :=
  [m.name, m.type] ++ m.params.map (·.name) ++ m.locals.map (·.name) ++ NodeItem.listTexts m.body

theorem plain_toDatum (m : MethodItem) (h : ∀ t ∈ m.texts, t.isUtf8 = true) : m.toDatum.Plain := by
  simp only [texts, List.forall_mem_append, List.forall_mem_cons, List.forall_mem_map] at h
  obtain ⟨⟨⟨⟨hname, htype, _⟩, hparams⟩, hlocals⟩, hbody⟩ := h
  have hvars {vs : List VarItem} (hvs : ∀ v ∈ vs, v.name.isUtf8 = true) :
      ∀ d ∈ vs.map VarItem.toDatum, d.Plain :=
    List.forall_mem_map.mpr fun v hv => v.plain_toDatum (hvs v hv)
  exact ((((((plainMembers_member rfl (.text hname)).append
    (plainMembers_member rfl (.text htype))).append
    (plainMembers_listMember rfl (hvars hparams))).append
    (plainMembers_listMember rfl (hvars hlocals))).append
    (plainMembers_listMember rfl (NodeItem.plain_toData m.body hbody))).append
    (plainMembers_intMember rfl _)).record

end MethodItem

namespace Document

def texts (doc : Document) : List Text :=
  [doc.file, doc.className] ++ doc.finals.map (·.name) ++ doc.globals.map (·.name) ++
    doc.methods.flatMap MethodItem.texts

theorem plain_toDatum (doc : Document) (h : ∀ t ∈ doc.texts, t.isUtf8 = true) :
    doc.toDatum.Plain := by
  simp only [texts, List.forall_mem_append, List.forall_mem_cons, List.forall_mem_map] at h
  obtain ⟨⟨⟨⟨hfile, hclass, _⟩, hfinals⟩, hglobals⟩, hmethods⟩ := h
  have hfinalData : ∀ d ∈ doc.finals.map FinalItem.toDatum, d.Plain :=
    List.forall_mem_map.mpr fun f hf => f.plain_toDatum (hfinals f hf)
  have hglobalData : ∀ d ∈ doc.globals.map VarItem.toDatum, d.Plain :=
    List.forall_mem_map.mpr fun v hv => v.plain_toDatum (hglobals v hv)
  have hmethodData : ∀ d ∈ doc.methods.map MethodItem.toDatum, d.Plain :=
    List.forall_mem_map.mpr fun m hm => m.plain_toDatum fun t ht =>
      hmethods t (List.mem_flatMap.mpr ⟨m, hm, ht⟩)
  exact ((((((plainMembers_textMember rfl hfile).append
    (plainMembers_member rfl (.text hclass))).append (plainMembers_intMember rfl _)).append
    (plainMembers_listMember rfl hfinalData)).append
    (plainMembers_listMember rfl hglobalData)).append
    (plainMembers_listMember rfl hmethodData)).record

/-- A document in JSON is read back as it was written. -/
theorem decode_encode_json (cbor : Codec) (doc : Document) (htexts : ∀ t ∈ doc.texts, t.isUtf8 = true)
    (hdepth : doc.toDatum.toJson.nesting ≤ 10000) :
    decode cbor .json (encode cbor .json doc) = .ok doc := by
  have hdecode : (Format.json.codec cbor).decode? (encode cbor .json doc) = some doc.toDatum :=
    json_decode?_encode (doc.plain_toDatum htexts) hdepth
  rw [decode, hdecode, Option.bind_some, ofDatum?_toDatum]

def varied : Document where
  file := Text.ofChars ['a', '"', '\\', '\x01', '<', '&', '\u2028']
  className := Text.ofChars ['𝄞']
  line := Int64.minValue
  finals := [⟨"N", some Int32.maxValue, 7⟩, ⟨"M", none, Int64.maxValue⟩]
  globals := [{ name := "g" }]
  methods := [{ name := "m", type := "int", body := [{ left := some {} }, { value := -1 }] }]

theorem decode_encode_json_varied :
    (∀ t ∈ varied.texts, t.isUtf8 = true) ∧ varied.toDatum.toJson.nesting ≤ 10000 ∧
      ∀ cbor, decode cbor .json (encode cbor .json varied) = .ok varied := by
  have hchars : varied.texts = [['a', '"', '\\', '\x01', '<', '&', '\u2028'], ['𝄞'], ['N'], ['M'],
      ['g'], ['m'], ['i', 'n', 't'], [], [], [], [], [], [], [], [], []].map Text.ofChars := rfl
  have htexts : ∀ t ∈ varied.texts, t.isUtf8 = true := by
    rw [hchars]
    exact List.forall_mem_map.mpr fun cs _ => Text.isUtf8_ofChars cs
  have hdepth : varied.toDatum.toJson.nesting ≤ 10000 := by decide
  exact ⟨htexts, hdepth, fun cbor => decode_encode_json cbor varied htexts hdepth⟩

end Document

end ClassForge
