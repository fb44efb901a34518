import ClassForge.Proofs.CborData
import ClassForge.Proofs.DocumentRoundTrip
import ClassForge.Proofs.MemberOrder

/-!
# Documents read back from CBOR

A document that is written in canonical CBOR is read back as it was, if it goes no deeper
than 32 levels and has no list of more than 131072 items. Beyond that it can be written,
but not read. This holds of every codec that keeps the rules.
-/

namespace ClassForge

/-! ## Tidy members -/

namespace Datum

/-- A text that a document may hold. Its length is a number of 64 bits. -/
def Storable (t : Text) : Prop := t.isUtf8 = true ∧ t.length < 2 ^ 64

structure TidyMembers (keys : List Text) (ms : List (Text × Datum)) : Prop where
  names : (ms.map Prod.fst).Sublist keys
  data : ∀ m ∈ ms, m.2.Tidy

theorem TidyMembers.record {keys : List Text} {ms : List (Text × Datum)} (h : TidyMembers keys ms)
    (hd : keys.Nodup) (hkeys : ∀ k ∈ keys, isPlainKey k = true ∧ k.length < 2 ^ 64) :
    Tidy (.record ms) := by
  refine .record (fun m hm => hkeys _ ?_) (hd.sublist h.names) h.data
  exact h.names.subset (List.mem_map_of_mem hm)

theorem TidyMembers.append {ks ls : List Text} {ms ns : List (Text × Datum)} (hm : TidyMembers ks ms)
    (hn : TidyMembers ls ns) : TidyMembers (ks ++ ls) (ms ++ ns) where
  names := by
    rw [List.map_append]
    exact hm.names.append hn.names
  data := List.forall_mem_append.mpr ⟨hm.data, hn.data⟩

theorem tidyMembers_nil (name : Text) : TidyMembers [name] [] :=
  ⟨List.nil_sublist _, List.forall_mem_nil _⟩

section
variable (name : Text)

theorem tidyMembers_member {d : Datum} (hd : d.Tidy) : TidyMembers [name] (member name d) :=
  ⟨.refl _, List.forall_mem_singleton.mpr hd⟩

theorem tidyMembers_textMember {t : Text} (ht : Storable t) : TidyMembers [name] (textMember name t) := by
  unfold textMember
  split
  · exact tidyMembers_nil name
  · exact tidyMembers_member name (.text ht.1 ht.2)

theorem tidyMembers_intMember {n : Int} (hle : -2 ^ 63 ≤ n) (hlt : n < 2 ^ 63) :
    TidyMembers [name] (intMember name n) := by
  unfold intMember
  split
  · exact tidyMembers_nil name
  · exact tidyMembers_member name (.int hle hlt)

theorem tidyMembers_line (line : Int64) : TidyMembers [name] (intMember name line.toInt) :=
  tidyMembers_intMember name line.le_toInt line.toInt_lt

theorem tidyMembers_listMember {items : List Datum} (h : ∀ d ∈ items, d.Tidy) :
    TidyMembers [name] (listMember name items) := by
  unfold listMember
  split
  · exact tidyMembers_nil name
  · exact tidyMembers_member name (.list h)

end

theorem tidy_int32 (n : Int32) : Tidy (.int n.toInt) := by
  have hle := n.le_toInt
  have hlt := n.toInt_lt
  exact .int (by omega) (by omega)

end Datum

open Datum

/-! ## The data of a document -/

namespace NodeItem

mutual

theorem tidy_toDatum : ∀ n : NodeItem, (∀ t ∈ n.texts, Storable t) → n.toDatum.Tidy
  | ⟨kind, line, column, name, op, value, left, right, cond, thenItems, elseItems, args⟩ => by
    intro h
    simp only [texts, List.forall_mem_append, List.forall_mem_cons] at h
    obtain ⟨⟨⟨⟨⟨⟨⟨hkind, hname, hop, _⟩, hleft⟩, hright⟩, hcond⟩, hthen⟩, helse⟩, hargs⟩ := h
    have hvalue : TidyMembers ["value"] (intMember "value" value.toInt) := by
      cases tidy_int32 value with
      | int hle hlt => exact tidyMembers_intMember _ hle hlt
    have hscalars := (((((tidyMembers_member "kind" (.text hkind.1 hkind.2)).append
      (tidyMembers_line "line" line)).append (tidyMembers_line "column" column)).append
      (tidyMembers_textMember "name" hname)).append (tidyMembers_textMember "op" hop)).append hvalue
    have hnodes := ((hscalars.append (tidyMembers_option "left" left hleft)).append
      (tidyMembers_option "right" right hright)).append (tidyMembers_option "cond" cond hcond)
    have hlists := ((hnodes.append (tidyMembers_listMember "then" (tidy_toData thenItems hthen))).append
      (tidyMembers_listMember "else" (tidy_toData elseItems helse))).append
      (tidyMembers_listMember "args" (tidy_toData args hargs))
    rw [toDatum]
    exact hlists.record (by decide) (by decide)

theorem tidyMembers_option (key : Text) : ∀ o : Option NodeItem, (∀ t ∈ optionTexts o, Storable t) →
    TidyMembers [key] (optionMember key o)
  | none => fun _ => tidyMembers_nil key
  | some n => fun h => tidyMembers_member key (tidy_toDatum n h)

theorem tidy_toData : ∀ ns : List NodeItem, (∀ t ∈ listTexts ns, Storable t) →
    ∀ d ∈ toData ns [], d.Tidy
  | [] => by
    intro _ d hd
    cases hd
  | n :: rest => by
    intro h d hd
    rw [listTexts, List.forall_mem_append] at h
    rw [toData_eq, List.reverse_nil, List.nil_append, List.map_cons, List.mem_cons] at hd
    rcases hd with rfl | hd
    · exact tidy_toDatum n h.1
    · refine tidy_toData rest h.2 d ?_
      rwa [toData_eq, List.reverse_nil, List.nil_append]

end

end NodeItem

theorem FinalItem.tidy_toDatum (f : FinalItem) (h : Storable f.name) : f.toDatum.Tidy := by
  have hvalue : ((f.value.map fun v => Datum.int v.toInt).getD .null).Tidy := by
    cases f.value with
    | none => exact .null
    | some v => exact tidy_int32 v
  exact (((tidyMembers_member "name" (.text h.1 h.2)).append (tidyMembers_member "value" hvalue)).append
    (tidyMembers_line "line" f.line)).record (by decide) (by decide)

theorem VarItem.tidy_toDatum (v : VarItem) (h : Storable v.name) : v.toDatum.Tidy :=
  ((tidyMembers_member "name" (.text h.1 h.2)).append (tidyMembers_line "line" v.line)).record
    (by decide) (by decide)

theorem MethodItem.tidy_toDatum (m : MethodItem) (h : ∀ t ∈ m.texts, Storable t) : m.toDatum.Tidy := by
  simp only [texts, List.forall_mem_append, List.forall_mem_cons, List.forall_mem_map] at h
  obtain ⟨⟨⟨⟨hname, htype, _⟩, hparams⟩, hlocals⟩, hbody⟩ := h
  have hvars {vs : List VarItem} (hvs : ∀ v ∈ vs, Storable v.name) :
      ∀ d ∈ vs.map VarItem.toDatum, d.Tidy :=
    List.forall_mem_map.mpr fun v hv => v.tidy_toDatum (hvs v hv)
  exact ((((((tidyMembers_member "name" (.text hname.1 hname.2)).append
    (tidyMembers_member "type" (.text htype.1 htype.2))).append
    (tidyMembers_listMember "params" (hvars hparams))).append
    (tidyMembers_listMember "locals" (hvars hlocals))).append
    (tidyMembers_listMember "body" (NodeItem.tidy_toData m.body hbody))).append
    (tidyMembers_line "line" m.line)).record (by decide) (by decide)

namespace Document

theorem tidy_toDatum (doc : Document) (h : ∀ t ∈ doc.texts, Storable t) : doc.toDatum.Tidy := by
  simp only [texts, List.forall_mem_append, List.forall_mem_cons, List.forall_mem_map] at h
  obtain ⟨⟨⟨⟨hfile, hclass, _⟩, hfinals⟩, hglobals⟩, hmethods⟩ := h
  have hfinalData : ∀ d ∈ doc.finals.map FinalItem.toDatum, d.Tidy :=
    List.forall_mem_map.mpr fun f hf => f.tidy_toDatum (hfinals f hf)
  have hglobalData : ∀ d ∈ doc.globals.map VarItem.toDatum, d.Tidy :=
    List.forall_mem_map.mpr fun v hv => v.tidy_toDatum (hglobals v hv)
  have hmethodData : ∀ d ∈ doc.methods.map MethodItem.toDatum, d.Tidy :=
    List.forall_mem_map.mpr fun m hm => m.tidy_toDatum fun t ht =>
      hmethods t (List.mem_flatMap.mpr ⟨m, hm, ht⟩)
  exact ((((((tidyMembers_textMember "file" hfile).append
    (tidyMembers_member "class" (.text hclass.1 hclass.2))).append
    (tidyMembers_line "line" doc.line)).append
    (tidyMembers_listMember "finals" hfinalData)).append
    (tidyMembers_listMember "vars" hglobalData)).append
    (tidyMembers_listMember "methods" hmethodData)).record (by decide) (by decide)

/-! ## Reading back -/

section
variable {cbor : Codec} (h : cbor.Canonical) {doc : Document} (htexts : ∀ t ∈ doc.texts, Storable t)
  (hlists : doc.toDatum.breadth < 2 ^ 64)
include h htexts hlists

theorem encode_cbor : encode cbor .cbor doc = doc.toDatum.sorted.bytes :=
  h.writes doc.toDatum (doc.tidy_toDatum htexts) hlists

theorem decode_encode_of_fits (hn : doc.toDatum.nesting ≤ 32) (hb : doc.toDatum.breadth ≤ 131072) :
    decode cbor .cbor (encode cbor .cbor doc) = .ok doc := by
  have htidy := doc.tidy_toDatum htexts
  rw [← htidy.nesting_sorted] at hn
  rw [← htidy.breadth_sorted] at hb
  have hread : (Format.cbor.codec cbor).decode? doc.toDatum.sorted.bytes = some doc.toDatum.sorted :=
    h.reads _ htidy.sorted hn hb
  -- the members come back in another order than they were written in
  rw [decode, encode_cbor h htexts hlists, hread, Option.bind_some, ofDatum?_sorted htidy,
    ofDatum?_toDatum]

theorem decode_encode_of_not_fits (hlarge : ¬(doc.toDatum.nesting ≤ 32 ∧ doc.toDatum.breadth ≤ 131072)) :
    decode cbor .cbor (encode cbor .cbor doc) = .error (undecodable .cbor) := by
  have htidy := doc.tidy_toDatum htexts
  rw [← htidy.breadth_sorted] at hlists
  rw [← htidy.nesting_sorted, ← htidy.breadth_sorted] at hlarge
  have hnone : (Format.cbor.codec cbor).decode? doc.toDatum.sorted.bytes = none := by
    by_cases hn : doc.toDatum.sorted.nesting ≤ 32
    · exact h.wide _ htidy.sorted hlists (Nat.lt_of_not_le fun hb => hlarge ⟨hn, hb⟩)
    · exact h.deep _ htidy.sorted hlists (Nat.lt_of_not_le hn)
  rw [htidy.breadth_sorted] at hlists
  rw [decode, encode_cbor h htexts hlists, hnone, Option.bind_none]

end

/-- A document in CBOR is read back as it was written if it nests no deeper than 32
levels and none of its lists is longer than 131072; otherwise it is refused. -/
theorem decode_encode_cbor (cbor : Codec) (h : cbor.Canonical) (doc : Document)
    (htexts : ∀ t ∈ doc.texts, Storable t) (hlists : doc.toDatum.breadth < 2 ^ 64) :
    decode cbor .cbor (encode cbor .cbor doc) =
        (if doc.toDatum.nesting ≤ 32 ∧ doc.toDatum.breadth ≤ 131072 then .ok doc
        else .error (undecodable .cbor)) ∧
      ∀ doc', decode cbor .cbor (encode cbor .cbor doc) = .ok doc' →
        encode cbor .cbor doc' = encode cbor .cbor doc := by
  by_cases hfits : doc.toDatum.nesting ≤ 32 ∧ doc.toDatum.breadth ≤ 131072
  · have hdecode := decode_encode_of_fits h htexts hlists hfits.1 hfits.2
    rw [if_pos hfits]
    refine ⟨hdecode, fun doc' hdoc' => ?_⟩
    rw [hdecode] at hdoc'
    cases hdoc'
    rfl
  · have hdecode := decode_encode_of_not_fits h htexts hlists hfits
    rw [if_neg hfits]
    refine ⟨hdecode, fun doc' hdoc' => ?_⟩
    rw [hdecode] at hdoc'
    cases hdoc'

theorem decode_encode_cbor_varied :
    Codec.cbor.Canonical ∧ (∀ t ∈ varied.texts, Storable t) ∧ varied.toDatum.nesting ≤ 32 ∧
      varied.toDatum.breadth ≤ 131072 ∧
      decode .cbor .cbor (encode .cbor .cbor varied) = .ok varied := by
  have hchars : varied.texts = [['a', '"', '\\', '\x01', '<', '&', '\u2028'], ['𝄞'], ['N'], ['M'],
      ['g'], ['m'], ['i', 'n', 't'], [], [], [], [], [], [], [], [], []].map Text.ofChars := rfl
  have htexts : ∀ t ∈ varied.texts, Storable t := by
    have hlength : ∀ t ∈ varied.texts, t.length < 2 ^ 64 := by decide
    refine fun t ht => ⟨?_, hlength t ht⟩
    rw [hchars] at ht
    obtain ⟨cs, -, rfl⟩ := List.mem_map.mp ht
    exact Text.isUtf8_ofChars cs
  have hdepth : varied.toDatum.nesting ≤ 32 := by decide
  have hsize : varied.toDatum.breadth ≤ 131072 := by decide
  refine ⟨Codec.canonical_cbor, htexts, hdepth, hsize, ?_⟩
  rw [(decode_encode_cbor .cbor Codec.canonical_cbor varied htexts
    (Nat.lt_of_le_of_lt hsize (by decide))).1, if_pos ⟨hdepth, hsize⟩]

def wide (n : Nat) : Document where
  className := "W"
  globals := List.replicate n { name := "v" }

theorem storable_wide (n : Nat) : ∀ t ∈ (wide n).texts, Storable t := by
  have hshort (t : Text) (h : t.isUtf8 = true) (hlen : t.length ≤ 1) : Storable t :=
    ⟨h, Nat.lt_of_le_of_lt hlen (by decide)⟩
  simp only [wide, texts, List.map_nil, List.append_nil, List.flatMap_nil, List.map_replicate,
    List.forall_mem_append, List.forall_mem_cons]
  refine ⟨⟨hshort _ rfl (by decide), hshort _ rfl (by decide), List.forall_mem_nil _⟩, ?_⟩
  intro t ht
  rw [(List.mem_replicate.mp ht).2]
  exact hshort _ rfl (by decide)

theorem toDatum_wide (n : Nat) : (wide n).toDatum = .record (member "class" (.text "W") ++
    listMember "vars" (List.replicate n (VarItem.toDatum { name := "v" }))) := by
  simp [toDatum, wide, textMember, intMember, listMember]

theorem mem_listMember {name : Text} {items : List Datum} {m : Text × Datum} :
    m ∈ listMember name items ↔ items ≠ [] ∧ m = (name, .list items) := by
  unfold listMember
  cases items <;> simp

theorem nesting_wide (n : Nat) : (wide n).toDatum.nesting ≤ 3 := by
  have hitem : (VarItem.toDatum { name := "v" }).nesting ≤ 1 := by decide
  rw [toDatum_wide, nesting_record_le, List.forall_mem_append]
  refine ⟨by decide, fun m hm => ?_⟩
  rw [(mem_listMember.mp hm).2, nesting_list_le]
  intro v hv
  rw [(List.mem_replicate.mp hv).2]
  exact hitem

theorem breadth_wide {n b : Nat} (hb : 2 ≤ b) : (wide n).toDatum.breadth ≤ b ↔ n ≤ b := by
  have hitem : (VarItem.toDatum { name := "v" }).breadth ≤ 2 := by decide
  rw [toDatum_wide, breadth_record_le, List.forall_mem_append]
  constructor
  · rintro ⟨-, -, h⟩
    by_cases hn : n = 0
    · omega
    · have hvars := h _ (mem_listMember.mpr ⟨by simpa using hn, rfl⟩)
      rw [breadth_list_le, List.length_replicate] at hvars
      exact hvars.1
  · intro h
    refine ⟨?_, ?_, fun m hm => ?_⟩
    · rw [List.length_append, listMember]
      split
      · exact Nat.le_trans (by decide) hb
      · exact hb
    · exact List.forall_mem_singleton.mpr (Nat.zero_le b)
    · rw [(mem_listMember.mp hm).2, breadth_list_le, List.length_replicate]
      refine ⟨h, fun v hv => ?_⟩
      rw [(List.mem_replicate.mp hv).2]
      exact Nat.le_trans hitem hb

/-- A document whose lists are too long can be written, but not read. -/
theorem wide_unreadable :
    Codec.cbor.Canonical ∧ (∀ t ∈ (wide 131073).texts, Storable t) ∧
      (wide 131073).toDatum.nesting ≤ 32 ∧
      decode .cbor .cbor (encode .cbor .cbor (wide 131073)) = .error (undecodable .cbor) := by
  have hsize : (wide 131073).toDatum.breadth < 2 ^ 64 :=
    Nat.lt_of_le_of_lt ((breadth_wide (by decide)).mpr (Nat.le_refl _)) (by decide)
  refine ⟨Codec.canonical_cbor, storable_wide _, Nat.le_trans (nesting_wide _) (by decide), ?_⟩
  apply decode_encode_of_not_fits Codec.canonical_cbor (storable_wide _) hsize
  intro h
  exact absurd ((breadth_wide (by decide)).mp h.2) (by decide)

end Document

end ClassForge
