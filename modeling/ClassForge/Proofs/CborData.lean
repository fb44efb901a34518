import ClassForge.Proofs.CborItems

/-!
# CBOR in the canonical form

The item that tidy data is read as stands for that data, so the codec of this project keeps
the rules of canonical CBOR.
-/

namespace ClassForge

namespace Datum

/-! ## Keys -/

section
variable {key : Text} (h : isPlainKey key = true)
include h

theorem mem_plainKey {b : UInt8} (hb : b ∈ key) : 97 ≤ b.toNat ∧ b.toNat ≤ 122 := by
  have := List.all_eq_true.mp h b hb
  simpa [UInt8.le_iff_toNat_le] using this

theorem isUtf8_of_plainKey : key.isUtf8 = true := by
  have hascii : ∀ b ∈ key, b < 0x80 := by
    intro b hb
    have := mem_plainKey h hb
    rw [UInt8.lt_iff_toNat_lt]
    show b.toNat < 128
    omega
  rw [← Text.ofChars_map_ofUInt8 hascii]
  exact Text.isUtf8_ofChars _

theorem asciiLower_of_plainKey : key.asciiLower = key := by
  refine (List.map_congr_left fun b hb => ?_).trans (List.map_id key)
  have := mem_plainKey h hb
  have hcapital : ¬b ≤ 90 := by
    rw [UInt8.le_iff_toNat_le]
    show ¬b.toNat ≤ 90
    omega
  simp [hcapital]

theorem key?_of_plainKey : key? (.text [key]) = some (some key) := by
  simp [key?, utf8?, isUtf8_of_plainKey h]

end

/-! ## Items as data -/

theorem ofCborItems_eq (items : List Cbor) (done : List Datum) :
    ofCborItems items done = done.reverse ++ items.map ofCbor := by
  induction items generalizing done with
  | nil => simp [ofCborItems]
  | cons v items ih => simp [ofCborItems, ih]

theorem ofCborEntries_toCbor {members : List (Text × Datum)}
    (hkeys : ∀ m ∈ members, isPlainKey m.1 = true) (hd : (members.map Prod.fst).Nodup)
    (hdata : ∀ m ∈ members, ofCbor m.2.toCbor = m.2) {done : List (Text × Datum)}
    (hdone : ∀ m ∈ members, ∀ n ∈ done, n.1 ≠ m.1) :
    ofCborEntries (toCborMembers members) done = .record (done.reverse ++ members) := by
  induction members generalizing done with
  | nil => simp [ofCborEntries, toCborMembers]
  | cons m members ih =>
    rw [List.forall_mem_cons] at hkeys hdata hdone
    rw [List.map_cons, List.nodup_cons] at hd
    have hnew : addMember m.1 m.2 done = m :: done := by
      rw [addMember, if_neg]
      simp only [List.any_eq_true, decide_eq_true_eq, not_exists, not_and]
      exact hdone.1
    have hrest : ∀ n ∈ members, ∀ o ∈ m :: done, o.1 ≠ n.1 := by
      intro n hn
      rw [List.forall_mem_cons]
      refine ⟨?_, hdone.2 n hn⟩
      intro heq
      exact hd.1 (heq ▸ List.mem_map_of_mem hn)
    rw [toCborMembers, ofCborEntries, key?_of_plainKey hkeys.1]
    simp only [asciiLower_of_plainKey hkeys.1, hdata.1, hnew]
    rw [ih hkeys.2 hd.2 hdata.2 hrest]
    simp

theorem Tidy.ofCbor_toCbor {d : Datum} (h : d.Tidy) : ofCbor d.toCbor = d := by
  induction h with
  | null => rfl
  | @int n _ _ =>
    cases n with
    | ofNat n => rfl
    | negSucc n =>
      show Datum.int (-1 - n) = _
      rw [Int.negSucc_eq]
      congr 1
      omega
  | text hutf8 _ => simp [toCbor, ofCbor, utf8?, hutf8]
  | @list items _ ih =>
    rw [toCbor, toCborItems_eq, ofCbor, ofCborItems_eq, List.map_map]
    exact congrArg Datum.list ((List.map_congr_left ih).trans (List.map_id items))
  | record hkeys hd _ ih =>
    rw [toCbor, ofCbor, ofCborEntries_toCbor (fun m hm => (hkeys m hm).1) hd ih (by simp)]
    rfl

end Datum

/-! ## The codec -/

namespace Codec

theorem cbor_encode (d : Datum) : cbor.encode d = d.sorted.bytes := by
  show (d.sorted.writeTo []).reverse = _
  rw [Datum.writeTo_eq, List.append_nil, List.reverse_reverse]

theorem cbor_decode?_bytes {d : Datum} (h : d.Tidy) (hb : d.breadth < 2 ^ 64) :
    cbor.decode? d.bytes = if d.Fits Cbor.maxDepth then some d else none := by
  have hitem := h.readAt hb Cbor.maxDepth []
  rw [List.append_nil] at hitem
  show (Cbor.parse? d.bytes).map Datum.ofCbor = _
  rw [Cbor.parse?, hitem]
  by_cases hd : d.Fits Cbor.maxDepth
  · simp [hd, h.ofCbor_toCbor]
  · simp [hd]

theorem canonical_cbor : cbor.Canonical where
  writes d _ _ := cbor_encode d
  reads d h hn hb := by
    rw [cbor_decode?_bytes h (Nat.lt_of_le_of_lt hb (by decide)), if_pos ⟨hn, hb⟩]
  deep d h hb hn := by
    rw [cbor_decode?_bytes h hb, if_neg fun hd => Nat.not_lt.mpr hd.1 hn]
  wide d h hb hn := by
    rw [cbor_decode?_bytes h hb, if_neg fun hd => Nat.not_lt.mpr hd.2 hn]

end Codec

end ClassForge
