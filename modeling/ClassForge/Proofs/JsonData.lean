import ClassForge.Proofs.Utf8
import ClassForge.Proofs.JsonValues
import ClassForge.Datum.Json

/-!
# Data read back from JSON

Data that a document is written as comes back from its JSON text: numbers from
their digits, texts that are UTF-8 from their characters, and names in lower case
from keys whose case does not matter.
-/

namespace ClassForge

open Json (IsLiteral Legible)

/-! ## Whole numbers -/

namespace Text

theorem chars_map_toUInt8 {cs : List Char} (h : ∀ c ∈ cs, c.toNat < 0x80) :
    chars (cs.map Char.toUInt8) = cs := by
  have hbyte (c : Char) (hc : c ∈ cs) : c.toUInt8.toNat = c.toNat := by
    have := h c hc
    rw [Char.toUInt8, UInt32.toNat_toUInt8]
    show c.toNat % 256 = c.toNat
    omega
  have hascii : ∀ b ∈ cs.map Char.toUInt8, b < 0x80 := by
    intro b hb
    obtain ⟨c, hc, rfl⟩ := List.mem_map.mp hb
    rw [UInt8.lt_iff_toNat_lt, hbyte c hc]
    exact h c hc
  rw [chars_of_ascii hascii, List.map_map]
  refine (List.map_congr_left fun c hc => ?_).trans (List.map_id cs)
  rw [id, ← Char.toNat_inj]
  exact (UInt8.toNat_toUInt32 _).trans (hbyte c hc)

theorem toNat_lt_of_isDigit {c : Char} (h : c.isDigit = true) : c.toNat < 0x80 := by
  have hle : c.toNat ≤ 57 := (Char.isDigit_iff_toNat.mp h).2
  omega

theorem chars_ofNat (n : Nat) : (ofNat n).chars = Nat.toDigits 10 n :=
  chars_map_toUInt8 fun _ hc =>
    toNat_lt_of_isDigit (Nat.isDigit_of_mem_toDigits (by decide) (by decide) hc)

theorem chars_minus_ofNat (n : Nat) : chars (45 :: ofNat n) = '-' :: Nat.toDigits 10 n := by
  refine @chars_map_toUInt8 ('-' :: Nat.toDigits 10 n) fun c hc => ?_
  rcases List.mem_cons.mp hc with rfl | hc
  · decide
  · exact toNat_lt_of_isDigit (Nat.isDigit_of_mem_toDigits (by decide) (by decide) hc)

end Text

namespace Json

theorem isDigit_of_mem {n : Nat} {c : Char} (h : c ∈ Nat.toDigits 10 n) : c.isDigit = true :=
  Nat.isDigit_of_mem_toDigits (by decide) (by decide) h

theorem toDigits_head {n : Nat} (h : 0 < n) : ∃ c cs, Nat.toDigits 10 n = c :: cs ∧ c ≠ '0' := by
  induction n using Nat.strong_induction_on with
  | _ n ih =>
    by_cases hlt : n < 10
    · have hne : ∀ k < 10, 0 < k → Nat.digitChar k ≠ '0' := by decide
      exact ⟨_, _, Nat.toDigits_of_lt_base hlt, hne n hlt h⟩
    · obtain ⟨c, cs, hcs, hc⟩ := ih (n / 10) (by omega) (by omega)
      have hlast := Nat.toDigits_of_base_le (b := 10) (by decide) (Nat.le_of_not_lt hlt)
      rw [hcs] at hlast
      exact ⟨c, _, hlast, hc⟩

theorem whole?_toDigits (n : Nat) : whole? (Nat.toDigits 10 n) = some [] := by
  rcases Nat.eq_zero_or_pos n with rfl | hn
  · rfl
  · obtain ⟨c, cs, hcs, hc⟩ := toDigits_head hn
    have hdigit (d : Char) (hd : d ∈ c :: cs) : d.isDigit = true := isDigit_of_mem (hcs ▸ hd)
    have hrest : cs.dropWhile Char.isDigit = [] :=
      List.dropWhile_eq_nil_iff.mpr fun d hd => hdigit d (List.mem_cons_of_mem _ hd)
    rw [hcs, whole?, digits?, if_pos (hdigit c (List.mem_cons_self ..)), hrest]
    intro rest h
    cases h
    exact hc rfl

theorem isLiteral_digits (n : Nat) : IsLiteral (Nat.toDigits 10 n) := by
  obtain ⟨c, cs, hcs⟩ := List.exists_cons_of_ne_nil (Nat.toDigits_ne_nil (n := n) (b := 10))
  have hc : c.isDigit = true := isDigit_of_mem (hcs ▸ List.mem_cons_self ..)
  refine ⟨?_, ⟨c, cs, hcs, by rw [hc, Bool.or_true]⟩, ?_⟩
  · unfold isNumber
    split
    · rename_i rest h
      rw [hcs, List.cons.injEq] at h
      rw [h.1] at hc
      exact absurd hc (by decide)
    · simp only [whole?_toDigits]
      rfl
  · intro d hd
    rw [isNumberChar, isDigit_of_mem hd]
    rfl

theorem isLiteral_minus (n : Nat) : IsLiteral ('-' :: Nat.toDigits 10 n) := by
  refine ⟨?_, ⟨'-', _, rfl, rfl⟩, ?_⟩
  · show (((whole? (Nat.toDigits 10 n)).bind fraction?).bind exponent? == some []) = true
    rw [whole?_toDigits]
    rfl
  · intro d hd
    rcases List.mem_cons.mp hd with rfl | hd
    · rfl
    · exact (isLiteral_digits n).chars d hd

end Json

namespace Datum

theorem decimal_toDigits (n : Nat) : decimal (Nat.toDigits 10 n) = n := by
  have h := @Nat.ofDigitChars_ten_toDigits n
  simp only [Nat.ofDigitChars, Nat.mul_comm 10] at h
  exact h

theorem whole?_ofInt (n : Int) : whole? (Text.ofInt n).chars = some n := by
  have hall (k : Nat) : (Nat.toDigits 10 k).all Char.isDigit = true :=
    List.all_eq_true.mpr fun c hc => Json.isDigit_of_mem hc
  cases n with
  | ofNat k =>
    rw [Text.ofInt, Text.chars_ofNat]
    unfold whole?
    split
    · rename_i digits h
      have hminus : '-' ∈ Nat.toDigits 10 k := h ▸ List.mem_cons_self ..
      exact absurd (Json.isDigit_of_mem hminus) (by decide)
    · rw [if_pos (hall k), decimal_toDigits]
      rfl
  | negSucc k =>
    rw [Text.ofInt, Text.chars_minus_ofNat, whole?, if_pos (hall (k + 1)), decimal_toDigits]
    rfl

theorem isLiteral_ofInt (n : Int) : IsLiteral (Text.ofInt n).chars := by
  cases n with
  | ofNat k =>
    rw [Text.ofInt, Text.chars_ofNat]
    exact Json.isLiteral_digits k
  | negSucc k =>
    rw [Text.ofInt, Text.chars_minus_ofNat]
    exact Json.isLiteral_minus (k + 1)

/-! ## Keys -/

def isPlainKey (key : Text) : Bool := key.all fun b => 97 ≤ b && b ≤ 122

theorem foldKey_chars {key : Text} (h : isPlainKey key = true) : foldKey key.chars = key := by
  have hrange (b : UInt8) (hb : b ∈ key) : 97 ≤ b.toNat ∧ b.toNat ≤ 122 := by
    have := List.all_eq_true.mp h b hb
    simpa [UInt8.le_iff_toNat_le] using this
  have hascii : ∀ b ∈ key, b < 0x80 := by
    intro b hb
    have := hrange b hb
    rw [UInt8.lt_iff_toNat_lt]
    show b.toNat < 128
    omega
  have hfold : ∀ b ∈ key, foldCase (Char.ofUInt8 b) = Char.ofUInt8 b := by
    intro b hb
    have hb := hrange b hb
    have hn : (Char.ofUInt8 b).toNat = b.toNat := UInt8.toNat_toUInt32 b
    have hcapital : ¬Char.ofUInt8 b ≤ 'Z' := by
      rw [Char.le_def, UInt32.le_iff_toNat_le]
      show ¬(Char.ofUInt8 b).toNat ≤ 90
      omega
    have hne (c : Char) (hc : 122 < c.toNat) : Char.ofUInt8 b ≠ c := by
      intro h
      rw [h] at hn
      omega
    rw [foldCase, if_neg (by simp [hcapital]), if_neg (hne _ (by decide)), if_neg (hne _ (by decide))]
  have hmap : (key.map Char.ofUInt8).map foldCase = key.map Char.ofUInt8 := by
    rw [List.map_map]
    exact List.map_congr_left hfold
  rw [foldKey, Text.chars_of_ascii hascii, hmap, Text.ofChars_map_ofUInt8 hascii]

/-! ## Data -/

inductive Plain : Datum → Prop where
  | null : Plain .null
  | int (n : Int) : Plain (.int n)
  | text {t : Text} : t.isUtf8 = true → Plain (.text t)
  | list {items : List Datum} : (∀ d ∈ items, Plain d) → Plain (.list items)
  | record {members : List (Text × Datum)} : (∀ m ∈ members, isPlainKey m.1 = true) →
    (∀ m ∈ members, Plain m.2) → Plain (.record members)

theorem toJsonItems_eq (items : List Datum) (done : List Json) :
    toJsonItems items done = done.reverse ++ items.map toJson := by
  induction items generalizing done with
  | nil => simp [toJsonItems]
  | cons d items ih => simp [toJsonItems, ih]

theorem toJsonMembers_eq (members : List (Text × Datum)) (done : List (List Char × Json)) :
    toJsonMembers members done = done.reverse ++ members.map fun m => (m.1.chars, m.2.toJson) := by
  induction members generalizing done with
  | nil => simp [toJsonMembers]
  | cons m members ih => simp [toJsonMembers, ih]

theorem ofJsonItems_eq (items : List Json) (done : List Datum) :
    ofJsonItems items done = done.reverse ++ items.map ofJson := by
  induction items generalizing done with
  | nil => simp [ofJsonItems]
  | cons v items ih => simp [ofJsonItems, ih]

theorem ofJsonMembers_eq (members : List (List Char × Json)) (done : List (Text × Datum)) :
    ofJsonMembers members done = done.reverse ++ members.map fun m => (foldKey m.1, ofJson m.2) := by
  induction members generalizing done with
  | nil => simp [ofJsonMembers]
  | cons m members ih => simp [ofJsonMembers, ih]

theorem legible_toJson (d : Datum) (h : d.Plain) : Legible d.toJson := by
  induction h with
  | null => exact .null
  | int n => exact .number (isLiteral_ofInt n)
  | text _ => exact .string _
  | list _ ih =>
    rw [toJson, toJsonItems_eq]
    refine .array fun v hv => ?_
    obtain ⟨d, hd, rfl⟩ := List.mem_map.mp hv
    exact ih d hd
  | record _ _ ih =>
    rw [toJson, toJsonMembers_eq]
    refine .object fun v hv => ?_
    obtain ⟨m, hm, rfl⟩ := List.mem_map.mp hv
    exact ih m hm

theorem ofJson_toJson (d : Datum) (h : d.Plain) : ofJson d.toJson = d := by
  induction h with
  | null => rfl
  | int n => rw [toJson, ofJson, whole?_ofInt]
  | text ht => rw [toJson, ofJson, Text.ofChars_chars ht]
  | list _ ih =>
    rw [toJson, ofJson, toJsonItems_eq, ofJsonItems_eq]
    simp only [List.reverse_nil, List.nil_append, List.map_map]
    exact congrArg list ((List.map_congr_left ih).trans (List.map_id _))
  | record hkeys _ ih =>
    rw [toJson, ofJson, toJsonMembers_eq, ofJsonMembers_eq]
    simp only [List.reverse_nil, List.nil_append, List.map_map]
    refine congrArg record ((List.map_congr_left fun m hm => ?_).trans (List.map_id _))
    exact Prod.ext (foldKey_chars (hkeys m hm)) (ih m hm)

theorem json_decode?_encode {d : Datum} (h : d.Plain) (hd : d.toJson.nesting ≤ Json.maxDepth) :
    Codec.json.decode? (Codec.json.encode d) = some d := by
  simp only [Codec.json, Text.chars_ofChars, Json.parse?_text (legible_toJson d h) hd,
    Option.map_some, ofJson_toJson d h]

end Datum

end ClassForge
