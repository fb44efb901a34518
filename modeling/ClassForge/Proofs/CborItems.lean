import Mathlib.Tactic.Ring
import ClassForge.Proofs.CborRules
import ClassForge.Libraries.CborCodec

/-!
# Items of CBOR read back

The bytes of data are read as an item, whatever follows them. Reading goes `depth` levels
in and takes no more than `maxItems` items of an array or entries of a map: beyond that it
is refused.
-/

namespace ClassForge

namespace Cbor

/-! ## Heads -/

theorem length_bigEndian (width n : Nat) : (bigEndian width n).length = width := by
  induction width with
  | zero => rfl
  | succ width ih => rw [bigEndian, List.length_cons, ih]

theorem number_bigEndian (width n : Nat) : number (bigEndian width n) = n % 256 ^ width := by
  have hfold : ∀ acc, (bigEndian width n).foldl (fun n b => n * 256 + b.toNat) acc =
      acc * 256 ^ width + n % 256 ^ width := by
    induction width with
    | zero => simp [bigEndian, Nat.mod_one]
    | succ width ih =>
      intro acc
      have hsplit : n % 256 ^ (width + 1) = n % 256 ^ width + 256 ^ width * (n / 256 ^ width % 256) :=
        Nat.mod_pow_succ
      have hshift : n >>> (8 * width) = n / 256 ^ width := by rw [Nat.shiftRight_eq_div_pow, Nat.pow_mul]
      rw [bigEndian, List.foldl_cons, ih, UInt8.toNat_ofNat', hshift, hsplit, Nat.pow_succ]
      ring
  simpa [number] using hfold 0

theorem take?_append {n : Nat} {t : Text} (h : t.length = n) (rest : Text) :
    take? n (t ++ rest) = some (t, rest) := by
  simp [take?, ← h]

theorem wideHead?_bigEndian {width n : Nat} (h : n < 256 ^ width) (major : Nat) (rest : Text) :
    wideHead? major width (bigEndian width n ++ rest) = some (⟨major, some n, true, width == 1⟩, rest) := by
  simp only [wideHead?, take?_append (length_bigEndian width n), Option.map_some, number_bigEndian,
    Nat.mod_eq_of_lt h]

theorem head?_cons {major info : Nat} (hm : major < 8) (hi : info < 32) (rest : Text) :
    head? (UInt8.ofNat (major * 32 + info) :: rest) =
      if info < 24 then some (⟨major, some info, false, false⟩, rest)
      else if info = 24 then wideHead? major 1 rest
      else if info = 25 then wideHead? major 2 rest
      else if info = 26 then wideHead? major 4 rest
      else if info = 27 then wideHead? major 8 rest
      else if info = 31 && 2 ≤ major && major ≤ 5 then some (⟨major, none, false, false⟩, rest)
      else none := by
  have hbyte : (UInt8.ofNat (major * 32 + info)).toNat = major * 32 + info := by
    rw [UInt8.toNat_ofNat']
    omega
  have hdiv : (major * 32 + info) / 32 = major := by omega
  have hmod : (major * 32 + info) % 32 = info := by omega
  simp only [head?, hbyte, hdiv, hmod]

/-- The argument of a head is read back, in whichever of the five widths it is
written. -/
theorem head?_head {major n : Nat} (hm : major < 8) (hn : n < 2 ^ 64) (rest : Text) :
    ∃ long single, head? (head major n ++ rest) = some (⟨major, some n, long, single⟩, rest) := by
  have hwide {info width : Nat} (hw : n < 256 ^ width)
      (h : head? (UInt8.ofNat (major * 32 + info) :: (bigEndian width n ++ rest)) =
        wideHead? major width (bigEndian width n ++ rest)) :
      ∃ long single, head? (UInt8.ofNat (major * 32 + info) :: bigEndian width n ++ rest) =
        some (⟨major, some n, long, single⟩, rest) :=
    ⟨true, width == 1, by rw [List.cons_append, h, wideHead?_bigEndian hw]⟩
  unfold head
  by_cases h : n < 24
  · rw [if_pos h]
    exact ⟨_, _, by rw [List.singleton_append, head?_cons hm (by omega), if_pos h]⟩
  rw [if_neg h]
  by_cases h : n < 0x100
  · rw [if_pos h]
    exact hwide h (head?_cons hm (by decide) _)
  rw [if_neg h]
  by_cases h : n < 0x10000
  · rw [if_pos h]
    exact hwide h (head?_cons hm (by decide) _)
  rw [if_neg h]
  by_cases h : n < 0x100000000
  · rw [if_pos h]
    exact hwide h (head?_cons hm (by decide) _)
  · rw [if_neg h]
    exact hwide hn (head?_cons hm (by decide) _)

/-! ## Items by their heads -/

def inner : (depth : Nat) → Option Reader
  | 0 => none
  | depth + 1 => some (item depth)

theorem item_eq (depth : Nat) : item depth = step (inner depth) := by
  cases depth <;> rfl

theorem item_head {major n : Nat} (hm : major < 6) (hn : n < 2 ^ 64) (depth : Nat) (rest : Text) :
    ∃ h : Head, h.major = major ∧ h.argument = some n ∧
      item depth (head major n ++ rest) = untagged (inner depth) h rest := by
  obtain ⟨long, single, hhead⟩ := head?_head (by omega : major < 8) hn rest
  refine ⟨⟨major, some n, long, single⟩, rfl, rfl, ?_⟩
  rw [item_eq, step, hhead]
  exact if_neg (by simp only; omega)

theorem item_zero {major n : Nat} (hm : major = 4 ∨ major = 5) (hn : n < 2 ^ 64) (rest : Text) :
    item 0 (head major n ++ rest) = none := by
  obtain ⟨h, hmajor, -, hitem⟩ := item_head (by omega : major < 6) hn 0 rest
  rw [hitem, untagged, hmajor]
  rcases hm with rfl | rfl <;> rfl

end Cbor

namespace Datum

open Cbor (Reader head maxItems times pairs? step untagged item item_head)

/-! ## The bytes of data -/

mutual

theorem writeTo_eq : ∀ (d : Datum) (done : Text), writeTo d done = d.bytes.reverse ++ done
  | .null, _ => rfl
  | .blank, _ => rfl
  | .unfit, _ => rfl
  | .int (.ofNat _), _ => rfl
  | .int (.negSucc _), _ => rfl
  | .text _, _ => by simp [writeTo, bytes]
  | .list items, done => by simp [writeTo, bytes, writeItems_eq items]
  | .record members, done => by simp [writeTo, bytes, writeMembers_eq members]

theorem writeItems_eq : ∀ (items : List Datum) (done : Text),
    writeItems items done = (itemBytes items).reverse ++ done
  | [], _ => rfl
  | d :: rest, done => by simp [writeItems, itemBytes, writeTo_eq d, writeItems_eq rest]

theorem writeMembers_eq : ∀ (members : List (Text × Datum)) (done : Text),
    writeMembers members done = (memberBytes members).reverse ++ done
  | [], _ => rfl
  | (key, d) :: rest, done => by
    simp [writeMembers, memberBytes, writeTo_eq d, writeMembers_eq rest]

end

def row (members : List (Text × Datum)) : List Datum := members.flatMap fun m => [.text m.1, m.2]

theorem length_row (members : List (Text × Datum)) : (row members).length = 2 * members.length := by
  induction members with
  | nil => rfl
  | cons m members ih =>
    show (row members).length + 2 = 2 * (members.length + 1)
    omega

theorem mem_row {members : List (Text × Datum)} {d : Datum} :
    d ∈ row members ↔ ∃ m ∈ members, d = .text m.1 ∨ d = m.2 := by
  simp [row]

theorem itemBytes_eq (items : List Datum) : itemBytes items = items.flatMap bytes := by
  induction items with
  | nil => rfl
  | cons d items ih => rw [itemBytes, ih, List.flatMap_cons]

theorem memberBytes_eq (members : List (Text × Datum)) : memberBytes members = (row members).flatMap bytes := by
  induction members with
  | nil => rfl
  | cons m members ih =>
    rw [memberBytes, ih]
    simp [row, bytes]

/-! ## The item of data -/

mutual

def toCbor : Datum → Cbor
  | .null | .blank | .unfit => .simple 22
  | .int (.ofNat n) => .uint n
  | .int (.negSucc n) => .nint n
  | .text t => .text [t]
  | .list items => .array (toCborItems items)
  | .record members => .map (toCborMembers members)

def toCborItems : List Datum → List Cbor
  | [] => []
  | d :: rest => toCbor d :: toCborItems rest

def toCborMembers : List (Text × Datum) → List (Cbor × Cbor)
  | [] => []
  | (key, d) :: rest => (.text [key], toCbor d) :: toCborMembers rest

end

theorem toCborItems_eq (items : List Datum) : toCborItems items = items.map toCbor := by
  induction items with
  | nil => rfl
  | cons d items ih => rw [toCborItems, ih, List.map_cons]

def Fits (depth : Nat) (d : Datum) : Prop := d.nesting ≤ depth ∧ d.breadth ≤ maxItems

instance (depth : Nat) : DecidablePred (Fits depth) := fun _ => inferInstanceAs (Decidable (_ ∧ _))

theorem fits_atom {d : Datum} (hn : d.nesting = 0) (hb : d.breadth = 0) (depth : Nat) : d.Fits depth := by
  simp [Fits, hn, hb]

theorem fits_list {depth : Nat} {items : List Datum} :
    Fits (depth + 1) (.list items) ↔ items.length ≤ maxItems ∧ ∀ d ∈ items, Fits depth d := by
  simp only [Fits, nesting_list_le, breadth_list_le, forall_and]
  exact and_left_comm

theorem fits_record {depth : Nat} {members : List (Text × Datum)} :
    Fits (depth + 1) (.record members) ↔
      (row members).length ≤ 2 * maxItems ∧ ∀ d ∈ row members, Fits depth d := by
  have hrow : (∀ d ∈ row members, Fits depth d) ↔ ∀ m ∈ members, Fits depth m.2 := by
    simp only [mem_row]
    constructor
    · exact fun h m hm => h _ ⟨m, hm, .inr rfl⟩
    · rintro h d ⟨m, hm, rfl | rfl⟩
      · exact fits_atom rfl rfl depth
      · exact h m hm
  rw [hrow, length_row, Nat.mul_le_mul_left_iff (by decide)]
  simp only [Fits, nesting_record_le, breadth_record_le, forall_and]
  exact and_left_comm

/-! ## Reading -/

/-- Items are read one after the other, up to the first that is refused. -/
theorem times_flatMap {read : Reader} {P : Datum → Prop} [DecidablePred P] {ds : List Datum}
    (h : ∀ d ∈ ds, ∀ rest, read (d.bytes ++ rest) = if P d then some (d.toCbor, rest) else none)
    (rest : Text) (done : List Cbor) :
    times read ds.length (ds.flatMap bytes ++ rest) done =
      if ∀ d ∈ ds, P d then some (done.reverse ++ ds.map toCbor, rest) else none := by
  induction ds generalizing done with
  | nil => simp [times]
  | cons d ds ih =>
    rw [List.forall_mem_cons] at h
    rw [List.length_cons, times, List.flatMap_cons, List.append_assoc, h.1]
    by_cases hd : P d
    · simp [hd, ih h.2]
    · simp [hd]

theorem pairs?_row (members : List (Text × Datum)) (done : List (Cbor × Cbor)) :
    pairs? ((row members).map toCbor) done = some (done.reverse ++ toCborMembers members) := by
  induction members generalizing done with
  | nil => simp [row, pairs?, toCborMembers]
  | cons m members ih =>
    show pairs? ((row members).map toCbor) ((.text [m.1], m.2.toCbor) :: done) = _
    rw [ih, List.reverse_cons, List.append_assoc, List.singleton_append, toCborMembers]

def ReadAt (depth : Nat) (d : Datum) : Prop :=
  ∀ rest, item depth (d.bytes ++ rest) = if d.Fits depth then some (d.toCbor, rest) else none

theorem readAt_list {depth : Nat} {items : List Datum} (hn : items.length < 2 ^ 64)
    (h : ∀ d ∈ items, ReadAt depth d) : ReadAt (depth + 1) (.list items) := by
  intro rest
  obtain ⟨e, hmajor, harg, hitem⟩ := item_head (by decide : 4 < 6) hn (depth + 1)
    (items.flatMap bytes ++ rest)
  rw [bytes, itemBytes_eq, List.append_assoc, hitem, untagged, hmajor, harg]
  show Option.map _ (if _ then _ else none) = _
  rw [times_flatMap h, toCbor, toCborItems_eq]
  simp only [fits_list]
  by_cases hle : items.length ≤ maxItems
  · by_cases hall : ∀ d ∈ items, Fits depth d
    · rw [if_pos hle, if_pos hall, if_pos ⟨hle, hall⟩]
      rfl
    · rw [if_pos hle, if_neg hall, if_neg fun h => hall h.2]
      rfl
  · rw [if_neg hle, if_neg fun h => hle h.1]
    rfl

theorem readAt_record {depth : Nat} {members : List (Text × Datum)} (hn : members.length < 2 ^ 64)
    (h : ∀ d ∈ row members, ReadAt depth d) : ReadAt (depth + 1) (.record members) := by
  intro rest
  obtain ⟨e, hmajor, harg, hitem⟩ := item_head (by decide : 5 < 6) hn (depth + 1)
    ((row members).flatMap bytes ++ rest)
  rw [bytes, memberBytes_eq, List.append_assoc, hitem, untagged, hmajor, harg]
  show Option.bind (if 2 * members.length ≤ _ then times _ (2 * members.length) _ _ else none) _ = _
  rw [← length_row, times_flatMap h, toCbor]
  simp only [fits_record]
  by_cases hle : (row members).length ≤ 2 * maxItems
  · by_cases hall : ∀ d ∈ row members, Fits depth d
    · rw [if_pos hle, if_pos hall, if_pos ⟨hle, hall⟩, List.reverse_nil, List.nil_append,
        Option.bind_some, pairs?_row]
      rfl
    · rw [if_pos hle, if_neg hall, if_neg fun h => hall h.2]
      rfl
  · rw [if_neg hle, if_neg fun h => hle h.1]
    rfl

theorem readAt_text {t : Text} (ht : t.length < 2 ^ 64) (depth : Nat) : ReadAt depth (.text t) := by
  intro rest
  obtain ⟨e, hmajor, harg, hitem⟩ := item_head (by decide : 3 < 6) ht depth (t ++ rest)
  rw [bytes, List.append_assoc, hitem, untagged, hmajor, harg, if_pos (fits_atom rfl rfl depth)]
  show Option.map _ ((Cbor.take? t.length (t ++ rest)).map _) = _
  rw [Cbor.take?_append rfl]
  rfl

theorem readAt_int {n : Int} (hle : -2 ^ 63 ≤ n) (hlt : n < 2 ^ 63) (depth : Nat) :
    ReadAt depth (.int n) := by
  intro rest
  rw [if_pos (fits_atom rfl rfl depth)]
  cases n with
  | ofNat n =>
    have hn : n < 2 ^ 64 := by
      rw [Int.ofNat_eq_natCast] at hlt
      omega
    obtain ⟨e, hmajor, harg, hitem⟩ := item_head (by decide : 0 < 6) hn depth rest
    rw [bytes, hitem, untagged, hmajor, harg]
    rfl
  | negSucc n =>
    have hn : n < 2 ^ 64 := by omega
    obtain ⟨e, hmajor, harg, hitem⟩ := item_head (by decide : 1 < 6) hn depth rest
    rw [bytes, hitem, untagged, hmajor, harg]
    rfl

/-- Data is read from its bytes if it fits, and refused otherwise. -/
theorem Tidy.readAt {d : Datum} (h : d.Tidy) (hb : d.breadth < 2 ^ 64) (depth : Nat) : ReadAt depth d := by
  induction h generalizing depth with
  | null =>
    intro rest
    rw [Cbor.item_eq, if_pos (fits_atom rfl rfl depth)]
    rfl
  | int hle hlt => exact readAt_int hle hlt depth
  | text _ hlen => exact readAt_text hlen depth
  | @list items _ ih =>
    obtain ⟨hlen, hitems⟩ := breadth_list_le.mp (Nat.le_pred_of_lt hb)
    replace hlen : items.length < 2 ^ 64 := Nat.lt_of_le_pred (by decide) hlen
    cases depth with
    | zero =>
      intro rest
      rw [bytes, List.append_assoc, Cbor.item_zero (.inl rfl) hlen]
      exact (if_neg fun h => absurd h.1 (Nat.not_succ_le_zero _)).symm
    | succ depth =>
      exact readAt_list hlen fun d hd => ih d hd (Nat.lt_of_le_pred (by decide) (hitems d hd)) depth
  | @record members hkeys _ _ ih =>
    obtain ⟨hlen, hmembers⟩ := breadth_record_le.mp (Nat.le_pred_of_lt hb)
    replace hlen : members.length < 2 ^ 64 := Nat.lt_of_le_pred (by decide) hlen
    cases depth with
    | zero =>
      intro rest
      rw [bytes, List.append_assoc, Cbor.item_zero (.inr rfl) hlen]
      exact (if_neg fun h => absurd h.1 (Nat.not_succ_le_zero _)).symm
    | succ depth =>
      refine readAt_record hlen fun d hd => ?_
      obtain ⟨m, hm, rfl | rfl⟩ := mem_row.mp hd
      · exact readAt_text (hkeys m hm).2 depth
      · exact ih m hm (Nat.lt_of_le_pred (by decide) (hmembers m hm)) depth

end Datum

end ClassForge
