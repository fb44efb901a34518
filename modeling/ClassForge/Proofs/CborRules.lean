import Mathlib.Data.List.Nodup
import ClassForge.Cbor
import ClassForge.Proofs.JsonData

/-!
# What is relied on in a codec of CBOR

A codec of canonical CBOR writes the members of a record in the order of their keys and
reads them in any order. It goes 32 levels in and takes no more than 131072 items of a list
or members of a record; beyond that it refuses to read. Putting members in order changes
neither measure.
-/

namespace ClassForge

namespace Datum

/-- Data as documents are written: numbers of 64 bits, texts in UTF-8, and records
whose members have plain names, each its own. -/
inductive Tidy : Datum → Prop where
  | null : Tidy .null
  | int {n : Int} : -2 ^ 63 ≤ n → n < 2 ^ 63 → Tidy (.int n)
  | text {t : Text} : t.isUtf8 = true → t.length < 2 ^ 64 → Tidy (.text t)
  | list {items : List Datum} : (∀ d ∈ items, Tidy d) → Tidy (.list items)
  | record {members : List (Text × Datum)} :
    (∀ m ∈ members, isPlainKey m.1 = true ∧ m.1.length < 2 ^ 64) → (members.map Prod.fst).Nodup →
    (∀ m ∈ members, Tidy m.2) → Tidy (.record members)

/-! ## Measures -/

mutual

/-- How many lists and records stand around the innermost part. -/
def nesting : Datum → Nat
  | .list items => itemsNesting items + 1
  | .record members => membersNesting members + 1
  | _ => 0

def itemsNesting : List Datum → Nat
  | [] => 0
  | d :: rest => max (nesting d) (itemsNesting rest)

def membersNesting : List (Text × Datum) → Nat
  | [] => 0
  | (_, d) :: rest => max (nesting d) (membersNesting rest)

end

mutual

def breadth : Datum → Nat
  | .list items => max items.length (itemsBreadth items)
  | .record members => max members.length (membersBreadth members)
  | _ => 0

def itemsBreadth : List Datum → Nat
  | [] => 0
  | d :: rest => max (breadth d) (itemsBreadth rest)

def membersBreadth : List (Text × Datum) → Nat
  | [] => 0
  | (_, d) :: rest => max (breadth d) (membersBreadth rest)

end

theorem nesting_list_le {items : List Datum} {n : Nat} :
    (list items).nesting ≤ n + 1 ↔ ∀ d ∈ items, d.nesting ≤ n := by
  rw [nesting, Nat.add_le_add_iff_right]
  induction items with
  | nil => simp [itemsNesting]
  | cons d items ih => rw [itemsNesting, Nat.max_le, ih, List.forall_mem_cons]

theorem nesting_record_le {members : List (Text × Datum)} {n : Nat} :
    (record members).nesting ≤ n + 1 ↔ ∀ m ∈ members, m.2.nesting ≤ n := by
  rw [nesting, Nat.add_le_add_iff_right]
  induction members with
  | nil => simp [membersNesting]
  | cons m members ih => rw [membersNesting, Nat.max_le, ih, List.forall_mem_cons]

theorem breadth_list_le {items : List Datum} {n : Nat} :
    (list items).breadth ≤ n ↔ items.length ≤ n ∧ ∀ d ∈ items, d.breadth ≤ n := by
  rw [breadth, Nat.max_le]
  refine and_congr_right' ?_
  induction items with
  | nil => simp [itemsBreadth]
  | cons d items ih => rw [itemsBreadth, Nat.max_le, ih, List.forall_mem_cons]

theorem breadth_record_le {members : List (Text × Datum)} {n : Nat} :
    (record members).breadth ≤ n ↔ members.length ≤ n ∧ ∀ m ∈ members, m.2.breadth ≤ n := by
  rw [breadth, Nat.max_le]
  refine and_congr_right' ?_
  induction members with
  | nil => simp [membersBreadth]
  | cons m members ih => rw [membersBreadth, Nat.max_le, ih, List.forall_mem_cons]

/-! ## The order of keys -/

theorem sortedItems_eq (items done : List Datum) :
    sortedItems items done = done.reverse ++ items.map sorted := by
  induction items generalizing done with
  | nil => simp [sortedItems]
  | cons d items ih => simp [sortedItems, ih]

theorem sortedMembers_eq (members done : List (Text × Datum)) :
    sortedMembers members done = done.reverse ++ members.map fun m => (m.1, m.2.sorted) := by
  induction members generalizing done with
  | nil => simp [sortedMembers]
  | cons m members ih => simp [sortedMembers, ih]

theorem sorted_list (items : List Datum) : sorted (.list items) = .list (items.map sorted) := by
  rw [sorted, sortedItems_eq]
  rfl

theorem insertMember_perm (m : Text × Datum) (ms : List (Text × Datum)) :
    (insertMember m ms).Perm (m :: ms) := by
  induction ms with
  | nil => exact .refl _
  | cons n ms ih =>
    rw [insertMember]
    split
    · exact .refl _
    · exact (ih.cons n).trans (.swap ..)

theorem sorted_record (members : List (Text × Datum)) :
    ∃ ms : List (Text × Datum), ms.Perm (members.map fun m => (m.1, m.2.sorted)) ∧
      sorted (.record members) = .record ms := by
  rw [sorted, sortedMembers_eq, List.reverse_nil, List.nil_append]
  refine ⟨_, ?_, rfl⟩
  generalize members.map _ = ms
  induction ms with
  | nil => exact .refl _
  | cons m ms ih => exact (insertMember_perm m _).trans (ih.cons m)

theorem Tidy.sorted {d : Datum} (h : d.Tidy) : d.sorted.Tidy := by
  induction h with
  | null => exact .null
  | int hle hlt => exact .int hle hlt
  | text hutf8 hlen => exact .text hutf8 hlen
  | list _ ih =>
    rw [sorted_list]
    exact .list (List.forall_mem_map.mpr ih)
  | record hkeys hd _ ih =>
    obtain ⟨ms, hperm, hrecord⟩ := sorted_record _
    rw [hrecord]
    refine .record (fun m hm => ?_) ?_ fun m hm => ?_
    · obtain ⟨n, hn, rfl⟩ := List.mem_map.mp (hperm.mem_iff.mp hm)
      exact hkeys n hn
    · rw [(hperm.map Prod.fst).nodup_iff, List.map_map]
      exact hd
    · obtain ⟨n, hn, rfl⟩ := List.mem_map.mp (hperm.mem_iff.mp hm)
      exact ih n hn

theorem Tidy.nesting_sorted_le {d : Datum} (h : d.Tidy) (n : Nat) :
    d.sorted.nesting ≤ n ↔ d.nesting ≤ n := by
  induction h generalizing n with
  | null => rfl
  | int => rfl
  | text => rfl
  | @list items _ ih =>
    rw [sorted_list]
    cases n with
    | zero => simp [nesting]
    | succ n =>
      rw [nesting_list_le, nesting_list_le, List.forall_mem_map]
      exact forall₂_congr fun d hd => ih d hd n
  | @record members _ _ _ ih =>
    obtain ⟨ms, hperm, hrecord⟩ := sorted_record members
    rw [hrecord]
    cases n with
    | zero => simp [nesting]
    | succ n =>
      simp only [nesting_record_le, hperm.mem_iff, List.forall_mem_map]
      exact forall₂_congr fun m hm => ih m hm n

theorem Tidy.breadth_sorted_le {d : Datum} (h : d.Tidy) (n : Nat) :
    d.sorted.breadth ≤ n ↔ d.breadth ≤ n := by
  induction h generalizing n with
  | null => rfl
  | int => rfl
  | text => rfl
  | @list items _ ih =>
    rw [sorted_list, breadth_list_le, breadth_list_le, List.length_map, List.forall_mem_map]
    exact and_congr_right' (forall₂_congr fun d hd => ih d hd n)
  | @record members _ _ _ ih =>
    obtain ⟨ms, hperm, hrecord⟩ := sorted_record members
    rw [hrecord]
    simp only [breadth_record_le, hperm.length_eq, hperm.mem_iff, List.length_map, List.forall_mem_map]
    exact and_congr_right' (forall₂_congr fun m hm => ih m hm n)

theorem Tidy.nesting_sorted {d : Datum} (h : d.Tidy) : d.sorted.nesting = d.nesting :=
  eq_of_forall_ge_iff h.nesting_sorted_le

theorem Tidy.breadth_sorted {d : Datum} (h : d.Tidy) : d.sorted.breadth = d.breadth :=
  eq_of_forall_ge_iff h.breadth_sorted_le

end Datum

/-! ## The rules -/

/-- The rules of canonical CBOR that documents depend on. Every length is a number of
64 bits. -/
structure Codec.Canonical (c : Codec) : Prop where
  writes : ∀ d : Datum, d.Tidy → d.breadth < 2 ^ 64 → c.encode d = d.sorted.bytes
  reads : ∀ d : Datum, d.Tidy → d.nesting ≤ 32 → d.breadth ≤ 131072 → c.decode? d.bytes = some d
  deep : ∀ d : Datum, d.Tidy → d.breadth < 2 ^ 64 → 32 < d.nesting → c.decode? d.bytes = none
  wide : ∀ d : Datum, d.Tidy → d.breadth < 2 ^ 64 → 131072 < d.breadth → c.decode? d.bytes = none

end ClassForge
