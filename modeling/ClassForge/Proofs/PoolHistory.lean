import Mathlib.Data.List.Induction
import Mathlib.Data.List.Infix
import ClassForge.Proofs.Pool

/-!
# The history of a pool

What a pool holds is decided by what was done to it: the entries that were offered before
it was frozen, in order, as many as there is room for. The look-up of texts agrees with a
scan of these entries at every time, and an entry that is refused leaves no trace.
-/

namespace ClassForge.Pool

inductive Operation where
  | add (e : Entry)
  | freeze
  deriving DecidableEq

/-- Does an operation. Gives what came of an addition, and the pool from then on. -/
def perform (p : Pool) : Operation → Option (Except Refusal UInt16) × Pool
  | .add e =>
    match p.add e with
    | .ok (number, q) => (some (.ok number), q)
    | .error r => (some (.error r), p)
  | .freeze => (none, p.freeze)

def after (ops : List Operation) : Pool := ops.foldl (fun p op => (p.perform op).2) {}

theorem after_concat (ops : List Operation) (op : Operation) :
    after (ops ++ [op]) = ((after ops).perform op).2 := by
  unfold after
  rw [List.foldl_append]
  rfl

/-! ## What was offered -/

/-- The entries that were offered before the pool was frozen. -/
def offered : List Operation → List Entry
  | [] => []
  | .add e :: ops => e :: offered ops
  | .freeze :: _ => []

def held (ops : List Operation) : List Entry := (offered ops).take 65534

theorem offered_append : ∀ ops more : List Operation,
    offered (ops ++ more) = offered ops ++ if .freeze ∈ ops then [] else offered more
  | [], more => by simp [offered]
  | .add e :: ops, more => by simp [offered, offered_append ops more]
  | .freeze :: ops, more => by simp [offered]

theorem held_freeze (ops : List Operation) : held (ops ++ [.freeze]) = held ops := by
  unfold held
  rw [offered_append]
  split <;> simp [offered]

theorem held_add (ops : List Operation) (e : Entry) :
    held (ops ++ [.add e]) =
      if .freeze ∉ ops ∧ (held ops).length < 65534 then held ops ++ [e] else held ops := by
  have hadd : offered [.add e] = [e] := rfl
  unfold held
  rw [offered_append]
  by_cases hf : .freeze ∈ ops
  · simp [hf]
  · by_cases hs : (offered ops).length < 65534
    · rw [if_neg hf, hadd, List.take_of_length_le (by simp; omega), List.take_of_length_le (Nat.le_of_lt hs),
        if_pos ⟨hf, hs⟩]
    · have hs : 65534 ≤ (offered ops).length := Nat.le_of_not_lt hs
      have hfull : ((offered ops).take 65534).length = 65534 := by rw [List.length_take, Nat.min_eq_left hs]
      rw [if_neg hf, List.take_append_of_le_length hs, if_neg (by rw [hfull]; simp)]

theorem held_prefix (ops more : List Operation) : held ops <+: held (ops ++ more) := by
  unfold held
  rw [offered_append]
  exact List.IsPrefix.take (List.prefix_append _ _) 65534

/-! ## What one operation keeps -/

def scan (es : List Entry) (t : Text) : Option UInt16 :=
  (es.findIdx? (· = .utf8 t)).map fun k => UInt16.ofNat (k + 1)

theorem scan_concat (es : List Entry) (e : Entry) (t : Text) :
    scan (es ++ [e]) t = (scan es t).or (if e = .utf8 t then some (UInt16.ofNat (es.length + 1)) else none) := by
  unfold scan
  rw [List.findIdx?_append]
  cases es.findIdx? (· = .utf8 t) with
  | some k => rfl
  | none =>
    by_cases he : e = .utf8 t
    · simp [he]
    · simp [he]

structure Records (ops : List Operation) (p : Pool) : Prop where
  entries : p.entries.toList = held ops
  frozen : p.frozen = true ↔ .freeze ∈ ops
  first : ∀ t, p.first[t]? = scan (held ops) t

section
variable {ops : List Operation} {p q : Pool} {e : Entry} {number : UInt16} {r : Refusal}

theorem Records.size (h : Records ops p) : p.entries.size = (held ops).length := by
  rw [← Array.length_toList, h.entries]

theorem records_empty : Records [] {} := by
  refine ⟨rfl, ?_, fun t => ?_⟩
  · simp
  · exact Std.TreeMap.getElem?_emptyc

theorem Records.open_iff (h : Records ops p) :
    p.frozen = false ∧ p.entries.size < capacity ↔ .freeze ∉ ops ∧ (held ops).length < 65534 := by
  rw [← h.frozen, h.size, Bool.not_eq_true]
  rfl

theorem Records.push (h : Records ops p) (hopen : .freeze ∉ ops ∧ (held ops).length < 65534) :
    Records (ops ++ [.add e]) (p.push e) := by
  have hheld : held (ops ++ [.add e]) = held ops ++ [e] := by rw [held_add, if_pos hopen]
  refine ⟨?_, ?_, fun t => ?_⟩
  · rw [entries_push, Array.toList_push, h.entries, hheld]
  · show p.frozen = true ↔ _
    rw [h.frozen]
    simp
  · rw [getElem?_first_push, h.first, hheld, scan_concat, next, h.size]

theorem Records.refused (h : Records ops p) (hclosed : ¬(.freeze ∉ ops ∧ (held ops).length < 65534)) :
    Records (ops ++ [.add e]) p := by
  have hheld : held (ops ++ [.add e]) = held ops := by rw [held_add, if_neg hclosed]
  refine ⟨by rw [hheld, h.entries], ?_, fun t => by rw [hheld, h.first]⟩
  rw [h.frozen]
  simp

theorem Records.freeze (h : Records ops p) : Records (ops ++ [.freeze]) p.freeze := by
  refine ⟨by rw [held_freeze]; exact h.entries, ?_, fun t => by rw [held_freeze]; exact h.first t⟩
  simp [Pool.freeze]

theorem perform_add_of_ok (h : p.add e = .ok (number, q)) : p.perform (.add e) = (some (.ok number), q) := by
  simp only [perform, h]

theorem perform_add_of_error (h : p.add e = .error r) : p.perform (.add e) = (some (.error r), p) := by
  simp only [perform, h]

theorem Records.perform (h : Records ops p) (op : Operation) : Records (ops ++ [op]) (p.perform op).2 := by
  cases op with
  | freeze => exact h.freeze
  | add e =>
    cases hadd : p.add e with
    | ok result =>
      obtain ⟨hf, hs, -, hq⟩ := add_eq_ok.mp hadd
      rw [perform_add_of_ok hadd, hq]
      exact h.push (h.open_iff.mp ⟨hf, hs⟩)
    | error r =>
      rw [perform_add_of_error hadd]
      apply h.refused
      -- with room left in an open pool the addition would not have failed
      intro hopen
      obtain ⟨hf, hs⟩ := h.open_iff.mpr hopen
      rw [add_eq_ok.mpr ⟨hf, hs, rfl, rfl⟩] at hadd
      cases hadd

end

theorem records_after (ops : List Operation) : Records ops (after ops) := by
  induction ops using List.reverseRecOn with
  | nil => exact records_empty
  | append_singleton ops op ih =>
    rw [after_concat]
    exact ih.perform op

/-! ## What a pool answers -/

theorem length_held_le (ops : List Operation) : (held ops).length ≤ 65534 :=
  List.length_take_le _ _

theorem get?_after (ops : List Operation) (number : UInt16) :
    (after ops).get? number = if number.toNat = 0 then none else (held ops)[number.toNat - 1]? := by
  rw [get?_eq, (records_after ops).entries]

theorem get?_after_append {ops : List Operation} {number : UInt16} {e : Entry}
    (h : (after ops).get? number = some e) (more : List Operation) :
    (after (ops ++ more)).get? number = some e := by
  rw [get?_after] at h ⊢
  by_cases hzero : number.toNat = 0
  · rw [if_pos hzero] at h
    cases h
  · rw [if_neg hzero] at h ⊢
    obtain ⟨below, hbelow⟩ := held_prefix ops more
    rw [← hbelow, List.getElem?_append_left (List.getElem?_eq_some_iff.mp h).1]
    exact h

theorem toNat_count_after (ops : List Operation) : (after ops).count.toNat = (held ops).length + 1 := by
  have hle := length_held_le ops
  unfold count
  rw [(records_after ops).size, UInt16.toNat_ofNat']
  omega

theorem toNat_find_after (ops : List Operation) (t : Text) :
    ((after ops).find t).toNat = (((held ops).findIdx? (· = .utf8 t)).map (· + 1)).getD 0 := by
  unfold find
  rw [(records_after ops).first, scan]
  cases hfind : (held ops).findIdx? (· = .utf8 t) with
  | none => rfl
  | some k =>
    have hk := (List.findIdx?_eq_some_iff_findIdx_eq.mp hfind).1
    have hle := length_held_le ops
    simp only [Option.map_some, Option.getD_some, UInt16.toNat_ofNat']
    omega

def Answered (ops : List Operation) (e : Entry) (q : Pool) : Except Refusal UInt16 → Prop
  | .ok number => .freeze ∉ ops ∧ (held ops).length < 65534 ∧ number.toNat = (held ops).length + 1 ∧
      q.entries.toList = held ops ++ [e]
  | .error .frozen => .freeze ∈ ops ∧ q = after ops
  | .error .full => .freeze ∉ ops ∧ (held ops).length = 65534 ∧ q = after ops ∧
      Refusal.full.failure.hasCode "E0903" = true

theorem answered_perform (ops : List Operation) (e : Entry) :
    ∃ answer q, (after ops).perform (.add e) = (some answer, q) ∧ Answered ops e q answer := by
  have h := records_after ops
  cases hadd : (after ops).add e with
  | ok result =>
    obtain ⟨number, q⟩ := result
    refine ⟨.ok number, q, perform_add_of_ok hadd, ?_⟩
    obtain ⟨hf, hs, rfl, rfl⟩ := add_eq_ok.mp hadd
    obtain ⟨hopen, hroom⟩ := h.open_iff.mp ⟨hf, hs⟩
    refine ⟨hopen, hroom, ?_, ?_⟩
    · rw [toNat_next hs, h.size]
    · rw [entries_push, Array.toList_push, h.entries]
  | error r =>
    refine ⟨.error r, after ops, perform_add_of_error hadd, ?_⟩
    unfold add at hadd
    split at hadd
    · rename_i r' hr
      cases hadd
      unfold refusal? at hr
      by_cases hf : (after ops).frozen = true
      · rw [if_pos hf] at hr
        cases hr
        exact ⟨h.frozen.mp hf, rfl⟩
      · rw [if_neg hf] at hr
        by_cases hs : capacity ≤ (after ops).entries.size
        · rw [if_pos hs] at hr
          cases hr
          rw [h.size] at hs
          exact ⟨fun hmem => hf (h.frozen.mpr hmem), Nat.le_antisymm (length_held_le ops) hs, rfl, rfl⟩
        · rw [if_neg hs] at hr
          cases hr
    · cases hadd

/-- After any operations a pool holds what was offered to it in time, under the numbers
from one on and for good; texts are found as by a scan, and what is refused changes nothing. -/
theorem after_holds (ops : List Operation) :
    (after ops).entries.toList = held ops ∧ ((after ops).frozen = true ↔ .freeze ∈ ops) ∧
      (after ops).size ≤ 65534 ∧ (after ops).count.toNat = (after ops).size + 1 ∧
      (∀ number, (after ops).get? number =
        if number.toNat = 0 then none else (held ops)[number.toNat - 1]?) ∧
      (∀ t, ((after ops).find t).toNat =
        (((held ops).findIdx? (· = .utf8 t)).map (· + 1)).getD 0) ∧
      (∀ e, ∃ answer q, (after ops).perform (.add e) = (some answer, q) ∧ Answered ops e q answer) ∧
      ∀ more number e, (after ops).get? number = some e → (after (ops ++ more)).get? number = some e := by
  have h := records_after ops
  have hsize : (after ops).size = (held ops).length := h.size
  refine ⟨h.entries, h.frozen, ?_, ?_, get?_after ops, toNat_find_after ops, answered_perform ops, ?_⟩
  · rw [hsize]
    exact length_held_le ops
  · rw [hsize]
    exact toNat_count_after ops
  · intro more number e hget
    exact get?_after_append hget more

def repeatedText : List Operation := [.add (.utf8 "A"), .add (.integer 7), .add (.utf8 "A"), .freeze]

theorem after_holds_repeated :
    (after repeatedText).entries.toList = [.utf8 "A", .integer 7, .utf8 "A"] ∧
      ((after repeatedText).find "A").toNat = 1 ∧ ((after repeatedText).find "B").toNat = 0 ∧
      (after repeatedText).perform (.add (.utf8 "B")) = (some (.error .frozen), after repeatedText) ∧
      (after (repeatedText ++ [.add (.utf8 "B")])).get? 3 = some (.utf8 "A") := by
  obtain ⟨hentries, -, -, -, hget, hfind, hadd, hkeep⟩ := after_holds repeatedText
  have hheld : held repeatedText = [.utf8 "A", .integer 7, .utf8 "A"] := rfl
  have hfreeze : Operation.freeze ∈ repeatedText := by decide
  rw [hheld] at hentries hget hfind
  refine ⟨hentries, (hfind "A").trans (by decide), (hfind "B").trans (by decide), ?_, ?_⟩
  · obtain ⟨answer, q, hperform, hanswer⟩ := hadd (.utf8 "B")
    rcases answer with (_ | _) | number
    · rw [hperform, hanswer.2]
    · exact absurd hfreeze hanswer.1
    · exact absurd hfreeze hanswer.1
  · exact hkeep _ _ _ ((hget 3).trans (by decide))

end ClassForge.Pool
