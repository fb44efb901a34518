import Mathlib.Data.List.Induction
import ClassForge.ByteWriter
import ClassForge.Cbor

/-!
# The history of a writer

A writer takes the calls since it was last reset as long as they fit its limit. The first
that does not fit is reported and ends the writing: no part of it is written, and nothing
behind it, even if that would fit. So a writer with a limit holds the longest front of
the calls that fits, and a writer without one holds them all: `after_longest_front`.
-/

namespace ClassForge.ByteWriter

/-! ## Chunks -/

section
variable {limit : Option Nat} {w : ByteWriter}

theorem write_of_refused (h : w.refused.isSome = true) (chunk : Text) : w.write chunk = w := by
  rw [write, if_pos h]

theorem write_of_le {data chunk : Text} (h : ∀ m ∈ limit, data.length + chunk.length ≤ m) :
    ({ bytes := data.toArray, limit } : ByteWriter).write chunk =
      { bytes := (data ++ chunk).toArray, limit } := by
  have hfits : ({ bytes := data.toArray, limit } : ByteWriter).fits chunk.length = true := by
    cases limit with
    | none => rfl
    | some m => simpa [fits] using h m rfl
  simp [write, hfits]

theorem write_of_lt {m : Nat} {data chunk : Text} (h : m < data.length + chunk.length) :
    ({ bytes := data.toArray, limit := some m } : ByteWriter).write chunk =
      { bytes := data.toArray, limit := some m, refused := some (data.length + chunk.length) } := by
  simp [write, fits, h]

@[simp] theorem limit_write (w : ByteWriter) (chunk : Text) : (w.write chunk).limit = w.limit := by
  unfold write
  split
  · rfl
  · split <;> rfl

@[simp] theorem limit_foldl_write (cs : List Text) (w : ByteWriter) :
    (cs.foldl write w).limit = w.limit := by
  induction cs generalizing w with
  | nil => rfl
  | cons c cs ih => rw [List.foldl_cons, ih, limit_write]

/-- Chunks are all written, or they are written up to one that is too long. -/
theorem foldl_write_cases (limit : Option Nat) (cs : List Text) :
    ((∀ m ∈ limit, cs.flatten.length ≤ m) ∧
      cs.foldl write { limit } = { bytes := cs.flatten.toArray, limit }) ∨
    ∃ m kept chunk rest, limit = some m ∧ cs = kept ++ chunk :: rest ∧ kept.flatten.length ≤ m ∧
      m < kept.flatten.length + chunk.length ∧
      cs.foldl write { limit } =
        { bytes := kept.flatten.toArray, limit,
          refused := some (kept.flatten.length + chunk.length) } := by
  induction cs using List.reverseRecOn with
  | nil =>
    left
    exact ⟨by simp, rfl⟩
  | append_singleton cs c ih =>
    rw [List.foldl_append, List.foldl_cons, List.foldl_nil]
    obtain ⟨hfit, hrun⟩ | ⟨m, kept, chunk, rest, hm, rfl, hkept, hchunk, hrun⟩ := ih
    · by_cases hc : ∀ m ∈ limit, cs.flatten.length + c.length ≤ m
      · left
        refine ⟨by simpa using hc, ?_⟩
        rw [hrun, write_of_le hc]
        simp
      · right
        simp only [not_forall, Nat.not_le] at hc
        obtain ⟨m, hm, hlt⟩ := hc
        obtain rfl : limit = some m := hm
        refine ⟨m, cs, c, [], rfl, rfl, hfit m rfl, hlt, ?_⟩
        rw [hrun, write_of_lt hlt]
    · right
      refine ⟨m, kept, chunk, rest ++ [c], hm, by simp, hkept, hchunk, ?_⟩
      rw [hrun, write_of_refused rfl]

end

section
variable {limit : Nat} {w : ByteWriter} {cs : List Text}

theorem error?_foldl_write_of_le (hl : w.limit = some limit) (h : cs.flatten.length ≤ limit) :
    (cs.foldl write w.reset).error? = none := by
  have hreset : w.reset = { limit := some limit } := by simp only [reset, hl]
  obtain ⟨-, hrun⟩ | ⟨m, kept, chunk, rest, hm, rfl, -, hlt, -⟩ := foldl_write_cases (some limit) cs
  · rw [hreset, hrun]
    rfl
  · cases hm
    rw [List.flatten_append, List.length_append, List.flatten_cons, List.length_append] at h
    omega

theorem error?_foldl_write_of_lt (hl : w.limit = some limit) (h : limit < cs.flatten.length) :
    ∃ n, limit < n ∧ (cs.foldl write w.reset).error? = some (tooLong n limit) := by
  have hreset : w.reset = { limit := some limit } := by simp only [reset, hl]
  obtain ⟨hfit, -⟩ | ⟨m, kept, chunk, rest, hm, -, -, hlt, hrun⟩ := foldl_write_cases (some limit) cs
  · exact absurd h (Nat.not_lt.mpr (hfit limit rfl))
  · cases hm
    refine ⟨_, hlt, ?_⟩
    rw [hreset, hrun]
    rfl

theorem toList_foldl_write (h : (cs.foldl write w.reset).error? = none) :
    (cs.foldl write w.reset).bytes.toList = cs.flatten := by
  have hreset : w.reset = { limit := w.limit } := rfl
  obtain ⟨-, hrun⟩ | ⟨m, kept, chunk, rest, hm, -, -, -, hrun⟩ := foldl_write_cases w.limit cs
  · rw [hreset, hrun]
  · rw [hreset, hrun, hm] at h
    cases h

end

/-! ## Calls -/

inductive Call where
  | u1 (v : UInt8)
  | i1 (v : Int8)
  | u2 (v : UInt16)
  | u4 (v : UInt32)
  | text (t : Text)
  deriving DecidableEq

namespace Call

/-- The number most significant byte first, below zero in two's complement. -/
def encoding : Call → Text
  | u1 v => Cbor.bigEndian 1 v.toNat
  | i1 v => Cbor.bigEndian 1 (v.toInt % 256).toNat
  | u2 v => Cbor.bigEndian 2 v.toNat
  | u4 v => Cbor.bigEndian 4 v.toNat
  | text t => t

def size : Call → Nat
  | u1 _ => 1
  | i1 _ => 1
  | u2 _ => 2
  | u4 _ => 4
  | text t => t.length

def total : List Call → Nat
  | [] => 0
  | c :: cs => c.size + total cs

theorem length_encoding (c : Call) : c.encoding.length = c.size := by
  cases c <;> rfl

theorem total_append : ∀ cs ds : List Call, total (cs ++ ds) = total cs + total ds
  | [], ds => (Nat.zero_add _).symm
  | c :: cs, ds => by rw [List.cons_append, total, total, total_append cs ds, Nat.add_assoc]

theorem length_flatten_encoding : ∀ cs : List Call, (cs.map encoding).flatten.length = total cs
  | [] => rfl
  | c :: cs => by
    rw [List.map_cons, List.flatten_cons, List.length_append, length_encoding,
      length_flatten_encoding cs, total]

end Call

inductive Operation where
  | call (c : Call)
  | reset
  deriving DecidableEq

def perform (w : ByteWriter) : Operation → ByteWriter
  | .call (.u1 v) => w.u1 v
  | .call (.i1 v) => w.i1 v
  | .call (.u2 v) => w.u2 v
  | .call (.u4 v) => w.u4 v
  | .call (.text t) => w.write t
  | .reset => w.reset

theorem toUInt8_eq (v : Int8) : v.toUInt8 = UInt8.ofNat (v.toInt % 256).toNat := by
  apply UInt8.toNat_inj.mp
  have hv : v.toInt = v.toBitVec.toInt := rfl
  have hu : v.toUInt8.toNat = v.toBitVec.toNat := rfl
  have hlt := v.toBitVec.isLt
  rw [hu, hv, UInt8.toNat_ofNat', BitVec.toInt_eq_toNat_cond]
  omega

theorem perform_call (w : ByteWriter) (c : Call) : w.perform (.call c) = w.write c.encoding := by
  cases c with
  | u1 v => simp [perform, u1, Call.encoding, Cbor.bigEndian]
  | i1 v => simp [perform, i1, Call.encoding, Cbor.bigEndian, toUInt8_eq]
  | u2 v => simp [perform, u2, Call.encoding, Cbor.bigEndian, Text.u2, Nat.shiftRight_eq_div_pow]
  | u4 v => simp [perform, u4, Call.encoding, Cbor.bigEndian, Text.u4, Nat.shiftRight_eq_div_pow]
  | text t => rfl

def after (limit : Option Nat) (ops : List Operation) : ByteWriter := ops.foldl perform { limit }

def current : List Operation → List Call
  | [] => []
  | .call c :: ops => if .reset ∈ ops then current ops else c :: current ops
  | .reset :: ops => current ops

theorem after_append (limit : Option Nat) (ops more : List Operation) :
    after limit (ops ++ more) = more.foldl perform (after limit ops) :=
  List.foldl_append

theorem current_call (ops : List Operation) (c : Call) :
    current (ops ++ [.call c]) = current ops ++ [c] := by
  induction ops with
  | nil => rfl
  | cons op ops ih =>
    cases op with
    | reset => exact ih
    | call d =>
      rw [List.cons_append, current, current, ih]
      by_cases h : Operation.reset ∈ ops <;> simp [h]

theorem current_reset (ops : List Operation) : current (ops ++ [.reset]) = [] := by
  induction ops with
  | nil => rfl
  | cons op ops ih =>
    cases op with
    | reset => exact ih
    | call d => rw [List.cons_append, current, if_pos (by simp), ih]

/-- Nothing but the limit outlasts a reset. -/
theorem after_eq (limit : Option Nat) (ops : List Operation) :
    after limit ops = ((current ops).map Call.encoding).foldl write { limit } := by
  induction ops using List.reverseRecOn with
  | nil => rfl
  | append_singleton ops op ih =>
    rw [after_append, List.foldl_cons, List.foldl_nil, ih]
    cases op with
    | call c => rw [perform_call, current_call, List.map_append, List.foldl_append]; rfl
    | reset =>
      rw [current_reset]
      simp [perform, reset]

/-! ## What fits -/

/-- Of the fronts of `calls` that fit the limit, `kept` is the longest. -/
structure IsLongestFront (limit : Nat) (calls kept : List Call) : Prop where
  front : kept <+: calls
  fits : Call.total kept ≤ limit
  longest : ∀ front, front <+: calls → Call.total front ≤ limit → front <+: kept

theorem isLongestFront_self {limit : Nat} {calls : List Call} (h : Call.total calls ≤ limit) :
    IsLongestFront limit calls calls :=
  ⟨List.prefix_rfl, h, fun _ hfront _ => hfront⟩

theorem isLongestFront_append {limit : Nat} {kept : List Call} {c : Call}
    (hle : Call.total kept ≤ limit) (hlt : limit < Call.total kept + c.size) (rest : List Call) :
    IsLongestFront limit (kept ++ c :: rest) kept := by
  refine ⟨List.prefix_append _ _, hle, ?_⟩
  intro front hfront hfits
  rcases Nat.lt_or_ge kept.length front.length with h | h
  · -- a longer front has the call in it that does not fit
    have hmore : kept ++ [c] <+: front := by
      apply List.prefix_of_prefix_length_le _ hfront
      · rw [List.length_append, List.length_singleton]
        exact h
      · exact ⟨rest, by simp⟩
    obtain ⟨more, rfl⟩ := hmore
    rw [Call.total_append, Call.total_append, Call.total] at hfits
    omega
  · exact List.prefix_of_prefix_length_le hfront (List.prefix_append _ _) h

theorem IsLongestFront.unique {limit : Nat} {calls kept other : List Call}
    (h : IsLongestFront limit calls kept) (h' : IsLongestFront limit calls other) : kept = other := by
  apply (h'.longest kept h.front h.fits).eq_of_length_le
  exact (h.longest other h'.front h'.fits).length_le

theorem after_cases (limit : Option Nat) (ops : List Operation) :
    ((∀ m ∈ limit, Call.total (current ops) ≤ m) ∧
      after limit ops = { bytes := ((current ops).flatMap Call.encoding).toArray, limit }) ∨
    ∃ m kept c rest, limit = some m ∧ current ops = kept ++ c :: rest ∧ Call.total kept ≤ m ∧
      m < Call.total kept + c.size ∧
      after limit ops =
        { bytes := (kept.flatMap Call.encoding).toArray, limit,
          refused := some (Call.total kept + c.size) } := by
  rw [after_eq]
  obtain ⟨hfit, hrun⟩ | ⟨m, kept, chunk, rest, hm, hsplit, hle, hlt, hrun⟩ :=
    foldl_write_cases limit ((current ops).map Call.encoding)
  · left
    rw [Call.length_flatten_encoding] at hfit
    exact ⟨hfit, hrun⟩
  · right
    obtain ⟨kept, more, hcalls, rfl, hmore⟩ := List.map_eq_append_iff.mp hsplit
    obtain ⟨c, rest, rfl, rfl, -⟩ := List.map_eq_cons_iff.mp hmore
    simp only [Call.length_flatten_encoding, Call.length_encoding] at hle hlt hrun
    exact ⟨m, kept, c, rest, hm, hcalls, hle, hlt, hrun⟩

/-! ## What a history leaves -/

section
variable (limit : Nat) (ops : List Operation)

/-- The calls of the longest front that fits are written, and the next is reported. -/
theorem exists_kept :
    ∃ kept, IsLongestFront limit (current ops) kept ∧
      (after (some limit) ops).bytes.toList = kept.flatMap Call.encoding ∧
      (after (some limit) ops).error? = (current ops)[kept.length]?.map fun c =>
        tooLong (Call.total kept + c.size) limit := by
  obtain ⟨hfit, hrun⟩ | ⟨m, kept, c, rest, hm, hcalls, hle, hlt, hrun⟩ := after_cases (some limit) ops
  · refine ⟨current ops, isLongestFront_self (hfit limit rfl), by rw [hrun], ?_⟩
    rw [hrun, List.getElem?_eq_none (Nat.le_refl _)]
    rfl
  · cases hm
    rw [hcalls]
    refine ⟨kept, isLongestFront_append hle hlt rest, by rw [hrun], ?_⟩
    rw [hrun, List.getElem?_append_right (Nat.le_refl _), Nat.sub_self]
    rfl

theorem error?_after_eq_none_iff :
    (after (some limit) ops).error? = none ↔ Call.total (current ops) ≤ limit := by
  obtain ⟨hfit, hrun⟩ | ⟨m, kept, c, rest, hm, hcalls, -, hlt, hrun⟩ := after_cases (some limit) ops
  · rw [hrun]
    exact ⟨fun _ => hfit limit rfl, fun _ => rfl⟩
  · cases hm
    rw [hrun, hcalls, Call.total_append, Call.total]
    constructor
    · intro h
      cases h
    · omega

theorem after_none : after none ops = { bytes := ((current ops).flatMap Call.encoding).toArray } := by
  obtain ⟨-, hrun⟩ | ⟨m, -, -, -, hm, -⟩ := after_cases none ops
  · exact hrun
  · cases hm

end

/-- Once a call is refused, nothing is written until the writer is reset. -/
theorem after_append_calls {limit : Option Nat} {ops : List Operation}
    (h : (after limit ops).error? ≠ none) (more : List Call) :
    after limit (ops ++ more.map .call) = after limit ops := by
  have hrefused : (after limit ops).refused.isSome = true := by
    cases hr : (after limit ops).refused with
    | none => exact absurd (by rw [error?, hr]) h
    | some n => rfl
  induction more using List.reverseRecOn with
  | nil => rw [List.map_nil, List.append_nil]
  | append_singleton more c ih =>
    rw [List.map_append, ← List.append_assoc, after_append, ih]
    show (after limit ops).perform (.call c) = _
    rw [perform_call, write_of_refused hrefused]

/-- A writer with a limit holds the longest front of the calls since its last reset that
fits. It reports how long the code would have been with the next call, and takes no other;
a writer without a limit holds all calls. -/
theorem after_longest_front (ops : List Operation) :
    (∀ limit, ∃ kept, IsLongestFront limit (current ops) kept ∧
      (after (some limit) ops).bytes.toList = kept.flatMap Call.encoding ∧
      ((after (some limit) ops).error? = none ↔ Call.total (current ops) ≤ limit) ∧
      (after (some limit) ops).error? = (current ops)[kept.length]?.map (fun c =>
        { code := "E0901",
          message := "code length " ++ Text.ofNat (Call.total kept + c.size) ++ " exceeds " ++
            Text.ofNat limit ++ " bytes" }) ∧
      ∀ more : List Call, (after (some limit) ops).error? ≠ none →
        after (some limit) (ops ++ more.map .call) = after (some limit) ops) ∧
    (after none ops).bytes.toList = (current ops).flatMap Call.encoding ∧
    (after none ops).error? = none := by
  constructor
  · intro limit
    obtain ⟨kept, hkept, hbytes, herror⟩ := exists_kept limit ops
    refine ⟨kept, hkept, hbytes, error?_after_eq_none_iff limit ops, herror, ?_⟩
    intro more h
    exact after_append_calls h more
  · rw [after_none]
    exact ⟨rfl, rfl⟩

def crowded : List Operation :=
  [.call (.u1 9), .reset, .call (.u4 0xCAFEBABE), .call (.u2 7), .call (.i1 (-2))]

theorem after_longest_front_crowded :
    (after (some 5) crowded).bytes.toList = [0xCA, 0xFE, 0xBA, 0xBE] ∧
      (after (some 5) crowded).error? = some (tooLong 6 5) ∧
      (after none crowded).bytes.toList = [0xCA, 0xFE, 0xBA, 0xBE, 0, 7, 0xFE] := by
  obtain ⟨hlimit, hall, -⟩ := after_longest_front crowded
  obtain ⟨kept, hkept, hbytes, -, herror, -⟩ := hlimit 5
  have hcurrent : current crowded = [.u4 0xCAFEBABE, .u2 7, .i1 (-2)] := rfl
  rw [hcurrent] at hkept herror hall
  have hfour : Call.total [.u4 0xCAFEBABE] ≤ 5 := by decide
  have hsix : 5 < Call.total [.u4 0xCAFEBABE] + Call.size (.u2 7) := by decide
  obtain rfl := hkept.unique (isLongestFront_append hfour hsix [.i1 (-2)])
  exact ⟨hbytes.trans (by decide), herror, hall.trans (by decide)⟩

end ClassForge.ByteWriter
