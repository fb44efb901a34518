import Mathlib.Data.List.Forall2
import ClassForge.ByteReader

/-!
# What readers take

A reader that takes exactly a given text off the front of whatever follows it
can be put in front of another one, so the laws of a format are put together
from the laws of its parts.
-/

namespace ClassForge

/-! ## Words -/

namespace Text

theorem toU2_bytes (v : UInt16) : toU2 (UInt8.ofNat (v.toNat / 256)) (UInt8.ofNat v.toNat) = v := by
  have hv := v.toNat_lt
  apply UInt16.toNat_inj.mp
  simp only [toU2, UInt16.toNat_ofNat', UInt8.toNat_ofNat']
  omega

theorem toU4_bytes (v : UInt32) :
    toU4 (UInt8.ofNat (v.toNat / 16777216)) (UInt8.ofNat (v.toNat / 65536))
      (UInt8.ofNat (v.toNat / 256)) (UInt8.ofNat v.toNat) = v := by
  have hv := v.toNat_lt
  apply UInt32.toNat_inj.mp
  simp only [toU4, UInt32.toNat_ofNat', UInt8.toNat_ofNat']
  omega

theorem word?_u2 (v : UInt16) : word? (u2 v) = some v := by
  simp only [word?, u2, toU2_bytes]

@[simp] theorem length_u2 (v : UInt16) : (u2 v).length = 2 := rfl

@[simp] theorem length_u4 (v : UInt32) : (u4 v).length = 4 := rfl

end Text

/-! ## Taking a text -/

namespace ByteReader

variable {α β : Type}

/-- The reader takes `t` off the front of any text and gives `x`. -/
def Takes (r : ByteReader α) (t : Text) (x : α) : Prop := ∀ rest, r (t ++ rest) = .ok (x, rest)

theorem Takes.whole {r : ByteReader α} {t : Text} {x : α} (h : Takes r t x) : r t = .ok (x, []) := by
  have := h []
  rwa [List.append_nil] at this

theorem takes_pure (x : α) : Takes (pure x) [] x := fun _ => rfl

theorem Takes.bind {r : ByteReader α} {f : α → ByteReader β} {a b : Text} {x : α} {y : β}
    (hr : Takes r a x) (hf : Takes (f x) b y) : Takes (r >>= f) (a ++ b) y := by
  intro rest
  simp only [Bind.bind, List.append_assoc, hr (b ++ rest)]
  exact hf rest

theorem Takes.bind_nil {r : ByteReader α} {f : α → ByteReader β} {t : Text} {x : α} {y : β}
    (hr : Takes r [] x) (hf : Takes (f x) t y) : Takes (r >>= f) t y := hr.bind hf

theorem Takes.bind_last {r : ByteReader α} {f : α → ByteReader β} {t : Text} {x : α} {y : β}
    (hr : Takes r t x) (hf : Takes (f x) [] y) : Takes (r >>= f) t y := by
  have := hr.bind hf
  rwa [List.append_nil] at this

theorem Takes.bind_pure {r : ByteReader α} {g : α → β} {t : Text} {x : α} (h : Takes r t x) :
    Takes (r >>= fun x => pure (g x)) t (g x) := h.bind_last (takes_pure (g x))

theorem Takes.doing {r : ByteReader α} {t : Text} {x : α} (h : Takes r t x) (what : Text) :
    Takes (r.doing what) t x := by
  intro rest
  simp only [ByteReader.doing, h rest]

theorem takes_u1 (b : UInt8) : Takes u1 [b] b := fun _ => rfl

theorem takes_u2 (v : UInt16) : Takes u2 (Text.u2 v) v := by
  intro rest
  simp only [Text.u2, List.cons_append, List.nil_append, u2, Text.toU2_bytes]

theorem takes_u4 (v : UInt32) : Takes u4 (Text.u4 v) v := by
  intro rest
  simp only [Text.u4, List.cons_append, List.nil_append, u4, Text.toU4_bytes]

theorem splitLoop_append (t rest done : Text) :
    splitLoop t.length (t ++ rest) done = some (done.reverse ++ t, rest) := by
  induction t generalizing done with
  | nil => simp [splitLoop]
  | cons b t ih =>
    rw [List.length_cons, List.cons_append, splitLoop, ih]
    simp

theorem takes_bytes {n : Nat} {t : Text} (hn : n = t.length) (short : Text → Failure) :
    Takes (bytes n short) t t := by
  subst hn
  intro rest
  simp [bytes, split?, splitLoop_append]

theorem takes_skip_zero : Takes (skip 0) [] () := fun _ => rfl

/-! ## Counted items -/

section
variable {item : Nat → ByteReader β} {text : α → Text}

theorem timesLoop_append {xs : List α} {ys : List β}
    (h : List.Forall₂ (fun x y => ∀ i, Takes (item i) (text x) y) xs ys) :
    ∀ (i : Nat) (done : List β) (rest : Text),
      timesLoop item xs.length i done (xs.flatMap text ++ rest) = .ok (done.reverse ++ ys, rest) := by
  induction h with
  | nil => intro i done rest; simp [timesLoop]
  | cons hx _ ih =>
    intro i done rest
    rw [List.length_cons, List.flatMap_cons, List.append_assoc, timesLoop]
    simp only [hx i _, ih, List.reverse_cons, List.append_assoc, List.singleton_append]

/-- Items are taken one after another, whatever their numbers are. -/
theorem takes_times {n : Nat} {xs : List α} {ys : List β} (hn : n = xs.length) (start : Nat)
    (h : List.Forall₂ (fun x y => ∀ i, Takes (item i) (text x) y) xs ys) :
    Takes (times n start item) (xs.flatMap text) ys := by
  subst hn
  intro rest
  rw [times, timesLoop_append h, List.reverse_nil, List.nil_append]

end

end ByteReader

end ClassForge
