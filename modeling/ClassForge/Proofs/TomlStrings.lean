import ClassForge.Libraries.Toml.Parser
import ClassForge.Proofs.QuotedStrings

/-!
# Strings read part by part

A string in double quotes is read one part after the other, up to the first escape that is
reserved.
-/

namespace ClassForge

namespace Text

theorem isUtf8_digit {n : Nat} (h : n < 16) : (hex 1 n).isUtf8 = true := by
  have hall : ∀ k < 16, isUtf8 [(Nat.digitChar k).toUInt8] = true := by decide
  rw [hex_one h]
  exact hall n h

theorem isUtf8_hex (w n : Nat) (h : n < 16 ^ (w + 1)) : (hex (w + 1) n).isUtf8 = true := by
  induction w generalizing n with
  | zero => exact isUtf8_digit (by omega)
  | succ w ih =>
    rw [hex_succ]
    exact isUtf8_append (ih _ (div_lt_of_lt_pow h)) (isUtf8_digit (Nat.mod_lt _ (by decide)))

end Text

theorem Ascii.hexDigit?_digitChar {n : Nat} (h : n < 16) :
    hexDigit? (Nat.digitChar n).toUInt8 = some n := by
  have hall : ∀ k < 16, hexDigit? (Nat.digitChar k).toUInt8 = some k := by decide
  exact hall n h

namespace Toml

open Ascii Text

variable {rest done : Text} {c : Char}

/-! ## Escapes by number -/

theorem basicLoop_digits (w n left value : Nat) (hn : n < 16 ^ (w + 1)) (hleft : 0 < left) :
    basicLoop (hex (w + 1) n ++ rest) (.number (w + 1 + left) value) done =
      basicLoop rest (.number left (value * 16 ^ (w + 1) + n)) done := by
  have hmore : ¬ 1 + left ≤ 1 := by omega
  induction w generalizing n left rest with
  | zero =>
    have hlt : n < 16 := by omega
    rw [hex_one hlt]
    simp [basicLoop, escapeStep?, hexDigit?_digitChar hlt, hmore]
  | succ w ih =>
    have hlt : n % 16 < 16 := Nat.mod_lt _ (by decide)
    have hvalue : (value * 16 ^ (w + 1) + n / 16) * 16 + n % 16 = value * 16 ^ (w + 1 + 1) + n := by
      rw [Nat.pow_succ 16 (w + 1), Nat.add_mul, Nat.mul_assoc]
      omega
    rw [hex_succ, List.append_assoc, show w + 1 + 1 + left = w + 1 + (1 + left) by omega,
      ih (n / 16) (1 + left) (div_lt_of_lt_pow hn) (by omega) (by omega), hex_one hlt]
    simp [basicLoop, escapeStep?, hexDigit?_digitChar hlt, hmore, hvalue]

theorem basicLoop_hex (w n : Nat) (hn : n < 16 ^ (w + 2)) :
    basicLoop (hex (w + 2) n ++ rest) (.number (w + 2) 0) done =
      (codePoint? n).bind fun t => basicLoop rest .plain (t.reverse ++ done) := by
  have hlt : n % 16 < 16 := Nat.mod_lt _ (by decide)
  have hvalue : n / 16 * 16 + n % 16 = n := by omega
  rw [hex_succ, List.append_assoc, show w + 2 = w + 1 + 1 by omega,
    basicLoop_digits w (n / 16) 1 0 (div_lt_of_lt_pow hn) (by decide), hex_one hlt]
  simp only [List.cons_append, List.nil_append, basicLoop, escapeStep?, hexDigit?_digitChar hlt,
    Option.bind_some, Nat.zero_mul, Nat.zero_add, hvalue, le_refl, ↓reduceIte]
  cases codePoint? n <;> rfl

theorem codePoint?_toNat (c : Char) : codePoint? c.toNat = some (String.utf8EncodeChar c) := by
  have hc : scalar? 0 c.toNat = some c := scalar?_eq_some.mpr ⟨Nat.zero_le _, rfl⟩
  rw [codePoint?, hc]
  rfl

theorem basicLoop_codePoint (w : Nat) (h : c.toNat < 16 ^ (w + 2)) :
    basicLoop (hex (w + 2) c.toNat ++ rest) (.number (w + 2) 0) done =
      basicLoop rest .plain ((String.utf8EncodeChar c).reverse ++ done) := by
  rw [basicLoop_hex w c.toNat h, codePoint?_toNat, Option.bind_some]

/-! ## Bytes that stand for themselves -/

structure Plain (b : UInt8) : Prop where
  ge : 0x20 ≤ b.toNat
  ne_quote : b.toNat ≠ 0x22
  ne_backslash : b.toNat ≠ 0x5C
  ne_delete : b.toNat ≠ 0x7F

theorem basicLoop_plain {bs : Text} (h : ∀ b ∈ bs, Plain b) :
    basicLoop (bs ++ rest) .plain done = basicLoop rest .plain (bs.reverse ++ done) := by
  induction bs generalizing done with
  | nil => rfl
  | cons b bs ih =>
    rw [List.forall_mem_cons] at h
    obtain ⟨⟨hge, hquote, hslash, hdelete⟩, hbs⟩ := h
    have hne (k : UInt8) (hk : b.toNat ≠ k.toNat) : b ≠ k := fun e => hk (congrArg _ e)
    have hcontrol : isControl b = false := by
      rw [← Bool.not_eq_true, isControl_iff]
      omega
    have hfeed : b.toNat ≠ 10 := by omega
    have hreturn : b.toNat ≠ 13 := by omega
    have hend : ¬ (isControl b || b = lineFeed || b = carriageReturn) = true := by
      simp [hcontrol, hne lineFeed hfeed, hne carriageReturn hreturn]
    rw [List.cons_append, basicLoop, if_neg (hne Ascii.quote hquote), if_neg (hne backslash hslash),
      if_neg hend, ih hbs]
    simp

theorem plain_encode (h : 0x20 ≤ c.toNat ∧ c.toNat ≠ 0x7F) (hquote : c.toNat ≠ 0x22)
    (hslash : c.toNat ≠ 0x5C) : ∀ b ∈ String.utf8EncodeChar c, Plain b := by
  intro b hb
  by_cases hc : c.toNat < 0x80
  · obtain ⟨a, ha, hn⟩ := encode_ascii hc
    rw [ha, List.mem_singleton] at hb
    subst hb
    exact ⟨by omega, by omega, by omega, by omega⟩
  · have := le_of_mem_encode (Nat.le_of_not_lt hc) b hb
    exact ⟨by omega, by omega, by omega, by omega⟩

/-! ## Parts -/

theorem isUtf8_piece (p : Piece) (h : p.fits = true) : p.text.isUtf8 = true := by
  cases p with
  | plain c => exact isUtf8_encode c
  | escape letter => exact isUtf8_append (t := [0x5C]) (by decide) (isUtf8_encode letter)
  | number long c =>
    have hmax : c.toNat ≤ 0x10FFFF := c.toNat_le_max
    cases long with
    | false =>
      have hlt : c.toNat < 0x10000 := by simpa [Piece.fits] using h
      exact isUtf8_append (t := "\\u") (by decide) (isUtf8_hex 3 c.toNat (by omega))
    | true => exact isUtf8_append (t := "\\U") (by decide) (isUtf8_hex 7 c.toNat (by omega))

theorem isUtf8_parts {parts : List Piece} (h : ∀ p ∈ parts, p.fits = true) :
    isUtf8 (parts.flatMap Piece.text) = true := by
  induction parts with
  | nil => rfl
  | cons p parts ih =>
    rw [List.forall_mem_cons] at h
    exact isUtf8_append (isUtf8_piece p h.1) (ih h.2)

theorem basicLoop_escape {letter : Char} (h : (Piece.escape letter).fits = true) (rest done : Text) :
    basicLoop ((Piece.escape letter).text ++ rest) .plain done =
      (Piece.escapes.lookup letter).bind fun c =>
        basicLoop rest .plain ((String.utf8EncodeChar c).reverse ++ done) := by
  have hletter : letter ∈ ['b', 't', 'n', 'f', 'r', '"', '\\', 'a', 'v', 'x'] := by
    by_contra hnot
    simp only [List.mem_cons, List.not_mem_nil, or_false, not_or] at hnot
    simp [Piece.fits, Piece.escapes, Piece.reserved, List.lookup_cons, beq_false_of_ne, hnot] at h
  simp only [List.mem_cons, List.not_mem_nil, or_false] at hletter
  rcases hletter with rfl | rfl | rfl | rfl | rfl | rfl | rfl | rfl | rfl | rfl <;> rfl

theorem basicLoop_piece {p : Piece} (h : p.fits = true) (rest done : Text) :
    basicLoop (p.text ++ rest) .plain done =
      p.value?.bind fun c => basicLoop rest .plain ((String.utf8EncodeChar c).reverse ++ done) := by
  cases p with
  | plain c =>
    simp only [Piece.fits, Bool.and_eq_true, decide_eq_true_eq, bne_iff_ne] at h
    obtain ⟨⟨⟨hge, hdelete⟩, hquote⟩, hslash⟩ := h
    have hne {c d : Char} (hcd : c ≠ d) : c.toNat ≠ d.toNat := fun e => hcd (Char.toNat_inj.mp e)
    exact basicLoop_plain (plain_encode ⟨hge, hdelete⟩ (hne hquote) (hne hslash))
  | escape letter => exact basicLoop_escape h rest done
  | number long c =>
    have hmax : c.toNat ≤ 0x10FFFF := c.toNat_le_max
    cases long with
    | false =>
      have hlt : c.toNat < 0x10000 := by simpa [Piece.fits] using h
      exact basicLoop_codePoint 2 (by omega)
    | true => exact basicLoop_codePoint 6 (by omega)

theorem basicLoop_parts {parts : List Piece} (h : ∀ p ∈ parts, p.fits = true) (rest done : Text) :
    basicLoop (parts.flatMap Piece.text ++ rest) .plain done =
      (contents? parts).bind fun t => basicLoop rest .plain (t.reverse ++ done) := by
  induction parts generalizing done with
  | nil => rfl
  | cons p parts ih =>
    rw [List.forall_mem_cons] at h
    rw [List.flatMap_cons, List.append_assoc, basicLoop_piece h.1, contents?, List.mapM_cons]
    cases p.value? with
    | none => rfl
    | some c =>
      rw [Option.bind_some, ih h.2, contents?]
      cases parts.mapM Piece.value? with
      | none => rfl
      | some cs =>
        show basicLoop rest .plain ((ofChars cs).reverse ++ _) = basicLoop rest .plain
          ((String.utf8EncodeChar c ++ ofChars cs).reverse ++ done)
        rw [List.reverse_append, List.append_assoc]

/-! ## Whole strings -/

/-- Three quotes in a row are an empty string with a quote behind it. -/
theorem basicLoop_of_triple? {t after : Text}
    (h : triple? Ascii.quote (Ascii.quote :: t) = some after) :
    basicLoop t .plain done = some (done.reverse, Ascii.quote :: after) := by
  match t, h with
  | a :: b :: rest, h =>
    simp only [triple?, decide_true, Bool.true_and, Bool.and_eq_true, decide_eq_true_eq,
      Option.ite_none_right_eq_some, Option.some.injEq] at h
    obtain ⟨⟨rfl, rfl⟩, rfl⟩ := h
    simp [basicLoop]

section
variable {parts : List Piece} (h : ∀ p ∈ parts, p.fits = true) (rest : Text)
include h

theorem basicLoop_string :
    basicLoop (parts.flatMap Piece.text ++ Ascii.quote :: rest) .plain [] =
      (contents? parts).map fun t => (t, rest) := by
  rw [basicLoop_parts h]
  cases contents? parts with
  | none => rfl
  | some t => rw [Option.bind_some, List.append_nil, basicLoop, if_pos rfl, List.reverse_reverse,
      Option.map_some]

theorem basic?_string :
    basic? (parts.flatMap Piece.text ++ Ascii.quote :: rest) =
      (contents? parts).map fun t => (t, rest) := by
  have hutf8 : isUtf8 (parts.flatMap Piece.text ++ [Ascii.quote]) = true :=
    isUtf8_append (isUtf8_parts h) (by decide)
  have htake : (parts.flatMap Piece.text ++ Ascii.quote :: rest).take
      ((parts.flatMap Piece.text ++ Ascii.quote :: rest).length - rest.length) =
        parts.flatMap Piece.text ++ [Ascii.quote] := by
    rw [List.append_cons, List.length_append, Nat.add_sub_cancel, List.take_left']
    rfl
  rw [basic?, basicLoop_string h]
  cases contents? parts with
  | none => rfl
  | some t => rw [Option.map_some, fromUtf8?, htake, if_pos hutf8]

theorem string?_parts :
    string? Ascii.quote (parts.flatMap Piece.text ++ Ascii.quote :: lineFeed :: rest) =
      (contents? parts).map fun t => (.string t, lineFeed :: rest) := by
  -- even an empty string does not look like the start of one of several lines
  have htriple : triple? Ascii.quote
      (Ascii.quote :: (parts.flatMap Piece.text ++ Ascii.quote :: lineFeed :: rest)) = none := by
    rw [Option.eq_none_iff_forall_ne_some]
    intro after hafter
    have hloop := basicLoop_string h (lineFeed :: rest)
    rw [basicLoop_of_triple? hafter] at hloop
    cases hcontents : contents? parts with
    | none =>
      rw [hcontents] at hloop
      cases hloop
    | some t =>
      rw [hcontents] at hloop
      simp [Ascii.quote, lineFeed] at hloop
  unfold string?
  rw [htriple]
  simp only [if_true, basic?_string h]
  cases contents? parts <;> rfl

end

end Toml

end ClassForge
