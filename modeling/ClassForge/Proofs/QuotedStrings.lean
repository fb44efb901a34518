import ClassForge.Proofs.TomlRules
import ClassForge.Proofs.Utf8
import ClassForge.Text.Ascii
import ClassForge.Text.Quoted

/-!
# Quoted text as a string of TOML

Quoting and TOML agree on most escapes. What quoting writes as `\a`, `\v` or `\x` with two
digits is no escape of TOML, so a text comes back from its quoted form exactly if it has
none of the control characters that are written so.
-/

namespace ClassForge

/-! ## Printable characters -/

namespace Text

theorem exists_range_of_inRanges {table : Array (Nat × Nat)} {n steps lo hi : Nat}
    (h : inRanges table n steps lo hi = true) : ∃ r ∈ table.toList, r.1 ≤ n ∧ n ≤ r.2 := by
  induction steps generalizing lo hi with
  | zero => simp [inRanges] at h
  | succ steps ih =>
    unfold inRanges at h
    cases hmid : table[(lo + hi) / 2]? with
    | none => simp [hmid] at h
    | some r =>
      obtain ⟨first, last⟩ := r
      simp only [hmid] at h
      by_cases hfirst : n < first
      · rw [if_pos hfirst] at h
        exact ih h
      · by_cases hlast : last < n
        · rw [if_neg hfirst, if_pos hlast] at h
          exact ih h
        · have hmem := Array.mem_of_getElem? hmid
          exact ⟨_, hmem.val, by omega, by omega⟩

theorem printable_bounds {c : Char} (h : isPrintable c = true) :
    0x20 ≤ c.toNat ∧ c.toNat ≠ 0x7F := by
  have hranges : ∀ r ∈ printableRanges.toList, 0x20 ≤ r.1 ∧ (r.2 < 0x7F ∨ 0x7F < r.1) := by
    decide +kernel
  obtain ⟨r, hr, hle, hge⟩ := exists_range_of_inRanges h
  have := hranges r hr
  omega

/-! ## Hexadecimal digits -/

theorem hex_one {n : Nat} (h : n < 16) : hex 1 n = [(Nat.digitChar n).toUInt8] := by
  simp [hex, Nat.toDigits_of_lt_base h]

theorem hex_succ (w n : Nat) : hex (w + 2) n = hex (w + 1) (n / 16) ++ hex 1 (n % 16) := by
  have hlast : Nat.toDigits 16 (n % 16) = [Nat.digitChar (n % 16)] :=
    Nat.toDigits_of_lt_base (Nat.mod_lt _ (by decide))
  by_cases hn : n < 16
  · have hzero : n / 16 = 0 := by omega
    have hmod : n % 16 = n := by omega
    rw [hmod] at hlast ⊢
    simp [hex, hlast, hzero, List.replicate_succ']
    rfl
  · have hdigits := Nat.toDigits_of_base_le (b := 16) (by decide) (Nat.le_of_not_lt hn)
    have hwidth (k : Nat) : w + 2 - (k + 1) = w + 1 - k := by omega
    simp [hex, hdigits, hlast, hwidth]

theorem div_lt_of_lt_pow {w n : Nat} (h : n < 16 ^ (w + 2)) : n / 16 < 16 ^ (w + 1) := by
  rw [Nat.div_lt_iff_lt_mul (by decide), ← Nat.pow_succ]
  exact h

theorem digit_of_mem_hex {n : Nat} (h : n < 16 ^ 2) {b : UInt8} (hb : b ∈ hex 2 n) :
    ∃ k < 16, b = (Nat.digitChar k).toUInt8 := by
  have hlow : n % 16 < 16 := Nat.mod_lt _ (by decide)
  rw [hex_succ, hex_one (div_lt_of_lt_pow h), hex_one hlow, List.mem_append, List.mem_singleton,
    List.mem_singleton] at hb
  rcases hb with rfl | rfl
  · exact ⟨_, div_lt_of_lt_pow h, rfl⟩
  · exact ⟨_, hlow, rfl⟩

end Text

namespace Toml

open Ascii Text

variable {c : Char}

/-! ## Characters that can be spelt -/

theorem isControl_iff {b : UInt8} : isControl b = true ↔
    (b.toNat < 0x20 ∧ b.toNat ≠ 9 ∧ b.toNat ≠ 10 ∧ b.toNat ≠ 13) ∨ b.toNat = 0x7F := by
  simp only [isControl, tab, lineFeed, carriageReturn, Bool.or_eq_true, Bool.and_eq_true,
    decide_eq_true_eq, bne_iff_ne, ne_eq, UInt8.lt_iff_toNat_lt, ← UInt8.toNat_inj, and_assoc]
  rfl

/-- Whether TOML can read how quoting writes a byte. -/
def spells (b : UInt8) : Bool := !isControl b || b = 8 || b = 12

theorem spells_iff {b : UInt8} : spells b = true ↔
    (0x20 ≤ b.toNat ∧ b.toNat ≠ 0x7F) ∨ b.toNat ∈ [8, 9, 10, 12, 13] := by
  have hcontrol := isControl_iff (b := b)
  have hback : b = 8 ↔ b.toNat = 8 := by
    rw [← UInt8.toNat_inj]
    rfl
  have hform : b = 12 ↔ b.toNat = 12 := by
    rw [← UInt8.toNat_inj]
    rfl
  simp only [spells, Bool.or_eq_true, Bool.not_eq_true', ← Bool.not_eq_true, hcontrol,
    decide_eq_true_eq, hback, hform, List.mem_cons, List.not_mem_nil, or_false]
  omega

theorem all_spells_encode : (String.utf8EncodeChar c).all spells = true ↔
    (0x20 ≤ c.toNat ∧ c.toNat ≠ 0x7F) ∨ c.toNat ∈ [8, 9, 10, 12, 13] := by
  by_cases h : c.toNat < 0x80
  · obtain ⟨b, hb, hn⟩ := encode_ascii h
    rw [hb, ← hn, ← spells_iff]
    simp
  · have hall : ∀ b ∈ String.utf8EncodeChar c, spells b = true := by
      intro b hb
      have := le_of_mem_encode (Nat.le_of_not_lt h) b hb
      exact spells_iff.mpr (.inl (by omega))
    have hbounds : 0x20 ≤ c.toNat ∧ c.toNat ≠ 0x7F := by omega
    simp [List.all_eq_true.mpr hall, hbounds]

def shortEscapes : List (Char × Char) :=
  [('\x07', 'a'), ('\x08', 'b'), ('\t', 't'), ('\n', 'n'), ('\x0b', 'v'), ('\x0c', 'f'), ('\r', 'r'),
    ('"', '"'), ('\\', '\\')]

theorem mem_shortEscapes {e : Char} (h : Text.shortEscape? c = some e) : (c, e) ∈ shortEscapes := by
  unfold Text.shortEscape? at h
  split at h <;> cases h
  all_goals
    rename_i hc
    rw [← Char.ofNat_toNat c, hc]
    decide

theorem not_shortEscape (h : Text.shortEscape? c = none) :
    c.toNat ∉ [7, 8, 9, 10, 11, 12, 13, 34, 92] := by
  unfold Text.shortEscape? at h
  split at h <;> simp_all

/-! ## The parts of quoted text -/

def quoted (c : Char) : List Piece :=
  match Text.shortEscape? c with
  | some letter => [.escape letter]
  | none =>
    if isPrintable c then [.plain c]
    else if c.toNat < 0x20 || c.toNat == 0x7F then
      .escape 'x' :: (hex 2 c.toNat).map fun b => .plain (Char.ofUInt8 b)
    else [.number (!decide (c.toNat < 0x10000)) c]

theorem flatMap_text_quoted (c : Char) : (quoted c).flatMap Piece.text = quoteRune (.char c) := by
  simp only [quoted, quoteRune]
  cases Text.shortEscape? c with
  | some letter => simp [Piece.text]
  | none =>
    by_cases hprint : isPrintable c = true
    · simp [hprint, Piece.text]
    · simp only [if_neg hprint]
      by_cases hcontrol : (c.toNat < 0x20 || c.toNat == 0x7F) = true
      · have hlt : c.toNat < 16 ^ 2 := by
          have : c.toNat < 0x20 ∨ c.toNat = 0x7F := by simpa using hcontrol
          omega
        have hascii : ∀ b ∈ hex 2 c.toNat, b < 0x80 := by
          intro b hb
          obtain ⟨k, hk, rfl⟩ := digit_of_mem_hex hlt hb
          have hall : ∀ k < 16, (Nat.digitChar k).toUInt8 < 0x80 := by decide
          exact hall k hk
        have hdigits : ((hex 2 c.toNat).flatMap fun b => (Piece.plain (Char.ofUInt8 b)).text) =
            hex 2 c.toNat :=
          (List.flatMap_map _ String.utf8EncodeChar _).symm.trans (ofChars_map_ofUInt8 hascii)
        rw [if_pos hcontrol, if_pos hcontrol, List.flatMap_cons, List.flatMap_map, hdigits]
        rfl
      · rw [if_neg hcontrol, if_neg hcontrol]
        by_cases hwide : c.toNat < 0x10000
        · simp [hwide, Piece.text]
        · simp [hwide, Piece.text]

theorem fits_quoted (c : Char) : ∀ p ∈ quoted c, p.fits = true := by
  unfold quoted
  cases he : Text.shortEscape? c with
  | some letter =>
    have hall : ∀ e ∈ shortEscapes, (Piece.escape e.2).fits = true := by decide
    simpa using hall _ (mem_shortEscapes he)
  | none =>
    have hmem := not_shortEscape he
    simp only [List.mem_cons, List.not_mem_nil, or_false, not_or] at hmem
    by_cases hprint : isPrintable c = true
    · have hbounds := printable_bounds hprint
      have hquote : c ≠ '"' := by
        rintro rfl
        exact hmem.2.2.2.2.2.2.2.1 rfl
      have hslash : c ≠ '\\' := by
        rintro rfl
        exact hmem.2.2.2.2.2.2.2.2 rfl
      simp [hprint, Piece.fits, hbounds, hquote, hslash]
    · simp only [if_neg hprint]
      by_cases hcontrol : (c.toNat < 0x20 || c.toNat == 0x7F) = true
      · have hlt : c.toNat < 16 ^ 2 := by
          have : c.toNat < 0x20 ∨ c.toNat = 0x7F := by simpa using hcontrol
          omega
        rw [if_pos hcontrol, List.forall_mem_cons, List.forall_mem_map]
        refine ⟨by decide, fun b hb => ?_⟩
        obtain ⟨k, hk, rfl⟩ := digit_of_mem_hex hlt hb
        have hall : ∀ k < 16, (Piece.plain (Char.ofUInt8 (Nat.digitChar k).toUInt8)).fits = true := by
          decide
        exact hall k hk
      · simp [hcontrol, Piece.fits]

/-- The parts stand for the character, unless it cannot be spelt. -/
theorem mapM_value?_quoted (c : Char) :
    (quoted c).mapM Piece.value? =
      if (String.utf8EncodeChar c).all spells then some [c] else none := by
  unfold quoted
  cases he : Text.shortEscape? c with
  | some letter =>
    have hall : ∀ e ∈ shortEscapes, [Piece.escape e.2].mapM Piece.value? =
        if (String.utf8EncodeChar e.1).all spells then some [e.1] else none := by decide
    exact hall _ (mem_shortEscapes he)
  | none =>
    have hmem := not_shortEscape he
    simp only [List.mem_cons, List.not_mem_nil, or_false, not_or] at hmem
    by_cases hprint : isPrintable c = true
    · simp [hprint, Piece.value?, all_spells_encode.mpr (.inl (printable_bounds hprint))]
    · simp only [if_neg hprint]
      by_cases hcontrol : c.toNat < 0x20 ∨ c.toNat = 0x7F
      · -- there is no escape `\x`
        have hspells : ¬ (String.utf8EncodeChar c).all spells = true := by
          rw [all_spells_encode]
          simp
          omega
        rw [if_neg hspells, if_pos (by simpa using hcontrol), List.mapM_cons]
        rfl
      · have hspells : (String.utf8EncodeChar c).all spells = true := by
          rw [all_spells_encode]
          omega
        rw [if_pos hspells, if_neg (by simpa using hcontrol)]
        rfl

/-! ## Whole texts -/

theorem mapM_value?_flatMap_quoted (cs : List Char) :
    (cs.flatMap quoted).mapM Piece.value? = if (ofChars cs).all spells then some cs else none := by
  induction cs with
  | nil => rfl
  | cons c cs ih =>
    have hchars : ofChars (c :: cs) = String.utf8EncodeChar c ++ ofChars cs := rfl
    rw [List.flatMap_cons, List.mapM_append, mapM_value?_quoted, ih, hchars, List.all_append]
    by_cases hc : (String.utf8EncodeChar c).all spells = true
    · by_cases hcs : (ofChars cs).all spells = true
      · simp [hc, hcs]
      · simp [hc, hcs]
    · simp [hc]

def Scalar.ofText (t : Text) : Scalar := .string (t.chars.flatMap quoted)

theorem fits_ofText (t : Text) : (Scalar.ofText t).fits = true := by
  rw [Scalar.ofText, Scalar.fits, List.all_eq_true]
  intro p hp
  obtain ⟨c, -, hc⟩ := List.mem_flatMap.mp hp
  exact fits_quoted c p hc

theorem isSome_mapM {α β : Type} {f : α → Option β} (xs : List α) :
    (xs.mapM f).isSome = xs.all fun x => (f x).isSome := by
  induction xs with
  | nil => rfl
  | cons x xs ih =>
    rw [List.mapM_cons, List.all_cons, ← ih]
    cases f x with
    | none => rfl
    | some y => cases xs.mapM f <;> rfl

section
variable {t : Text} (h : t.isUtf8 = true)
include h

theorem text_ofText : (Scalar.ofText t).text = t.quote := by
  rw [Scalar.ofText, Scalar.text, Text.quote, runes_of_isUtf8 h, List.flatMap_map, List.flatMap_assoc]
  simp only [flatMap_text_quoted]

theorem contents?_quoted :
    contents? (t.chars.flatMap quoted) = if t.all spells then some t else none := by
  rw [contents?, mapM_value?_flatMap_quoted, ofChars_chars h]
  split
  · rw [Option.map_some, ofChars_chars h]
  · rfl

theorem spelled_ofText : (Scalar.ofText t).spelled = t.all spells := by
  rw [Scalar.ofText, Scalar.spelled, ← isSome_mapM, mapM_value?_flatMap_quoted, ofChars_chars h]
  cases t.all spells <;> rfl

end

end Toml

end ClassForge
