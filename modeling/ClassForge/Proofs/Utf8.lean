import Mathlib
import ClassForge.Text.Rune

/-!
# UTF-8 there and back

Characters are read back from their bytes, and reading a text loses none of its
bytes. So a text that is UTF-8 throughout is the bytes of its characters.
-/

namespace ClassForge.Text

/-! ## Parts of a character -/

theorem scalar?_eq_some {least n : Nat} {c : Char} :
    scalar? least n = some c ↔ least ≤ n ∧ c.toNat = n := by
  unfold scalar?
  split
  · rename_i h
    rw [Option.some.injEq, ← Char.toNat_inj, Char.toNat_ofNatAux]
    constructor
    · intro hc
      exact ⟨h.1, hc.symm⟩
    · intro hc
      exact hc.2.symm
  · rename_i h
    simp only [reduceCtorEq, false_iff]
    rintro ⟨hle, rfl⟩
    exact h ⟨hle, c.valid⟩

theorem tail?_eq_some {b : UInt8} {n : Nat} :
    tail? b = some n ↔ b.toNat = n + 128 ∧ n < 64 := by
  have hb := b.toNat_lt
  simp only [tail?, Bool.and_eq_true, decide_eq_true_eq, UInt8.le_iff_toNat_le, UInt8.reduceToNat]
  split
  · rw [Option.some.injEq]
    omega
  · simp only [reduceCtorEq, false_iff]
    omega

theorem char2?_eq_some {a b : UInt8} {c : Char} :
    char2? a b = some c ↔ 0x80 ≤ c.toNat ∧ c.toNat < 0x800 ∧
      a.toNat = c.toNat / 64 + 0xC0 ∧ b.toNat = c.toNat % 64 + 0x80 := by
  simp only [char2?, Bool.and_eq_true, decide_eq_true_eq, UInt8.le_iff_toNat_le, UInt8.reduceToNat,
    Option.ite_none_right_eq_some, Option.bind_eq_some_iff, tail?_eq_some, scalar?_eq_some]
  constructor
  · rintro ⟨ha, y, hy, hle, hc⟩
    omega
  · rintro ⟨hle, hlt, ha, hb⟩
    refine ⟨by omega, c.toNat % 64, by omega, by omega⟩

theorem char3?_eq_some {a b c : UInt8} {x : Char} :
    char3? a b c = some x ↔ 0x800 ≤ x.toNat ∧ x.toNat < 0x10000 ∧
      a.toNat = x.toNat / 4096 + 0xE0 ∧ b.toNat = x.toNat / 64 % 64 + 0x80 ∧
      c.toNat = x.toNat % 64 + 0x80 := by
  simp only [char3?, Bool.and_eq_true, decide_eq_true_eq, UInt8.le_iff_toNat_le, UInt8.reduceToNat,
    Option.ite_none_right_eq_some, Option.bind_eq_some_iff, tail?_eq_some, scalar?_eq_some]
  constructor
  · rintro ⟨ha, y, hy, z, hz, hle, hx⟩
    omega
  · rintro ⟨hle, hlt, ha, hb, hc⟩
    refine ⟨by omega, x.toNat / 64 % 64, by omega, x.toNat % 64, by omega, by omega⟩

theorem char4?_eq_some {a b c d : UInt8} {x : Char} :
    char4? a b c d = some x ↔ 0x10000 ≤ x.toNat ∧
      a.toNat = x.toNat / 262144 + 0xF0 ∧ b.toNat = x.toNat / 4096 % 64 + 0x80 ∧
      c.toNat = x.toNat / 64 % 64 + 0x80 ∧ d.toNat = x.toNat % 64 + 0x80 := by
  have hmax : x.toNat ≤ 0x10FFFF := x.toNat_le_max
  simp only [char4?, Bool.and_eq_true, decide_eq_true_eq, UInt8.le_iff_toNat_le, UInt8.reduceToNat,
    Option.ite_none_right_eq_some, Option.bind_eq_some_iff, tail?_eq_some, scalar?_eq_some]
  constructor
  · rintro ⟨ha, y, hy, z, hz, w, hw, hle, hx⟩
    omega
  · rintro ⟨hle, ha, hb, hc, hd⟩
    refine ⟨by omega, x.toNat / 4096 % 64, by omega, x.toNat / 64 % 64, by omega, x.toNat % 64,
      by omega, by omega⟩

/-! ## The bytes of a character -/

theorem encode_eq (c : Char) : String.utf8EncodeChar c =
    if c.toNat ≤ 0x7F then [UInt8.ofNat c.toNat]
    else if c.toNat ≤ 0x7FF then
      [UInt8.ofNat (c.toNat / 64 % 32 + 0xC0), UInt8.ofNat (c.toNat % 64 + 0x80)]
    else if c.toNat ≤ 0xFFFF then
      [UInt8.ofNat (c.toNat / 4096 % 16 + 0xE0), UInt8.ofNat (c.toNat / 64 % 64 + 0x80),
        UInt8.ofNat (c.toNat % 64 + 0x80)]
    else
      [UInt8.ofNat (c.toNat / 262144 % 8 + 0xF0), UInt8.ofNat (c.toNat / 4096 % 64 + 0x80),
        UInt8.ofNat (c.toNat / 64 % 64 + 0x80), UInt8.ofNat (c.toNat % 64 + 0x80)] := rfl

theorem ofNat_eq_of_toNat {b : UInt8} {n : Nat} (h : b.toNat = n) : UInt8.ofNat n = b := by
  rw [← h, UInt8.ofNat_toNat]

theorem encode_of_ascii {a : UInt8} (ha : a < 0x80) :
    String.utf8EncodeChar (Char.ofUInt8 a) = [a] := by
  have hlt : a.toNat < 128 := UInt8.lt_iff_toNat_lt.mp ha
  have hc : (Char.ofUInt8 a).toNat = a.toNat := UInt8.toNat_toUInt32 a
  rw [encode_eq, if_pos (by omega), ofNat_eq_of_toNat hc.symm]

theorem encode_of_char2? {a b : UInt8} {x : Char} (h : char2? a b = some x) :
    String.utf8EncodeChar x = [a, b] := by
  rw [char2?_eq_some] at h
  obtain ⟨hle, hlt, ha, hb⟩ := h
  rw [encode_eq, if_neg (by omega), if_pos (by omega), ofNat_eq_of_toNat hb,
    ofNat_eq_of_toNat (b := a) (by omega)]

theorem encode_of_char3? {a b c : UInt8} {x : Char} (h : char3? a b c = some x) :
    String.utf8EncodeChar x = [a, b, c] := by
  rw [char3?_eq_some] at h
  obtain ⟨hle, hlt, ha, hb, hc⟩ := h
  rw [encode_eq, if_neg (by omega), if_neg (by omega), if_pos (by omega), ofNat_eq_of_toNat hb,
    ofNat_eq_of_toNat hc, ofNat_eq_of_toNat (b := a) (by omega)]

theorem encode_of_char4? {a b c d : UInt8} {x : Char} (h : char4? a b c d = some x) :
    String.utf8EncodeChar x = [a, b, c, d] := by
  have hmax : x.toNat ≤ 0x10FFFF := x.toNat_le_max
  rw [char4?_eq_some] at h
  obtain ⟨hle, ha, hb, hc, hd⟩ := h
  rw [encode_eq, if_neg (by omega), if_neg (by omega), if_neg (by omega), ofNat_eq_of_toNat hb,
    ofNat_eq_of_toNat hc, ofNat_eq_of_toNat hd, ofNat_eq_of_toNat (b := a) (by omega)]

theorem encode_ascii {c : Char} (h : c.toNat < 0x80) :
    ∃ b : UInt8, String.utf8EncodeChar c = [b] ∧ b.toNat = c.toNat := by
  refine ⟨UInt8.ofNat c.toNat, ?_, ?_⟩
  · rw [encode_eq, if_pos (by omega)]
  · rw [UInt8.toNat_ofNat']
    omega

/-- The bytes of a character outside ASCII are outside ASCII. -/
theorem le_of_mem_encode {c : Char} (h : 0x80 ≤ c.toNat) :
    ∀ b ∈ String.utf8EncodeChar c, 0x80 ≤ b.toNat := by
  have hbyte {n k : Nat} (hk : 0x80 ≤ k) (hn : n + k < 256) :
      0x80 ≤ (UInt8.ofNat (n + k)).toNat := by
    rw [UInt8.toNat_ofNat']
    omega
  rw [encode_eq, if_neg (by omega)]
  intro b hb
  split at hb
  · simp only [List.mem_cons, List.not_mem_nil, or_false] at hb
    rcases hb with rfl | rfl <;> exact hbyte (by omega) (by omega)
  · split at hb
    · simp only [List.mem_cons, List.not_mem_nil, or_false] at hb
      rcases hb with rfl | rfl | rfl <;> exact hbyte (by omega) (by omega)
    · simp only [List.mem_cons, List.not_mem_nil, or_false] at hb
      rcases hb with rfl | rfl | rfl | rfl <;> exact hbyte (by omega) (by omega)

theorem exists_bytes (x : Char) :
    (∃ a < 0x80, x = Char.ofUInt8 a) ∨ (∃ a b, char2? a b = some x) ∨
      (∃ a b c, char3? a b c = some x) ∨ ∃ a b c d, char4? a b c d = some x := by
  have hmax : x.toNat ≤ 0x10FFFF := x.toNat_le_max
  have hbyte {n : Nat} (h : n < 256) : (UInt8.ofNat n).toNat = n := by
    rw [UInt8.toNat_ofNat']
    omega
  by_cases h₁ : x.toNat < 0x80
  · left
    refine ⟨UInt8.ofNat x.toNat, ?_, ?_⟩
    · rw [UInt8.lt_iff_toNat_lt, hbyte (by omega)]
      exact h₁
    · rw [← Char.toNat_inj]
      exact ((UInt8.toNat_toUInt32 _).trans (hbyte (by omega))).symm
  · right
    by_cases h₂ : x.toNat < 0x800
    · left
      refine ⟨.ofNat (x.toNat / 64 + 0xC0), .ofNat (x.toNat % 64 + 0x80), ?_⟩
      rw [char2?_eq_some, hbyte (by omega), hbyte (by omega)]
      omega
    · right
      by_cases h₃ : x.toNat < 0x10000
      · left
        refine ⟨.ofNat (x.toNat / 4096 + 0xE0), .ofNat (x.toNat / 64 % 64 + 0x80),
          .ofNat (x.toNat % 64 + 0x80), ?_⟩
        rw [char3?_eq_some, hbyte (by omega), hbyte (by omega), hbyte (by omega)]
        omega
      · right
        refine ⟨.ofNat (x.toNat / 262144 + 0xF0), .ofNat (x.toNat / 4096 % 64 + 0x80),
          .ofNat (x.toNat / 64 % 64 + 0x80), .ofNat (x.toNat % 64 + 0x80), ?_⟩
        rw [char4?_eq_some, hbyte (by omega), hbyte (by omega), hbyte (by omega), hbyte (by omega)]
        omega

/-! ## One character read -/

section
variable {a b c d : UInt8} {x : Char} {rest : Text} {done : List Rune}

/-- One turn of the loop on a byte with another one behind it. -/
theorem runesLoop_cons : runesLoop (a :: b :: rest) done =
    if a < 0x80 then runesLoop (b :: rest) (single a :: done)
    else
      match char2? a b with
      | some x => runesLoop rest (.char x :: done)
      | none =>
        match rest with
        | [] => runesLoop [b] (.stray a :: done)
        | c :: rest₂ =>
          match char3? a b c with
          | some x => runesLoop rest₂ (.char x :: done)
          | none =>
            match rest₂ with
            | [] => runesLoop [b, c] (.stray a :: done)
            | d :: rest₃ =>
              match char4? a b c d with
              | some x => runesLoop rest₃ (.char x :: done)
              | none => runesLoop (b :: c :: d :: rest₃) (.stray a :: done) :=
  runesLoop.eq_def ..

theorem runesLoop_nil : runesLoop [] done = done.reverse := by
  rw [runesLoop]

theorem runesLoop_ascii (ha : a < 0x80) :
    runesLoop (a :: rest) done = runesLoop rest (single a :: done) := by
  cases rest with
  | nil => rw [runesLoop_nil, runesLoop]
  | cons b rest => rw [runesLoop_cons, if_pos ha]

theorem runesLoop_char2 (ha : ¬a < 0x80) (h : char2? a b = some x) :
    runesLoop (a :: b :: rest) done = runesLoop rest (.char x :: done) := by
  rw [runesLoop_cons, if_neg ha, h]

theorem runesLoop_char3 (ha : ¬a < 0x80) (h₂ : char2? a b = none) (h : char3? a b c = some x) :
    runesLoop (a :: b :: c :: rest) done = runesLoop rest (.char x :: done) := by
  rw [runesLoop_cons, if_neg ha]
  simp only [h₂, h]

theorem runesLoop_char4 (ha : ¬a < 0x80) (h₂ : char2? a b = none) (h₃ : char3? a b c = none)
    (h : char4? a b c d = some x) :
    runesLoop (a :: b :: c :: d :: rest) done = runesLoop rest (.char x :: done) := by
  rw [runesLoop_cons, if_neg ha]
  simp only [h₂, h₃, h]

theorem not_lt_of_le (h : 0x80 ≤ a.toNat) : ¬a < 0x80 := by
  rw [UInt8.lt_iff_toNat_lt]
  exact Nat.not_lt.mpr h

theorem char2?_eq_none (h : 0xE0 ≤ a.toNat) : char2? a b = none := by
  rw [Option.eq_none_iff_forall_ne_some]
  intro x hx
  rw [char2?_eq_some] at hx
  omega

theorem char3?_eq_none (h : 0xF0 ≤ a.toNat) : char3? a b c = none := by
  rw [Option.eq_none_iff_forall_ne_some]
  intro x hx
  rw [char3?_eq_some] at hx
  omega

end

/-! ## Reading what was written -/

theorem runesLoop_encode (x : Char) (rest : Text) (done : List Rune) :
    runesLoop (String.utf8EncodeChar x ++ rest) done = runesLoop rest (.char x :: done) := by
  obtain ⟨a, ha, rfl⟩ | ⟨a, b, h⟩ | ⟨a, b, c, h⟩ | ⟨a, b, c, d, h⟩ := exists_bytes x
  · rw [encode_of_ascii ha, List.singleton_append, runesLoop_ascii ha, single, if_pos ha]
  · have hx := h
    rw [char2?_eq_some] at hx
    rw [encode_of_char2? h]
    exact runesLoop_char2 (not_lt_of_le (by omega)) h
  · have hx := h
    rw [char3?_eq_some] at hx
    rw [encode_of_char3? h]
    exact runesLoop_char3 (not_lt_of_le (by omega)) (char2?_eq_none (by omega)) h
  · have hx := h
    rw [char4?_eq_some] at hx
    rw [encode_of_char4? h]
    exact runesLoop_char4 (not_lt_of_le (by omega)) (char2?_eq_none (by omega))
      (char3?_eq_none (by omega)) h

theorem runes_ofChars (cs : List Char) : runes (ofChars cs) = cs.map .char := by
  have hloop : ∀ done, runesLoop (ofChars cs) done = done.reverse ++ cs.map .char := by
    induction cs with
    | nil =>
      intro done
      rw [ofChars, List.flatMap_nil, runesLoop_nil, List.map_nil, List.append_nil]
    | cons c cs ih =>
      intro done
      rw [ofChars, List.flatMap_cons, runesLoop_encode, ← ofChars, ih]
      simp
  exact hloop []

theorem chars_ofChars (cs : List Char) : (ofChars cs).chars = cs := by
  rw [chars, runes_ofChars, List.map_map]
  exact List.map_id cs

theorem isUtf8_ofChars (cs : List Char) : (ofChars cs).isUtf8 = true := by
  rw [isUtf8, runes_ofChars, List.all_map]
  exact List.all_eq_true.mpr fun _ _ => rfl

/-! ## Writing what was read -/

theorem bytes_single (a : UInt8) : (single a).bytes = [a] := by
  unfold single
  split
  · rename_i ha
    exact encode_of_ascii ha
  · rfl

theorem flatMap_bytes_runesLoop (t : Text) (done : List Rune) :
    (runesLoop t done).flatMap Rune.bytes = done.reverse.flatMap Rune.bytes ++ t := by
  have hpush (r : Rune) (done : List Rune) (rest : Text) :
      (r :: done).reverse.flatMap Rune.bytes ++ rest =
        done.reverse.flatMap Rune.bytes ++ (r.bytes ++ rest) := by
    simp
  induction t, done using runesLoop.induct with
  | case1 done => rw [runesLoop_nil, List.append_nil]
  | case2 a done =>
    have := hpush (single a) done []
    rw [List.append_nil, List.append_nil, bytes_single] at this
    rw [runesLoop, this]
  | case3 a b rest done ha ih =>
    rw [runesLoop_ascii ha, ih, hpush, bytes_single]
    rfl
  | case4 a b rest done ha x hx ih =>
    rw [runesLoop_char2 ha hx, ih, hpush, Rune.bytes, encode_of_char2? hx]
    rfl
  | case6 a b done ha h₂ c rest x hx ih =>
    rw [runesLoop_char3 ha h₂ hx, ih, hpush, Rune.bytes, encode_of_char3? hx]
    rfl
  | case8 a b done ha h₂ c h₃ d rest x hx ih =>
    rw [runesLoop_char4 ha h₂ h₃ hx, ih, hpush, Rune.bytes, encode_of_char4? hx]
    rfl
  -- no character starts here, so one byte is passed over
  | case5 a b done ha h₂ ih =>
    rw [runesLoop_cons, if_neg ha]
    simp only [h₂]
    rw [ih, hpush]
    rfl
  | case7 a b done ha h₂ c h₃ ih =>
    rw [runesLoop_cons, if_neg ha]
    simp only [h₂, h₃]
    rw [ih, hpush]
    rfl
  | case9 a b done ha h₂ c h₃ d rest h₄ ih =>
    rw [runesLoop_cons, if_neg ha]
    simp only [h₂, h₃, h₄]
    rw [ih, hpush]
    rfl

/-- Reading loses nothing. -/
theorem flatMap_bytes_runes (t : Text) : t.runes.flatMap Rune.bytes = t :=
  flatMap_bytes_runesLoop t []

theorem ofChars_chars {t : Text} (h : t.isUtf8 = true) : ofChars t.chars = t := by
  have hbytes : ∀ r ∈ t.runes, String.utf8EncodeChar r.toChar = r.bytes := by
    intro r hr
    have hchar := List.all_eq_true.mp h r hr
    cases r with
    | char c => rfl
    | stray b => cases hchar
  rw [ofChars, chars, List.flatMap_map, List.flatMap_congr hbytes, flatMap_bytes_runes]

theorem runes_of_isUtf8 {t : Text} (h : t.isUtf8 = true) : t.runes = t.chars.map Rune.char := by
  rw [← runes_ofChars, ofChars_chars h]

theorem ofChars_append (cs ds : List Char) : ofChars (cs ++ ds) = ofChars cs ++ ofChars ds :=
  List.flatMap_append

theorem isUtf8_append {t u : Text} (ht : t.isUtf8 = true) (hu : u.isUtf8 = true) :
    (t ++ u).isUtf8 = true := by
  rw [← ofChars_chars ht, ← ofChars_chars hu, ← ofChars_append]
  exact isUtf8_ofChars _

theorem chars_append {t u : Text} (ht : t.isUtf8 = true) (hu : u.isUtf8 = true) :
    (t ++ u).chars = t.chars ++ u.chars := by
  have hchars := chars_ofChars (t.chars ++ u.chars)
  rwa [ofChars_append, ofChars_chars ht, ofChars_chars hu] at hchars

theorem isUtf8_encode (c : Char) : isUtf8 (String.utf8EncodeChar c) = true := by
  have hone : ofChars [c] = String.utf8EncodeChar c := by simp [ofChars]
  rw [← hone]
  exact isUtf8_ofChars [c]

theorem ofChars_map_ofUInt8 {t : Text} (h : ∀ b ∈ t, b < 0x80) :
    ofChars (t.map Char.ofUInt8) = t := by
  induction t with
  | nil => rfl
  | cons b t ih =>
    have hb := h b (List.mem_cons_self ..)
    have ht := ih fun b hb => h b (List.mem_cons_of_mem _ hb)
    rw [List.map_cons, ofChars, List.flatMap_cons, encode_of_ascii hb, ← ofChars, ht]
    rfl

theorem chars_of_ascii {t : Text} (h : ∀ b ∈ t, b < 0x80) : t.chars = t.map Char.ofUInt8 := by
  have := chars_ofChars (t.map Char.ofUInt8)
  rwa [ofChars_map_ofUInt8 h] at this

end ClassForge.Text
