import ClassForge.Proofs.TomlStrings

/-!
# Lines of TOML

Headers and the lines of settings files are read one by one up to the first string that has
a reserved escape, and the values that are read are those that were written.
-/

namespace ClassForge.Toml

open Ascii

variable {rest : Text}

/-! ## Classes of bytes -/

section
variable {p : UInt8 → Bool} {b : UInt8}

theorem ne_of_class (h : p b = true) {k : UInt8} (hk : p k = false) : b ≠ k := by
  rintro rfl
  rw [h] at hk
  cases hk

variable {t : Text} (ht : ∀ a ∈ t, p a = true) (hb : p b = false)
include ht hb

theorem takeWhile_class : (t ++ b :: rest).takeWhile p = t := by
  rw [List.takeWhile_append_of_pos ht, List.takeWhile_cons_of_neg (by simp [hb]), List.append_nil]

theorem dropWhile_class : (t ++ b :: rest).dropWhile p = b :: rest := by
  rw [List.dropWhile_append_of_pos ht, List.dropWhile_cons_of_neg (by simp [hb])]

end

/-! ## Numbers -/

theorem ofNat_succ {n : Nat} (h : 10 ≤ n) :
    Text.ofNat n = Text.ofNat (n / 10) ++ Text.ofNat (n % 10) := by
  have hlast : Nat.toDigits 10 (n % 10) = [Nat.digitChar (n % 10)] :=
    Nat.toDigits_of_lt_base (Nat.mod_lt _ (by decide))
  rw [Text.ofNat, Nat.toDigits_of_base_le (by decide) h, Text.ofNat, Text.ofNat, hlast,
    List.map_append]

theorem isDigit_ofNat {n : Nat} : ∀ b ∈ Text.ofNat n, isDigit b = true := by
  have hone : ∀ k < 10, ∀ b ∈ Text.ofNat k, isDigit b = true := by decide +kernel
  induction n using Nat.strong_induction_on with
  | _ n ih =>
    by_cases h : n < 10
    · exact hone n h
    · rw [ofNat_succ (Nat.le_of_not_lt h)]
      intro b hb
      rcases List.mem_append.mp hb with hb | hb
      · exact ih (n / 10) (by omega) b hb
      · exact hone (n % 10) (by omega) b hb

/-- A number starts with a digit, and with a zero only if it is zero. -/
theorem exists_ofNat (n : Nat) :
    ∃ b t, Text.ofNat n = b :: t ∧ isDigit b = true ∧ (b = zero → n = 0) := by
  have hone : ∀ k < 10, Text.ofNat k = [48 + UInt8.ofNat k] := by decide
  have hzero : ∀ k < 10, 48 + UInt8.ofNat k = zero → k = 0 := by decide
  induction n using Nat.strong_induction_on with
  | _ n ih =>
    by_cases h : n < 10
    · refine ⟨_, [], hone n h, isDigit_ofNat (n := n) _ ?_, hzero n h⟩
      rw [hone n h]
      exact List.mem_cons_self ..
    · obtain ⟨b, t, ht, hb, hnz⟩ := ih (n / 10) (by omega)
      refine ⟨b, t ++ Text.ofNat (n % 10), ?_, hb, ?_⟩
      · rw [ofNat_succ (Nat.le_of_not_lt h), ht, List.cons_append]
      · intro hz
        have := hnz hz
        omega

theorem numberLoop_append (base : Nat) (t u : Text) (n : Nat) :
    numberLoop base (t ++ u) n = (numberLoop base t n).bind (numberLoop base u) := by
  induction t generalizing n with
  | nil => rfl
  | cons b t ih =>
    simp only [List.cons_append, numberLoop]
    generalize (if 48 ≤ b && b ≤ 57 then b.toNat - 48 else _) = d
    by_cases hd : d < base
    · rw [if_pos hd, if_pos hd]
      exact ih _
    · rw [if_neg hd, if_neg hd]
      rfl

theorem numberLoop_ofNat (n : Nat) : numberLoop 10 (Text.ofNat n) 0 = some n := by
  have hone : ∀ k < 10, ∀ m, numberLoop 10 (Text.ofNat k) m = some (m * 10 + k) := by
    intro k hk m
    interval_cases k <;> rfl
  induction n using Nat.strong_induction_on with
  | _ n ih =>
    by_cases h : n < 10
    · rw [hone n h, Nat.zero_mul, Nat.zero_add]
    · rw [ofNat_succ (Nat.le_of_not_lt h), numberLoop_append, ih (n / 10) (by omega),
        Option.bind_some, hone _ (Nat.mod_lt _ (by decide))]
      congr 1
      omega

theorem digitsLoop_digits {t : Text} (h : ∀ b ∈ t, isDigit b = true) (fresh : Bool) (done : Text) :
    digitsLoop t fresh done =
      if t.isEmpty && fresh then none else some (done.reverse ++ t) := by
  induction t generalizing fresh done with
  | nil => simp [digitsLoop]
  | cons b t ih =>
    rw [List.forall_mem_cons] at h
    rw [digitsLoop, if_neg (ne_of_class h.1 rfl), ih h.2]
    simp

theorem integer?_ofNat (n : Nat) : integer? (Text.ofNat n) = some (n : Int) := by
  have hdigits : digits? (Text.ofNat n) = some (Text.ofNat n) := by
    obtain ⟨b, t, ht, -, -⟩ := exists_ofNat n
    rw [digits?, digitsLoop_digits isDigit_ofNat, ht]
    rfl
  have hnumber := numberLoop_ofNat n
  obtain ⟨b, t, ht, hb, hz⟩ := exists_ofNat n
  rw [ht] at hdigits hnumber ⊢
  by_cases hn : n = 0
  · subst hn
    cases ht
    rfl
  · have hzero : b ≠ 48 := fun h => hn (hz h)
    have hdecimal : decimal? (b :: t) = some n := by
      unfold decimal?
      rw [hdigits]
      split
      · rename_i heq
        cases heq
        exact absurd rfl hzero
      · rename_i heq
        cases heq
        exact hnumber
      · rename_i heq
        cases heq
    have hplus : b ≠ 43 := ne_of_class hb rfl
    have hminus : b ≠ 45 := ne_of_class hb rfl
    unfold integer?
    split <;> simp_all

/-! ## Values -/

def Scalar.value : Scalar → Value
  | flag b => .bool b
  | number n => .integer (Text.ofNat n)
  | string parts => .string ((contents? parts).getD [])

theorem contents?_eq (parts : List Piece) :
    contents? parts =
      if (Scalar.string parts).spelled then some ((contents? parts).getD []) else none := by
  rw [Scalar.spelled, ← isSome_mapM, contents?]
  cases parts.mapM Piece.value? <;> rfl

theorem value_flag (b : Bool) (d : Nat) :
    Toml.value (d + 1) (Text.ofBool b ++ lineFeed :: rest) = .ok (.bool b, lineFeed :: rest) := by
  cases b <;> rfl

theorem value_string {parts : List Piece} (h : ∀ p ∈ parts, p.fits = true) (d : Nat) :
    Toml.value (d + 1) ((Scalar.string parts).text ++ lineFeed :: rest) =
      if (Scalar.string parts).spelled then .ok ((Scalar.string parts).value, lineFeed :: rest)
      else .error .malformed := by
  have hquote : (Scalar.string parts).text ++ lineFeed :: rest =
      Ascii.quote :: (parts.flatMap Piece.text ++ Ascii.quote :: lineFeed :: rest) := by
    show _ ++ _ ++ _ ++ _ = _
    simp [Text.ofString]
    rfl
  rw [hquote, value, valueStep, if_pos (by rfl), string?_parts h, contents?_eq]
  split <;> rfl

theorem numeralLoop_digits {t : Text} (h : ∀ b ∈ t, isDigit b = true) (done : Text)
    (hne : done ++ t ≠ []) :
    numeralLoop (t ++ lineFeed :: rest) done false =
      some (.integer (done.reverse ++ t), lineFeed :: rest) := by
  induction t generalizing done with
  | nil =>
    have hdone : done.isEmpty = false := by simpa using hne
    show numeralLoop.numeral done false (lineFeed :: rest) = _
    simp [numeralLoop.numeral, hdone]
  | cons b t ih =>
    rw [List.forall_mem_cons] at h
    rw [List.cons_append, numeralLoop, if_pos (by simp [h.1]), ih h.2 _ (by simp)]
    simp

theorem startsTime_digits {t : Text} (h : ∀ b ∈ t, isDigit b = true) :
    startsTime (t ++ lineFeed :: rest) = false := by
  have hdigits : (t ++ lineFeed :: rest).takeWhile isDigit = t := takeWhile_class h rfl
  simp only [startsTime, hdigits]
  -- behind the digits there is neither a colon nor a minus
  by_cases htwo : t.length = 2
  · simp [htwo, lineFeed, colon]
  · by_cases hfour : t.length = 4
    · simp [hfour, lineFeed, minus]
    · simp [htwo, hfour]

theorem numeral?_ofNat (n : Nat) : numeral? (Text.ofNat n ++ lineFeed :: rest) =
    some (.integer (Text.ofNat n), lineFeed :: rest) := by
  obtain ⟨b, t, ht, hb, hz⟩ := exists_ofNat n
  by_cases hn : n = 0
  · subst hn
    cases rest <;> rfl
  · have hzero : b ≠ zero := fun h => hn (hz h)
    have hloop : numeralLoop (Text.ofNat n ++ lineFeed :: rest) [] false = _ :=
      numeralLoop_digits isDigit_ofNat [] (by simp [ht])
    rw [ht] at hloop ⊢
    rw [← List.nil_append (b :: t), ← List.reverse_nil, ← hloop]
    unfold numeral?
    split
    · rename_i heq
      obtain ⟨rfl, -⟩ := List.cons.inj heq
      simp [hzero]
    · rfl

theorem value_number (n d : Nat) :
    Toml.value (d + 1) (Text.ofNat n ++ lineFeed :: rest) =
      .ok (.integer (Text.ofNat n), lineFeed :: rest) := by
  have hnumeric : numeric? (Text.ofNat n ++ lineFeed :: rest) =
      some (.integer (Text.ofNat n), lineFeed :: rest) := by
    rw [numeric?, startsTime_digits isDigit_ofNat, Bool.and_false, if_neg (by simp), numeral?_ofNat]
  obtain ⟨b, t, ht, hb, -⟩ := exists_ofNat n
  rw [ht] at hnumeric ⊢
  have hne {k : UInt8} (hk : isDigit k = false) : b ≠ k := ne_of_class hb hk
  have hquotes : ¬ (b = Ascii.quote || b = apostrophe) = true := by
    simp [hne (k := Ascii.quote) rfl, hne (k := apostrophe) rfl]
  rw [List.cons_append] at hnumeric ⊢
  rw [value, valueStep, if_neg hquotes, if_neg (hne rfl), if_neg (hne rfl), if_neg (hne rfl),
    if_neg (hne rfl), if_neg (hne rfl), if_neg (hne rfl), hnumeric]
  rfl

theorem value_scalar {v : Scalar} (h : v.fits = true) (d : Nat) :
    Toml.value (d + 1) (v.text ++ lineFeed :: rest) =
      if v.spelled then .ok (v.value, lineFeed :: rest) else .error .malformed := by
  cases v with
  | flag b => exact value_flag b d
  | number n => exact value_number n d
  | string parts => exact value_string (List.all_eq_true.mp h) d

theorem Scalar.exists_text (v : Scalar) : ∃ b t, v.text = b :: t ∧ isBlank b = false := by
  cases v with
  | flag b => cases b <;> exact ⟨_, _, rfl, rfl⟩
  | number n =>
    obtain ⟨b, t, ht, hb, -⟩ := exists_ofNat n
    refine ⟨b, t, ht, ?_⟩
    simp [isBlank, ne_of_class hb (k := space) rfl, ne_of_class hb (k := tab) rfl]
  | string t => exact ⟨_, _, rfl, rfl⟩

/-! ## Keys and comments -/

def isBare (key : Text) : Bool := !key.isEmpty && key.all isBareKey

theorem exists_bare {k : Text} (h : isBare k = true) :
    ∃ b t, k = b :: t ∧ isBareKey b = true := by
  cases k with
  | nil => cases h
  | cons b t =>
    simp only [isBare, List.isEmpty_cons, Bool.not_false, List.all_cons, Bool.true_and,
      Bool.and_eq_true] at h
    exact ⟨b, t, rfl, h.1⟩

theorem isBlank_of_bare {b : UInt8} (h : isBareKey b = true) : isBlank b = false := by
  simp [isBlank, ne_of_class h (k := space) rfl, ne_of_class h (k := tab) rfl]

theorem skipBlanks_cons {b : UInt8} (h : isBlank b = false) (t : Text) :
    skipBlanks (b :: t) = b :: t := by
  rw [skipBlanks, List.dropWhile_cons_of_neg (by simp [h])]

theorem simpleKey_bare {k : Text} (h : isBare k = true) {b : UInt8} (hb : isBareKey b = false) :
    simpleKey (k ++ b :: rest) = .ok (k, b :: rest) := by
  have hall : ∀ a ∈ k, isBareKey a = true := by
    simp only [isBare, Bool.and_eq_true, List.all_eq_true] at h
    exact h.2
  have htake : (k ++ b :: rest).takeWhile isBareKey = k := takeWhile_class hall hb
  have hdrop : (k ++ b :: rest).dropWhile isBareKey = b :: rest := dropWhile_class hall hb
  obtain ⟨a, t, rfl, ha⟩ := exists_bare h
  rw [List.cons_append] at htake hdrop ⊢
  rw [simpleKey, if_neg (ne_of_class ha rfl), if_neg (ne_of_class ha rfl), if_pos ha, htake, hdrop]

theorem key_bare {k after : Text} {b c : UInt8} (h : isBare k = true) (hb : isBareKey b = false)
    (hskip : skipBlanks (b :: rest) = c :: after) (hdot : c ≠ dot) :
    key (k ++ b :: rest) = .ok ([k], c :: after) := by
  have hloop : keyLoop ((b :: rest).length + 1) (b :: rest) [k] = .ok ([k], c :: after) := by
    simp [keyLoop, hskip, expect?, hdot]
  rw [key, simpleKey_bare h hb]
  exact hloop

theorem comment?_line {t : Text} (hutf8 : t.isUtf8 = true)
    (h : ∀ b ∈ t, isControl b = false ∧ b ≠ carriageReturn ∧ b ≠ lineFeed) :
    comment? (t ++ lineFeed :: rest) = some (lineFeed :: rest) := by
  have hnot : ∀ b ∈ t, (b != lineFeed) = true := by
    intro b hb
    simpa using (h b hb).2.2
  have htake : (t ++ lineFeed :: rest).takeWhile (· != lineFeed) = t := takeWhile_class hnot rfl
  have hdrop : (t ++ lineFeed :: rest).dropWhile (· != lineFeed) = lineFeed :: rest :=
    dropWhile_class hnot rfl
  have hall : (t.all fun b => !isControl b && b != carriageReturn) = true := by
    rw [List.all_eq_true]
    intro b hb
    simp [(h b hb).1, (h b hb).2.1]
  simp only [comment?, htake, hdrop]
  cases hrev : t.reverse with
  | nil => simp [hutf8, hall]
  | cons a before =>
    have ha : a ∈ t := by
      rw [← List.mem_reverse, hrev]
      exact List.mem_cons_self ..
    simp [(h a ha).2.1, hutf8, hall]

/-! ## Lines -/

inductive DocLine where
  | header (key : Text)
  | line (l : Settings.Line)

namespace DocLine

def text : DocLine → Text
  | header key => "[" ++ key ++ "]\n"
  | line l => l.text

def fits : DocLine → Bool
  | header key => isBare key
  | line l => l.fits

theorem length_pos (r : DocLine) : 0 < r.text.length := by
  have hend (t u : Text) (hu : 0 < u.length) : 0 < (t ++ u).length := by
    rw [List.length_append]
    omega
  match r with
  | header key => exact hend _ _ (by decide)
  | line .blank => decide
  | line (.remark words) => exact hend _ _ (by decide)
  | line (.setting slot v) => exact hend _ _ (by decide)

def spelled : DocLine → Bool
  | header _ => true
  | line l => l.spelled

def expression? : DocLine → Option Expression
  | header key => some (.table [key])
  | line (.setting slot v) => some (.assign [slot.key] v.value)
  | line _ => none

end DocLine

theorem isBare_key (slot : Settings.Slot) : isBare slot.key = true := by
  cases slot <;> decide

theorem visible_of_ge {b : UInt8} (hge : 0x20 ≤ b.toNat) (hdelete : b ≠ 0x7F) :
    isControl b = false ∧ b ≠ carriageReturn ∧ b ≠ lineFeed := by
  have hnot : b.toNat ≠ 0x7F := fun h => hdelete (UInt8.toNat_inj.mp h)
  refine ⟨?_, ?_, ?_⟩
  · rw [← Bool.not_eq_true, isControl_iff]
    omega
  · rintro rfl
    exact absurd hge (by decide)
  · rintro rfl
    exact absurd hge (by decide)

theorem line_remark {words : Text} (h : (Settings.Line.remark words).fits = true) :
    line ((Settings.Line.remark words).text ++ rest) = .ok (none, lineFeed :: rest) := by
  simp only [Settings.Line.fits, Bool.and_eq_true, List.all_eq_true, decide_eq_true_eq, bne_iff_ne] at h
  obtain ⟨hutf8, hall⟩ := h
  have htext : (Settings.Line.remark words).text ++ rest = hash :: space :: words ++ lineFeed :: rest := by
    show (_ ++ _ ++ _) ++ _ = _
    rw [List.append_assoc]
    rfl
  have hcomment : comment? (hash :: space :: words ++ lineFeed :: rest) =
      some (lineFeed :: rest) := by
    apply comment?_line
    · exact Text.isUtf8_append (t := [hash, space]) (by decide) hutf8
    · intro b hb
      simp only [List.mem_cons] at hb
      rcases hb with rfl | rfl | hb
      · decide
      · decide
      · obtain ⟨hge, hdelete⟩ := hall b hb
        rw [UInt8.le_iff_toNat_le] at hge
        exact visible_of_ge hge hdelete
  rw [htext, line, List.cons_append, skipBlanks_cons rfl]
  simp only [decide_true, Bool.true_or, if_true]
  rw [lineRest, skipBlanks_cons rfl, List.head?_cons, if_pos rfl, ← List.cons_append, hcomment]
  rfl

theorem line_header {k : Text} (h : isBare k = true) :
    line ((DocLine.header k).text ++ rest) = .ok (some (.table [k]), lineFeed :: rest) := by
  have htext : (DocLine.header k).text ++ rest =
      openBracket :: (k ++ closeBracket :: lineFeed :: rest) := by
    show (_ ++ _ ++ _) ++ _ = _
    rw [List.append_assoc, List.append_assoc]
    rfl
  have hkey : key (k ++ closeBracket :: lineFeed :: rest) =
      .ok ([k], closeBracket :: lineFeed :: rest) :=
    key_bare h rfl rfl (by decide)
  have hheader : header (k ++ closeBracket :: lineFeed :: rest) =
      .ok (.table [k], lineFeed :: rest) := by
    obtain ⟨b, t, rfl, hb⟩ := exists_bare h
    rw [List.cons_append] at hkey ⊢
    rw [header, expect?, if_neg (ne_of_class hb rfl)]
    simp only
    rw [skipBlanks_cons (isBlank_of_bare hb), hkey]
    rfl
  rw [htext, line, skipBlanks_cons rfl]
  simp only
  rw [if_neg (by decide), expression, if_pos rfl, hheader]
  rfl

theorem line_setting {slot : Settings.Slot} {v : Scalar} (hv : v.fits = true) :
    line ((Settings.Line.setting slot v).text ++ rest) =
      if v.spelled then .ok (some (.assign [slot.key] v.value), lineFeed :: rest)
      else .error .malformed := by
  have h := isBare_key slot
  have htext : (Settings.Line.setting slot v).text ++ rest =
      slot.key ++ space :: equals :: space :: (v.text ++ lineFeed :: rest) := by
    show (_ ++ _ ++ _ ++ _) ++ _ = _
    rw [List.append_assoc, List.append_assoc, List.append_assoc]
    rfl
  generalize slot.key = k at h htext ⊢
  have hkey : key (k ++ space :: equals :: space :: (v.text ++ lineFeed :: rest)) =
      .ok ([k], equals :: space :: (v.text ++ lineFeed :: rest)) :=
    key_bare h rfl rfl (by decide)
  have hvalue (d : Nat) : value (d + 1) (skipBlanks (space :: (v.text ++ lineFeed :: rest))) =
      if v.spelled then .ok (v.value, lineFeed :: rest) else .error .malformed := by
    obtain ⟨b, t, ht, hb⟩ := v.exists_text
    have hskip : skipBlanks (space :: (v.text ++ lineFeed :: rest)) =
        v.text ++ lineFeed :: rest := by
      rw [ht]
      exact skipBlanks_cons hb _
    rw [hskip, value_scalar hv]
  have hassign (d : Nat) : assignment (value (d + 1))
      (k ++ space :: equals :: space :: (v.text ++ lineFeed :: rest)) =
        if v.spelled then .ok (([k], v.value), lineFeed :: rest) else .error .malformed := by
    have hequals : orMalformed (expect? equals (equals :: space :: (v.text ++ lineFeed :: rest))) =
        .ok (space :: (v.text ++ lineFeed :: rest)) := rfl
    simp only [assignment, hkey, hequals, Bind.bind, Except.bind, hvalue]
    cases v.spelled <;> rfl
  obtain ⟨b, t, rfl, hb⟩ := exists_bare h
  have hhead : ¬ (b = hash || b = lineFeed || b = carriageReturn) = true := by
    simp [ne_of_class hb (k := hash) rfl, ne_of_class hb (k := lineFeed) rfl,
      ne_of_class hb (k := carriageReturn) rfl]
  rw [List.cons_append] at htext hassign
  rw [htext, line, skipBlanks_cons (isBlank_of_bare hb)]
  simp only
  rw [if_neg hhead, expression, if_neg (ne_of_class hb rfl), hassign]
  cases v.spelled <;> rfl

theorem line_row {r : DocLine} (h : r.fits = true) :
    line (r.text ++ rest) =
      if r.spelled then .ok (r.expression?, lineFeed :: rest) else .error .malformed := by
  match r with
  | .header k => exact line_header h
  | .line .blank => rfl
  | .line (.remark words) => exact line_remark h
  | .line (.setting slot v) => exact line_setting h

/-! ## Documents -/

theorem documentLoop_cons {r : DocLine} (h : r.fits = true) (limit : Nat) (done : List Expression) :
    documentLoop (limit + 1) (r.text ++ rest) done =
      if r.spelled then documentLoop limit rest (r.expression?.toList ++ done)
      else ⟨done.reverse, some .malformed⟩ := by
  rw [documentLoop, line_row h]
  cases r.spelled <;> rfl

/-- A document is read up to the first line that cannot be spelt. -/
theorem documentLoop_rows {rs : List DocLine} (h : ∀ r ∈ rs, r.fits = true) {limit : Nat}
    (hlimit : rs.length < limit) (done : List Expression) :
    documentLoop limit (rs.flatMap DocLine.text) done =
      ⟨done.reverse ++ (rs.takeWhile DocLine.spelled).filterMap DocLine.expression?,
        if rs.all DocLine.spelled then none else some .malformed⟩ := by
  induction rs generalizing limit done with
  | nil =>
    obtain ⟨limit, rfl⟩ := Nat.exists_eq_succ_of_ne_zero (Nat.ne_of_gt hlimit)
    rw [List.flatMap_nil, List.takeWhile_nil, List.filterMap_nil, List.append_nil]
    rfl
  | cons r rs ih =>
    obtain ⟨limit, rfl⟩ := Nat.exists_eq_succ_of_ne_zero (Nat.ne_of_gt (Nat.zero_lt_of_lt hlimit))
    rw [List.forall_mem_cons] at h
    rw [List.flatMap_cons, documentLoop_cons h.1]
    by_cases hl : r.spelled = true
    · rw [if_pos hl, ih h.2 (by simpa using hlimit), List.takeWhile_cons_of_pos hl, List.all_cons,
        hl, Bool.true_and]
      cases he : r.expression? <;> simp [he]
    · simp [hl]

theorem parse_rows {rs : List DocLine} (h : ∀ r ∈ rs, r.fits = true) :
    parse (rs.flatMap DocLine.text) =
      ⟨(rs.takeWhile DocLine.spelled).filterMap DocLine.expression?,
        if rs.all DocLine.spelled then none else some .malformed⟩ := by
  have hlength : rs.length ≤ (rs.flatMap DocLine.text).length := by
    clear h
    induction rs with
    | nil => exact Nat.le_refl _
    | cons r rs ih =>
      have hl := r.length_pos
      rw [List.flatMap_cons, List.length_append, List.length_cons]
      omega
  rw [parse, documentLoop_rows h (Nat.lt_succ_of_le hlength)]
  rfl

end ClassForge.Toml
