import Mathlib
import ClassForge.Json
import ClassForge.Json.Token

/-!
# Tokens of written JSON

The text of a value is read as the tokens of the value. Text is written at its
end, so the state that reading has reached there is what each part of the writer
is specified by: a value starts between tokens, and leaves a state from which
any separator goes on. The last number or word may still be open there.
-/

namespace ClassForge.Json

/-! ## The tokens of a value -/

mutual

def tokens : Json → List Token
  | .null => [.null]
  | .bool b => [.bool b]
  | .number literal => [.number literal]
  | .string cs => [.string cs]
  | .array [] => [.openBracket, .closeBracket]
  | .array (v :: rest) => .openBracket :: (tokens v ++ (itemTokens rest ++ [.closeBracket]))
  | .object [] => [.openBrace, .closeBrace]
  | .object ((key, v) :: rest) =>
    .openBrace :: .string key :: .colon :: (tokens v ++ (memberTokens rest ++ [.closeBrace]))

def itemTokens : List Json → List Token
  | [] => []
  | v :: rest => .comma :: (tokens v ++ itemTokens rest)

def memberTokens : List (List Char × Json) → List Token
  | [] => []
  | (key, v) :: rest => .comma :: .string key :: .colon :: (tokens v ++ memberTokens rest)

end

structure IsLiteral (cs : List Char) : Prop where
  number : isNumber cs = true
  first : ∃ c rest, cs = c :: rest ∧ (c == '-' || c.isDigit) = true
  chars : ∀ c ∈ cs, isNumberChar c = true

inductive Legible : Json → Prop where
  | null : Legible .null
  | bool (b : Bool) : Legible (.bool b)
  | number {literal : List Char} : IsLiteral literal → Legible (.number literal)
  | string (cs : List Char) : Legible (.string cs)
  | array {items : List Json} : (∀ v ∈ items, Legible v) → Legible (.array items)
  | object {members : List (List Char × Json)} :
    (∀ m ∈ members, Legible m.2) → Legible (.object members)

/-! ## The state behind a text -/

/-- The state of the reader behind `done`, which is backwards. -/
def Reads (done : List Char) (mode : Mode) (ts : List Token) : Prop :=
  ∀ rest, tokensLoop (done.reverse ++ rest) .between [] = tokensLoop rest mode ts

/-- Behind `done`, all tokens of the text are complete or only wait for an end. -/
def Ready (done : List Char) (ts : List Token) : Prop :=
  ∃ mode us, Reads done mode us ∧ close? mode us = some ts

variable {done : List Char} {mode mode' : Mode} {ts us : List Token} {c : Char} {cs : List Char}

theorem Reads.step (h : Reads done mode ts) (hs : step? mode c ts = some (mode', us)) :
    Reads (c :: done) mode' us := by
  intro rest
  rw [List.reverse_cons, List.append_assoc, List.singleton_append, h (c :: rest), tokensLoop, hs]

theorem Reads.run (mode : List Char → Mode) (w cs : List Char) (h : Reads done (mode w) ts)
    (hs : ∀ c ∈ cs, ∀ w, step? (mode w) c ts = some (mode (c :: w), ts)) :
    Reads (cs.reverse ++ done) (mode (cs.reverse ++ w)) ts := by
  induction cs generalizing done w with
  | nil => exact h
  | cons c cs ih =>
    have hc := h.step (hs c (List.mem_cons_self ..) w)
    have := ih _ hc fun c hc => hs c (List.mem_cons_of_mem _ hc)
    simpa only [List.reverse_cons, List.append_assoc, List.singleton_append] using this

theorem Reads.ready (h : Reads done .between ts) : Ready done ts := ⟨_, _, h, rfl⟩

/-- A separator ends what is open. -/
theorem Ready.step (h : Ready done ts) (hn : isNumberChar c = false) (ha : c.isAlpha = false)
    (hs : start? c ts = some (mode', us)) : Reads (c :: done) mode' us := by
  obtain ⟨mode, vs, hr, hc⟩ := h
  apply hr.step
  cases mode with
  | between =>
    cases hc
    exact hs
  | number w =>
    rw [step?, if_neg (by rw [hn]; decide), hc]
    exact hs
  | word w =>
    rw [step?, if_neg (by rw [ha]; decide), hc]
    exact hs
  -- an open string cannot be closed from outside
  | string s => cases hc
  | escape s => cases hc
  | unit s left value => cases hc

theorem Ready.newline (h : Ready done ts) (level : Nat) :
    Reads ((newline level).reverse ++ done) .between ts := by
  have hline : Reads ('\n' :: done) .between ts := h.step rfl rfl rfl
  have hspaces := hline.run (fun _ => .between) [] (List.replicate (2 * level) ' ') (by
    intro c hc _
    rw [List.eq_of_mem_replicate hc]
    rfl)
  simpa only [Json.newline, List.reverse_cons, List.append_assoc, List.singleton_append] using hspaces

/-! ## Numbers and words -/

theorem start?_number (hc : (c == '-' || c.isDigit) = true) :
    start? c ts = some (.number [c], ts) := by
  unfold start?
  split
  case h_12 => rw [if_pos hc]
  all_goals exact absurd hc (by decide)

theorem ready_number (h : Reads done .between ts) {literal : List Char} (hl : IsLiteral literal) :
    Ready (literal.reverse ++ done) (.number literal :: ts) := by
  obtain ⟨c, rest, rfl, hc⟩ := hl.first
  have hstart : Reads (c :: done) (.number [c]) ts := h.step (start?_number hc)
  have hrun := hstart.run .number [c] rest (by
    intro d hd w
    rw [step?, if_pos (hl.chars d (List.mem_cons_of_mem _ hd))])
  refine ⟨.number (c :: rest).reverse, ts, ?_, ?_⟩
  · simpa only [List.reverse_cons, List.append_assoc, List.singleton_append] using hrun
  · rw [close?, List.reverse_reverse, if_pos hl.number]

theorem ready_word (h : Reads done .between ts) {t : Token} (c : Char) (cs : List Char)
    (hstart : start? c ts = some (.word [c], ts)) (hcs : cs.all Char.isAlpha = true)
    (ht : wordToken? (c :: cs) = some t) : Ready ((c :: cs).reverse ++ done) (t :: ts) := by
  have hword : Reads (c :: done) (.word [c]) ts := h.step hstart
  have hrun := hword.run .word [c] cs (by
    intro d hd w
    rw [step?, if_pos (List.all_eq_true.mp hcs d hd)])
  refine ⟨.word (c :: cs).reverse, ts, ?_, ?_⟩
  · simpa only [List.reverse_cons, List.append_assoc, List.singleton_append] using hrun
  · rw [close?, List.reverse_reverse, ht]
    rfl

theorem ready_null (h : Reads done .between ts) :
    Ready ("null".toList.reverse ++ done) (.null :: ts) :=
  ready_word h 'n' ['u', 'l', 'l'] rfl rfl rfl

theorem ready_true (h : Reads done .between ts) :
    Ready ("true".toList.reverse ++ done) (.bool true :: ts) :=
  ready_word h 't' ['r', 'u', 'e'] rfl rfl rfl

theorem ready_false (h : Reads done .between ts) :
    Ready ("false".toList.reverse ++ done) (.bool false :: ts) :=
  ready_word h 'f' ['a', 'l', 's', 'e'] rfl rfl rfl

/-! ## Strings -/

theorem hexDigit?_hexChar (n : Nat) : hexDigit? (hexChar n) = some (n % 16) := by
  have hall : ∀ k < 16, hexDigit? (Nat.digitChar k) = some k := by decide
  exact hall (n % 16) (Nat.mod_lt n (by decide))

/-- An escape by number, of a character that takes one. -/
theorem reads_unit {d : List Char} (h : Reads done (.string ⟨d, none⟩) ts) (hc : c.toNat < 0xD800) :
    Reads (['\\', 'u', hexChar (c.toNat / 4096), hexChar (c.toNat / 256), hexChar (c.toNat / 16),
      hexChar c.toNat].reverse ++ done) (.string ⟨c :: d, none⟩) ts := by
  have hslash : Reads ('\\' :: done) (.escape ⟨d, none⟩) ts := h.step rfl
  have hu : Reads ('u' :: '\\' :: done) (.unit ⟨d, none⟩ 4 0) ts := hslash.step rfl
  have h₁ := hu.step (c := hexChar (c.toNat / 4096))
    (by rw [step?, hexDigit?_hexChar]; rfl)
  have h₂ := h₁.step (c := hexChar (c.toNat / 256))
    (by rw [step?, hexDigit?_hexChar]; rfl)
  have h₃ := h₂.step (c := hexChar (c.toNat / 16))
    (by rw [step?, hexDigit?_hexChar]; rfl)
  refine h₃.step ?_
  have hvalue : (((0 * 16 + c.toNat / 4096 % 16) * 16 + c.toNat / 256 % 16) * 16 +
      c.toNat / 16 % 16) * 16 + c.toNat % 16 = c.toNat := by omega
  have hhigh : isHighSurrogate c.toNat = false := by
    simp only [isHighSurrogate, Bool.and_eq_false_iff, decide_eq_false_iff_not]
    omega
  have hlow : isLowSurrogate c.toNat = false := by
    simp only [isLowSurrogate, Bool.and_eq_false_iff, decide_eq_false_iff_not]
    omega
  have hpush : Spell.pushUnit ⟨d, none⟩ c.toNat = ⟨c :: d, none⟩ := by
    simp only [Spell.pushUnit, Spell.pushUnit.pushFirst, hhigh, hlow, Char.ofNat_toNat]
    rfl
  rw [step?, hexDigit?_hexChar]
  show some (Mode.string (Spell.pushUnit ⟨d, none⟩ _), ts) = _
  rw [hvalue, hpush]

theorem reads_escape {d : List Char} (h : Reads done (.string ⟨d, none⟩) ts) (c : Char) :
    Reads ((escape c).reverse ++ done) (.string ⟨c :: d, none⟩) ts := by
  have hslash : Reads ('\\' :: done) (.escape ⟨d, none⟩) ts := h.step rfl
  unfold escape
  split
  · exact hslash.step rfl
  · exact hslash.step rfl
  · exact hslash.step rfl
  · exact hslash.step rfl
  · exact hslash.step rfl
  · rename_i hquote hback _ _ _
    simp only []
    split
    · rename_i hn
      have hc : c = Char.ofNat 8 := by rw [← hn, Char.ofNat_toNat]
      rw [hc]
      exact hslash.step rfl
    · split
      · rename_i hn
        have hc : c = Char.ofNat 12 := by rw [← hn, Char.ofNat_toNat]
        rw [hc]
        exact hslash.step rfl
      · split
        · rename_i hn
          simp only [Bool.or_eq_true, decide_eq_true_eq, beq_iff_eq] at hn
          apply reads_unit h
          rcases hn with ((((hn | rfl) | rfl) | rfl) | hn) | hn
          · omega
          · decide
          · decide
          · decide
          · omega
          · omega
        · rename_i hn
          simp only [Bool.or_eq_true, decide_eq_true_eq, not_or, Nat.not_lt] at hn
          refine h.step ?_
          rw [step?, if_neg (by simpa using hquote), if_neg (by simpa using hback),
            if_neg (by omega)]
          rfl

theorem reads_quoted (h : Reads done .between ts) (cs : List Char) :
    Reads ((quoted cs).reverse ++ done) .between (.string cs :: ts) := by
  have hchars (d : List Char) (done : List Char) (h : Reads done (.string ⟨d, none⟩) ts) :
      Reads ((cs.flatMap escape).reverse ++ done) (.string ⟨cs.reverse ++ d, none⟩) ts := by
    induction cs generalizing d done with
    | nil => exact h
    | cons c cs ih =>
      have := ih (c :: d) _ (reads_escape h c)
      simpa only [List.flatMap_cons, List.reverse_append, List.reverse_cons, List.append_assoc,
        List.singleton_append] using this
  have hopen : Reads ('"' :: done) (.string {}) ts := h.step rfl
  have hclose := (hchars [] _ hopen).step (c := '"') rfl
  simpa [quoted, Spell.settle] using hclose

/-! ## Values -/

def Lexes (v : Json) : Prop := ∀ (level : Nat) {done ts}, Reads done .between ts →
  Ready (writeTo level v done) ((tokens v).reverse ++ ts)

theorem ready_writeItems {items : List Json} (hv : ∀ v ∈ items, Lexes v) (level : Nat)
    (h : Ready done ts) :
    Ready (writeItems level items done) ((itemTokens items).reverse ++ ts) := by
  induction items generalizing done ts with
  | nil => exact h
  | cons v rest ih =>
    have hcomma : Reads (',' :: done) .between (.comma :: ts) := h.step rfl rfl rfl
    have hone := hv v (List.mem_cons_self ..) level (hcomma.ready.newline level)
    have hrest := ih (fun v hmem => hv v (List.mem_cons_of_mem _ hmem)) hone
    rw [writeItems, itemTokens]
    simpa only [List.reverse_cons, List.reverse_append, List.append_assoc, List.singleton_append]
      using hrest

theorem reads_key (h : Reads done .between ts) (key : List Char) :
    Reads (' ' :: ':' :: ((quoted key).reverse ++ done)) .between (.colon :: .string key :: ts) := by
  have hcolon : Reads (':' :: ((quoted key).reverse ++ done)) .between (.colon :: .string key :: ts) :=
    (reads_quoted h key).step rfl
  exact hcolon.step rfl

theorem ready_writeMembers {members : List (List Char × Json)} (hv : ∀ m ∈ members, Lexes m.2)
    (level : Nat) (h : Ready done ts) :
    Ready (writeMembers level members done) ((memberTokens members).reverse ++ ts) := by
  induction members generalizing done ts with
  | nil => exact h
  | cons m rest ih =>
    obtain ⟨key, v⟩ := m
    have hcomma : Reads (',' :: done) .between (.comma :: ts) := h.step rfl rfl rfl
    have hkey := reads_key (hcomma.ready.newline level) key
    have hone := hv _ (List.mem_cons_self ..) level hkey
    have hrest := ih (fun m hmem => hv m (List.mem_cons_of_mem _ hmem)) hone
    rw [writeMembers, memberTokens]
    simpa only [List.reverse_cons, List.reverse_append, List.append_assoc, List.cons_append,
      List.nil_append] using hrest

theorem lexes_array {items : List Json} (hv : ∀ v ∈ items, Lexes v) : Lexes (.array items) := by
  intro level done ts h
  have hopen : Reads ('[' :: done) .between (.openBracket :: ts) := h.step rfl
  cases items with
  | nil =>
    rw [writeTo, tokens]
    exact (hopen.step (c := ']') rfl).ready
  | cons v rest =>
    have hone := hv v (List.mem_cons_self ..) (level + 1) (hopen.ready.newline (level + 1))
    have hrest := ready_writeItems (fun v hmem => hv v (List.mem_cons_of_mem _ hmem))
      (level + 1) hone
    have hclose := ((hrest.newline level).step (c := ']') rfl).ready
    rw [writeTo, tokens]
    simpa only [List.reverse_cons, List.reverse_append, List.reverse_nil, List.append_assoc,
      List.cons_append, List.nil_append] using hclose

theorem lexes_object {members : List (List Char × Json)} (hv : ∀ m ∈ members, Lexes m.2) :
    Lexes (.object members) := by
  intro level done ts h
  have hopen : Reads ('\x7b' :: done) .between (.openBrace :: ts) := h.step rfl
  cases members with
  | nil =>
    rw [writeTo, tokens]
    exact (hopen.step (c := '\x7d') rfl).ready
  | cons m rest =>
    obtain ⟨key, v⟩ := m
    have hkey := reads_key (hopen.ready.newline (level + 1)) key
    have hone := hv _ (List.mem_cons_self ..) (level + 1) hkey
    have hrest := ready_writeMembers (fun m hmem => hv m (List.mem_cons_of_mem _ hmem))
      (level + 1) hone
    have hclose := ((hrest.newline level).step (c := '\x7d') rfl).ready
    rw [writeTo, tokens]
    simpa only [List.reverse_cons, List.reverse_append, List.reverse_nil, List.append_assoc,
      List.cons_append, List.nil_append] using hclose

theorem Legible.lexes {v : Json} (h : Legible v) : Lexes v := by
  induction h with
  | null =>
    intro level done ts h
    rw [writeTo]
    exact ready_null h
  | bool b =>
    intro level done ts h
    cases b with
    | false =>
      rw [writeTo]
      exact ready_false h
    | true =>
      rw [writeTo]
      exact ready_true h
  | number hl =>
    intro level done ts h
    rw [writeTo]
    exact ready_number h hl
  | string cs =>
    intro level done ts h
    rw [writeTo]
    exact (reads_quoted h cs).ready
  | array _ ih => exact lexes_array ih
  | object _ ih => exact lexes_object ih

theorem tokens?_text {v : Json} (h : Legible v) : tokens? v.text = some (tokens v) := by
  have hstart : Reads [] .between [] := fun _ => rfl
  obtain ⟨mode, us, hr, hc⟩ := h.lexes 0 hstart
  have hend := hr []
  rw [List.append_nil] at hend
  rw [tokens?, text, hend, tokensLoop, hc, List.append_nil, Option.map_some, List.reverse_reverse]

end ClassForge.Json
