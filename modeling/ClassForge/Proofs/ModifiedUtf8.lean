import ClassForge.Proofs.LineNumbers
import ClassForge.Proofs.Utf8
import ClassForge.Proofs.Verdict

/-!
# Texts as class files have them

The texts of a class file are to be modified UTF-8, in which a zero byte never occurs and a
character beyond the basic plane is written as two surrogates. What is written is plain
UTF-8. The two are one for a text all of whose characters are in the basic plane and not
null, so a class file has legal texts if that is so of all names that go into it.
-/

namespace ClassForge

/-! ## Modified UTF-8 -/

namespace Text

def unitBytes (u : UInt16) : Text :=
  if 0 < u.toNat ∧ u.toNat < 0x80 then [.ofNat u.toNat]
  else if u.toNat < 0x800 then [.ofNat (u.toNat / 64 + 0xC0), .ofNat (u.toNat % 64 + 0x80)]
  else [.ofNat (u.toNat / 4096 + 0xE0), .ofNat (u.toNat / 64 % 64 + 0x80), .ofNat (u.toNat % 64 + 0x80)]

def codeUnits (c : Char) : List UInt16 :=
  if c.toNat < 0x10000 then [.ofNat c.toNat]
  else [.ofNat ((c.toNat - 0x10000) / 1024 + 0xD800), .ofNat ((c.toNat - 0x10000) % 1024 + 0xDC00)]

def modified (cs : List Char) : Text := (cs.flatMap codeUnits).flatMap unitBytes

def IsModified (t : Text) : Prop := ∃ us : List UInt16, us.flatMap unitBytes = t

def IsBasic (c : Char) : Prop := 0 < c.toNat ∧ c.toNat < 0x10000

def Occurs (b : UInt8) : Prop := 0 < b.toNat ∧ b.toNat < 0xF0

theorem occurs_of_mem_unitBytes {u : UInt16} {b : UInt8} (h : b ∈ unitBytes u) : Occurs b := by
  have hu := u.toNat_lt
  have hbyte {n : Nat} (hpos : 0 < n) (hlt : n < 0xF0) : Occurs (.ofNat n) := by
    rw [Occurs, UInt8.toNat_ofNat', Nat.mod_eq_of_lt (by omega)]
    exact ⟨hpos, hlt⟩
  unfold unitBytes at h
  split at h
  · rw [List.mem_singleton.mp h]
    exact hbyte (by omega) (by omega)
  · split at h
    · simp only [List.mem_cons, List.not_mem_nil, or_false] at h
      rcases h with rfl | rfl <;> exact hbyte (by omega) (by omega)
    · simp only [List.mem_cons, List.not_mem_nil, or_false] at h
      rcases h with rfl | rfl | rfl <;> exact hbyte (by omega) (by omega)

theorem IsModified.occurs {t : Text} (h : t.IsModified) : ∀ b ∈ t, Occurs b := by
  obtain ⟨us, rfl⟩ := h
  intro b hb
  obtain ⟨u, -, hu⟩ := List.mem_flatMap.mp hb
  exact occurs_of_mem_unitBytes hu

theorem isModified_modified (cs : List Char) : (modified cs).IsModified := ⟨_, rfl⟩

theorem encode_of_isBasic {c : Char} (h : IsBasic c) :
    String.utf8EncodeChar c = (codeUnits c).flatMap unitBytes := by
  obtain ⟨hpos, hlt⟩ := h
  have hunit : (UInt16.ofNat c.toNat).toNat = c.toNat := by
    rw [UInt16.toNat_ofNat', Nat.mod_eq_of_lt hlt]
  rw [codeUnits, if_pos hlt, List.flatMap_singleton, unitBytes, hunit, encode_eq]
  by_cases h₁ : c.toNat ≤ 0x7F
  · rw [if_pos h₁, if_pos ⟨hpos, by omega⟩]
  by_cases h₂ : c.toNat ≤ 0x7FF
  · rw [if_neg h₁, if_pos h₂, if_neg (by omega), if_pos (by omega),
      Nat.mod_eq_of_lt (a := c.toNat / 64) (by omega)]
  · rw [if_neg h₁, if_neg h₂, if_pos (by omega), if_neg (by omega), if_neg (by omega),
      Nat.mod_eq_of_lt (a := c.toNat / 4096) (by omega)]

theorem ofChars_of_isBasic {cs : List Char} (h : ∀ c ∈ cs, IsBasic c) : ofChars cs = modified cs := by
  rw [ofChars, modified, List.flatMap_assoc]
  exact List.flatMap_congr fun c hc => encode_of_isBasic (h c hc)

/-- A character that is null or beyond the basic plane has a byte that does not occur. -/
theorem isBasic_of_occurs {c : Char} (h : ∀ b ∈ String.utf8EncodeChar c, Occurs b) : IsBasic c := by
  have hmax : c.toNat ≤ 0x10FFFF := c.toNat_le_max
  have hbyte {n : Nat} (hn : n < 256) (hoccurs : Occurs (.ofNat n)) : 0 < n ∧ n < 0xF0 := by
    rwa [Occurs, UInt8.toNat_ofNat', Nat.mod_eq_of_lt hn] at hoccurs
  rw [encode_eq] at h
  constructor
  · by_contra hnull
    rw [if_pos (by omega)] at h
    have := hbyte (by omega) (h _ List.mem_cons_self)
    omega
  · by_contra hbeyond
    rw [if_neg (by omega), if_neg (by omega), if_neg (by omega)] at h
    have := hbyte (by omega) (h _ List.mem_cons_self)
    omega

section
variable {t : Text}

theorem isBasic_of_ofChars {cs : List Char} (h : ∀ b ∈ ofChars cs, Occurs b) : ∀ c ∈ cs, IsBasic c :=
  fun c hc => isBasic_of_occurs fun b hb => h b (List.mem_flatMap.mpr ⟨c, hc, hb⟩)

/-- UTF-8 is modified UTF-8 exactly where all characters are basic. -/
theorem isModified_iff_isBasic (h : t.isUtf8 = true) : t.IsModified ↔ ∀ c ∈ t.chars, IsBasic c := by
  constructor
  · intro hmodified
    rw [← ofChars_chars h] at hmodified
    exact isBasic_of_ofChars hmodified.occurs
  · intro hbasic
    rw [← ofChars_chars h, ofChars_of_isBasic hbasic]
    exact isModified_modified _

theorem isModified_iff_occurs (h : t.isUtf8 = true) : t.IsModified ↔ ∀ b ∈ t, Occurs b := by
  constructor
  · exact IsModified.occurs
  · intro hoccurs
    rw [← ofChars_chars h] at hoccurs
    exact (isModified_iff_isBasic h).mpr (isBasic_of_ofChars hoccurs)

theorem isUtf8_of_ascii (h : ∀ b ∈ t, b < 0x80) : t.isUtf8 = true := by
  rw [← ofChars_map_ofUInt8 h]
  exact isUtf8_ofChars _

theorem isModified_of_ascii (h : ∀ b ∈ t, 0 < b ∧ b < 0x80) : t.IsModified := by
  rw [isModified_iff_occurs (isUtf8_of_ascii fun b hb => (h b hb).2)]
  intro b hb
  obtain ⟨hpos, hlt⟩ := h b hb
  rw [UInt8.lt_iff_toNat_lt] at hpos hlt
  exact ⟨hpos, Nat.lt_trans hlt (by decide)⟩

end

end Text

/-! ## The texts of a class -/

theorem Signature.ascii_descriptor (s : Signature) : ∀ b ∈ s.descriptor, 0 < b ∧ b < 0x80 := by
  have hopen : ∀ b ∈ Text.ofString "(", 0 < b ∧ b < 0x80 := by decide +kernel
  have hclose : ∀ b ∈ Text.ofString ")", 0 < b ∧ b < 0x80 := by decide +kernel
  have hparams : ∀ b ∈ List.replicate s.params 73, (0 : UInt8) < b ∧ b < 0x80 := by
    intro b hb
    rw [List.eq_of_mem_replicate hb]
    decide +kernel
  have hreturns : ∀ b ∈ s.returns.descriptor, 0 < b ∧ b < 0x80 := by
    cases s.returns <;> decide +kernel
  unfold descriptor
  simp only [List.forall_mem_append]
  exact ⟨⟨⟨hopen, hparams⟩, hclose⟩, hreturns⟩

namespace Outline

def names (options : Options) (o : Outline) : List Text :=
  [options.superClass, o.name, options.sourceExtension] ++
    (o.finals.map Final.name ++ (o.globals ++ o.methods.map Signature.name))

variable {options : Options} {o : Outline}

theorem ascii_of_mem_texts {t : Text} (ht : t ∈ o.texts options) (hown : t ∉ o.ownTexts options) :
    ∀ b ∈ t, 0 < b ∧ b < 0x80 := by
  have hfixed : ∀ u ∈ [Skeleton.constructorName, Skeleton.constructorDescriptor,
      Signature.intDescriptor, Attribute.constantValue, Attribute.code, Attribute.lineNumberTable,
      Attribute.stackMapTable, Attribute.sourceFile], ∀ b ∈ u, 0 < b ∧ b < 0x80 := by decide +kernel
  exact hfixed t ((List.mem_append.mp ht).resolve_right hown)

theorem forall_ownTexts {P : Text → Prop} (h : ∀ t ∈ o.names options, P t)
    (hdescriptor : ∀ m : Signature, P m.descriptor) (hfile : ∀ t u, P t → P u → P (t ++ u)) :
    ∀ t ∈ o.ownTexts options, P t := by
  simp only [names, List.forall_mem_append, List.forall_mem_cons, List.forall_mem_map] at h
  obtain ⟨⟨hsuper, hname, hextension, hnil⟩, hfinals, hglobals, hmethods⟩ := h
  simp only [ownTexts, List.forall_mem_append, List.forall_mem_cons, List.forall_mem_map,
    List.forall_mem_flatMap]
  exact ⟨⟨hsuper, hname, hfile _ _ hname hextension, hnil⟩, hfinals, hglobals,
    fun m hm => ⟨hmethods m hm, hdescriptor m, hnil⟩⟩

theorem forall_names {P : Text → Prop} (h : ∀ t ∈ o.ownTexts options, P t)
    (hfile : P (o.name ++ options.sourceExtension) → P options.sourceExtension) :
    ∀ t ∈ o.names options, P t := by
  simp only [ownTexts, List.forall_mem_append, List.forall_mem_cons, List.forall_mem_map,
    List.forall_mem_flatMap] at h
  obtain ⟨⟨hsuper, hname, hnamed, hnil⟩, hfinals, hglobals, hmethods⟩ := h
  simp only [names, List.forall_mem_append, List.forall_mem_cons, List.forall_mem_map]
  exact ⟨⟨hsuper, hname, hfile hnamed, hnil⟩, hfinals, hglobals, fun m hm => (hmethods m hm).1⟩

theorem isUtf8_ownTexts (h : ∀ t ∈ o.names options, t.isUtf8 = true) :
    ∀ t ∈ o.ownTexts options, t.isUtf8 = true :=
  forall_ownTexts h (fun m => Text.isUtf8_of_ascii fun b hb => (m.ascii_descriptor b hb).2)
    fun _ _ => Text.isUtf8_append

/-- All texts are legal if all names have basic characters. -/
theorem isModified_ownTexts_iff (h : ∀ t ∈ o.names options, t.isUtf8 = true) :
    (∀ t ∈ o.ownTexts options, t.IsModified) ↔ ∀ t ∈ o.names options, ∀ c ∈ t.chars, Text.IsBasic c := by
  constructor
  · intro hmodified t ht
    have hutf8 : o.name.isUtf8 = true ∧ options.sourceExtension.isUtf8 = true :=
      ⟨h _ (by simp [names]), h _ (by simp [names])⟩
    refine (Text.isModified_iff_isBasic (h t ht)).mp (forall_names hmodified (fun hnamed => ?_) t ht)
    rw [Text.isModified_iff_isBasic (Text.isUtf8_append hutf8.1 hutf8.2), Text.chars_append hutf8.1 hutf8.2] at hnamed
    exact (Text.isModified_iff_isBasic hutf8.2).mpr fun c hc => hnamed c (List.mem_append_right _ hc)
  · intro hbasic
    refine forall_ownTexts (fun t ht => (Text.isModified_iff_isBasic (h t ht)).mpr (hbasic t ht))
      (fun m => Text.isModified_of_ascii m.ascii_descriptor) ?_
    rintro t u ⟨us, rfl⟩ ⟨vs, rfl⟩
    exact ⟨us ++ vs, List.flatMap_append⟩

end Outline

/-! ## The texts of a class file -/

def Pool.HasLegalTexts (p : Pool) : Prop := ∀ t, Entry.utf8 t ∈ p.entries.toList → t.IsModified

theorem Skeleton.widen_of_build {options : Options} {c : ClassDecl} {s : Skeleton}
    (h : (build options c).1 = .ok s) : s.widen = Plan.layOut options.effective c.outline := by
  obtain ⟨hcheck, -⟩ := build_ok h
  have hle : (Plan.layOut options.effective c.outline).size ≤ Pool.capacity := by
    refine Nat.le_of_not_lt fun hlt => ?_
    rw [build_full_of_lt hcheck hlt] at h
    cases h
  obtain ⟨t, ht, hwiden⟩ := build_ok_of_le hcheck hle
  cases h.symm.trans ht
  exact hwiden

namespace Generator

variable {g : Generator} {c : ClassDecl} {data : Text}

/-- What is compiled can be read, and its pool has the texts of the class. -/
theorem texts_of_compile (h : (g.compile c).1.result = .ok data) :
    ∃ p, ParsedClass.parse data = .ok p ∧
      (∀ t ∈ c.outline.ownTexts g.options.effective, Entry.utf8 t ∈ p.pool.entries.toList) ∧
      ∀ t, Entry.utf8 t ∈ p.pool.entries.toList → t ∈ c.outline.texts g.options.effective := by
  obtain ⟨s, a, hs, ha, hw⟩ := compile_ok h
  obtain ⟨-, -, -, -, hl, hfrozen, -, hfile⟩ := Skeleton.laid_of_build hs
  obtain ⟨hobstacle, rfl⟩ : (assemble g.options s a).obstacle? = none ∧
      (assemble g.options s a).bytes = data := by
    unfold ClassFile.write at hw
    split at hw
    · cases hw
    · rename_i hnone
      cases hw
      exact ⟨hnone, rfl⟩
  obtain ⟨p, hp, hr⟩ := readAs_assemble hs ha hobstacle
  have hpool : p.pool = s.pool := hr.pool.trans (Pool.freeze_of_frozen hfrozen)
  refine ⟨p, hp, ?_⟩
  rw [hpool]
  exact ⟨fun t ht => hl.utf8_mem hfile ht, fun t ht =>
    Skeleton.mem_texts_of_widen (Skeleton.widen_of_build hs) ht⟩

/-- A compiled class has legal texts exactly when all names that go into it have basic
characters, which is to say when no byte occurs that the format rules out. -/
theorem legalTexts_of_compile (h : (g.compile c).1.result = .ok data) :
    ∃ p, ParsedClass.parse data = .ok p ∧
      (p.pool.HasLegalTexts ↔ ∀ t ∈ c.outline.ownTexts g.options.effective, t.IsModified) ∧
      ((∀ t ∈ c.outline.names g.options.effective, t.isUtf8 = true) →
        (p.pool.HasLegalTexts ↔
          ∀ t ∈ c.outline.names g.options.effective, ∀ ch ∈ t.chars, Text.IsBasic ch) ∧
        (p.pool.HasLegalTexts ↔
          ∀ t, Entry.utf8 t ∈ p.pool.entries.toList → ∀ b ∈ t, Text.Occurs b)) := by
  obtain ⟨p, hp, hown, htexts⟩ := texts_of_compile h
  have hlegal : p.pool.HasLegalTexts ↔ ∀ t ∈ c.outline.ownTexts g.options.effective, t.IsModified := by
    constructor
    · exact fun hlegal t ht => hlegal t (hown t ht)
    · intro hmodified t ht
      by_cases hmem : t ∈ c.outline.ownTexts g.options.effective
      · exact hmodified t hmem
      -- what every class file has is ASCII
      · exact Text.isModified_of_ascii (Outline.ascii_of_mem_texts (htexts t ht) hmem)
  refine ⟨p, hp, hlegal, fun hutf8 => ⟨hlegal.trans (Outline.isModified_ownTexts_iff hutf8), ?_⟩⟩
  constructor
  · exact fun hlegal t ht => (hlegal t ht).occurs
  · refine fun hoccurs => hlegal.mpr fun t ht => ?_
    exact (Text.isModified_iff_occurs (Outline.isUtf8_ownTexts hutf8 t ht)).mpr (hoccurs t (hown t ht))

def german : ClassDecl := { symbol := some { name := "Grüße", kind := .classSym } }

theorem legalTexts_of_compile_german : ∃ data p, ((ofOptions {}).compile german).1.result = .ok data ∧
    ParsedClass.parse data = .ok p ∧ p.pool.HasLegalTexts := by
  have hdata : ∃ data, ((ofOptions {}).compile german).1.result = .ok data := ⟨_, rfl⟩
  obtain ⟨data, hdata⟩ := hdata
  obtain ⟨p, hp, -, hutf8⟩ := legalTexts_of_compile hdata
  have hnames : ∀ t ∈ german.outline.names (ofOptions {}).options.effective, t.isUtf8 = true := by
    decide +kernel
  have hchars : (german.outline.names (ofOptions {}).options.effective).flatMap Text.chars =
      "java/lang/ObjectGrüße.java".toList := by
    decide +kernel
  have hbasic : ∀ ch ∈ "java/lang/ObjectGrüße.java".toList, Text.IsBasic ch := by
    simp [Text.IsBasic]
  refine ⟨data, p, hdata, hp, (hutf8 hnames).1.mpr fun t ht ch hch => hbasic ch ?_⟩
  rw [← hchars]
  exact List.mem_flatMap.mpr ⟨t, ht, hch⟩

def smiling : ClassDecl where
  symbol := some { name := "C", kind := .classSym }
  globals := [some { name := "😀", kind := .var }]

theorem smiling_illegal : ∃ data p, ((ofOptions {}).compile smiling).1.result = .ok data ∧
    ParsedClass.parse data = .ok p ∧ (∀ t ∈ smiling.outline.names Options.usual, t.isUtf8 = true) ∧
    Entry.utf8 "😀" ∈ p.pool.entries.toList ∧ ¬ (Text.ofString "😀").IsModified := by
  have hdata : ∃ data, ((ofOptions {}).compile smiling).1.result = .ok data := ⟨_, rfl⟩
  obtain ⟨data, hdata⟩ := hdata
  obtain ⟨p, hp, hown, -⟩ := texts_of_compile hdata
  refine ⟨data, p, hdata, hp, by decide +kernel, hown _ (by decide +kernel), fun hmodified => ?_⟩
  have hbyte := hmodified.occurs 0xF0 (by decide +kernel)
  unfold Text.Occurs at hbyte
  exact absurd hbyte (by decide)

end Generator

end ClassForge
