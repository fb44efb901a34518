import ClassForge.Proofs.RoundTrip

/-!
# The grammar of class files

The class files that are read, as a relation between what is read and its bytes
that mentions no reader. A reader fits such a relation if it takes exactly the
texts that spell its result, whatever follows them. Skipped bytes need care: a
skip may run past the end, but then nothing is left for the count behind it.
-/

namespace ClassForge

/-! ## The grammar -/

inductive Row {α : Type} (R : α → Text → Prop) : List α → Text → Prop where
  | nil : Row R [] []
  | cons {x : α} {xs : List α} {a b : Text} : R x a → Row R xs b → Row R (x :: xs) (a ++ b)

inductive Counted {α : Type} (R : α → Text → Prop) : List α → Text → Prop where
  | mk (n : UInt16) {xs : List α} {a : Text} :
    n.toNat = xs.length → Row R xs a → Counted R xs (Text.u2 n ++ a)

inductive Entry.Spelled : Entry → Text → Prop where
  | utf8 (n : UInt16) {t : Text} :
    n.toNat = t.length → Spelled (.utf8 t) (1 :: (Text.u2 n ++ t))
  | integer (v : UInt32) : Spelled (.integer v.toInt32) (3 :: Text.u4 v)
  | classRef (n : UInt16) : Spelled (.classRef n) (7 :: Text.u2 n)
  | fieldref (o m : UInt16) : Spelled (.fieldref o m) (9 :: (Text.u2 o ++ Text.u2 m))
  | methodref (o m : UInt16) : Spelled (.methodref o m) (10 :: (Text.u2 o ++ Text.u2 m))
  | nameAndType (n d : UInt16) : Spelled (.nameAndType n d) (12 :: (Text.u2 n ++ Text.u2 d))

inductive Attribute.Spelled (p : Pool) : Attribute → Text → Prop where
  | mk (index : UInt16) (n : UInt32) {name data : Text} :
    p.get? index = some (.utf8 name) → n.toNat = data.length →
      Spelled p ⟨name, data⟩ (Text.u2 index ++ (Text.u4 n ++ data))

/-- The contents of a `Code` attribute, of which the end may be anything. -/
inductive ParsedCode.Spelled (p : Pool) : ParsedCode → Text → Prop where
  | mk (maxStack maxLocals : UInt16) (n : UInt32) (e : UInt16) {code handlers a ignored : Text}
    {attributes : List Attribute} :
    n.toNat = code.length → handlers.length = 8 * e.toNat →
      Counted (Attribute.Spelled p) attributes a →
      Spelled p ⟨maxStack, maxLocals, code, attributes⟩
        (Text.u2 maxStack ++ (Text.u2 maxLocals ++ (Text.u4 n ++ (code ++
          (Text.u2 e ++ (handlers ++ (a ++ ignored)))))))

/-- The code that a member has by its attributes: the contents of the first one
that is named `Code`. -/
inductive ParsedCode.In (p : Pool) (attributes : List Attribute) : Option ParsedCode → Prop where
  | none : attributes.find? (·.name = Attribute.code) = none → In p attributes none
  | some {a : Attribute} {c : ParsedCode} :
    attributes.find? (·.name = Attribute.code) = some a → c.Spelled p a.data →
      In p attributes (some c)

inductive ParsedMember.Spelled (p : Pool) : ParsedMember → Text → Prop where
  | mk (access nameIndex descriptorIndex : UInt16) {name descriptor a : Text}
    {attributes : List Attribute} {code : Option ParsedCode} :
    p.get? nameIndex = some (.utf8 name) → p.get? descriptorIndex = some (.utf8 descriptor) →
      Counted (Attribute.Spelled p) attributes a → ParsedCode.In p attributes code →
      Spelled p ⟨access, name, descriptor, attributes, code⟩
        (Text.u2 access ++ (Text.u2 nameIndex ++ (Text.u2 descriptorIndex ++ a)))

inductive ParsedClass.Spelled : ParsedClass → Text → Prop where
  | mk (minor major count access thisClass superClass n : UInt16) {es : List Entry}
    {entries interfaces f m a : Text} {fields methods : List ParsedMember}
    {attributes : List Attribute} :
    es.length = max count.toNat 1 - 1 → Row Entry.Spelled es entries →
      interfaces.length = 2 * n.toNat →
      Counted (ParsedMember.Spelled (Pool.ofList es)) fields f →
      Counted (ParsedMember.Spelled (Pool.ofList es)) methods m →
      Counted (Attribute.Spelled (Pool.ofList es)) attributes a →
      Spelled ⟨minor, major, (Pool.ofList es).freeze, access, thisClass, superClass, fields, methods,
          attributes⟩
        (Text.u4 0xCAFEBABE ++ (Text.u2 minor ++ (Text.u2 major ++ (Text.u2 count ++ (entries ++
          (Text.u2 access ++ (Text.u2 thisClass ++ (Text.u2 superClass ++ (Text.u2 n ++
          (interfaces ++ (f ++ (m ++ a))))))))))))

theorem Counted.ne_nil {α : Type} {R : α → Text → Prop} {xs : List α} {t : Text}
    (h : Counted R xs t) : t ≠ [] := by
  cases h with
  | mk n _ _ => exact List.cons_ne_nil _ _

/-! ## Readers that fit a grammar -/

namespace Text

theorem u2_toU2 (hi lo : UInt8) : u2 (toU2 hi lo) = [hi, lo] := by
  have hhi := hi.toNat_lt
  have hlo := lo.toNat_lt
  have hv : (toU2 hi lo).toNat = hi.toNat * 256 + lo.toNat := by
    rw [toU2, UInt16.toNat_ofNat']
    omega
  have h₁ : UInt8.ofNat ((toU2 hi lo).toNat / 256) = hi := by
    apply UInt8.toNat_inj.mp
    rw [hv, UInt8.toNat_ofNat']
    omega
  have h₂ : UInt8.ofNat (toU2 hi lo).toNat = lo := by
    apply UInt8.toNat_inj.mp
    rw [hv, UInt8.toNat_ofNat']
    omega
  rw [u2, h₁, h₂]

theorem u4_toU4 (a b c d : UInt8) : u4 (toU4 a b c d) = [a, b, c, d] := by
  have ha := a.toNat_lt
  have hb := b.toNat_lt
  have hc := c.toNat_lt
  have hd := d.toNat_lt
  have hv : (toU4 a b c d).toNat =
      ((a.toNat * 256 + b.toNat) * 256 + c.toNat) * 256 + d.toNat := by
    rw [toU4, UInt32.toNat_ofNat']
    omega
  have hbyte (n : Nat) (x : UInt8) (h : n % 256 = x.toNat) : UInt8.ofNat n = x := by
    apply UInt8.toNat_inj.mp
    rw [UInt8.toNat_ofNat']
    exact h
  rw [u4, hv, hbyte _ a (by omega), hbyte _ b (by omega), hbyte _ c (by omega), hbyte _ d (by omega)]

end Text

namespace ByteReader

variable {α β : Type} {t rest : Text}

theorem pure_eq_ok {x y : α} :
    (pure x : ByteReader α) t = .ok (y, rest) ↔ x = y ∧ t = rest := by
  show Except.ok (x, t) = .ok (y, rest) ↔ _
  rw [Except.ok.injEq, Prod.mk.injEq]

theorem bind_eq_ok {r : ByteReader α} {f : α → ByteReader β} {y : β} :
    (r >>= f) t = .ok (y, rest) ↔ ∃ x mid, r t = .ok (x, mid) ∧ f x mid = .ok (y, rest) := by
  simp only [bind]
  cases h : r t with
  | error e => simp
  | ok found =>
    obtain ⟨x, mid⟩ := found
    simp

theorem doing_eq_ok {r : ByteReader α} {what : Text} {found : α × Text} :
    r.doing what t = .ok found ↔ r t = .ok found := by
  unfold doing
  cases r t with
  | error e => simp
  | ok found => rfl

theorem fail_eq_ok {e : Failure} {found : α × Text} :
    (fail e : ByteReader α) t = .ok found ↔ False := by
  simp [fail]

theorem u1_eq_ok {b : UInt8} : u1 t = .ok (b, rest) ↔ t = b :: rest := by
  cases t with
  | nil => simp [u1]
  | cons c t => simp [u1]

theorem u2_eq_ok {v : UInt16} : u2 t = .ok (v, rest) ↔ t = Text.u2 v ++ rest := by
  constructor
  · intro h
    unfold u2 at h
    split at h
    · cases h
      rw [Text.u2_toU2]
      rfl
    · cases h
  · rintro rfl
    exact takes_u2 v rest

theorem u4_eq_ok {v : UInt32} : u4 t = .ok (v, rest) ↔ t = Text.u4 v ++ rest := by
  constructor
  · intro h
    unfold u4 at h
    split at h
    · cases h
      rw [Text.u4_toU4]
      rfl
    · cases h
  · rintro rfl
    exact takes_u4 v rest

theorem splitLoop_eq_some {n : Nat} {done a : Text} (h : splitLoop n t done = some (a, rest)) :
    ∃ b, a = done.reverse ++ b ∧ t = b ++ rest ∧ b.length = n := by
  induction n, t, done using splitLoop.induct with
  | case1 t done =>
    cases h
    exact ⟨[], by simp, rfl, rfl⟩
  | case2 n done => cases h
  | case3 n c t done ih =>
    obtain ⟨b, rfl, rfl, hb⟩ := ih h
    exact ⟨c :: b, by simp, rfl, by rw [List.length_cons, hb]⟩

theorem bytes_eq_ok {n : Nat} {short : Text → Failure} {a : Text} :
    bytes n short t = .ok (a, rest) ↔ t = a ++ rest ∧ n = a.length := by
  constructor
  · intro h
    unfold bytes split? at h
    split at h
    · rename_i hs
      cases h
      obtain ⟨b, rfl, ht, hn⟩ := splitLoop_eq_some hs
      exact ⟨ht, hn.symm⟩
    · cases h
  · rintro ⟨rfl, hn⟩
    exact takes_bytes hn short rest

theorem skip_eq_ok {n : Nat} {u : Unit} : skip n t = .ok (u, rest) ↔ t.drop n = rest := by
  simp [skip]

/-- The reader takes off the texts that spell its result, and no other ones. -/
def Fits (r : ByteReader α) (R : α → Text → Prop) : Prop :=
  ∀ t x rest, r t = .ok (x, rest) ↔ ∃ a, R x a ∧ t = a ++ rest

/-- If something is read behind a skip, then the skipped bytes are all there. -/
theorem eq_append_of_drop {n : Nat} {t b : Text} (h : t.drop n = b) (hb : b ≠ []) :
    ∃ a, a.length = n ∧ t = a ++ b := by
  have hlt : n < t.length := by
    by_contra hge
    rw [List.drop_eq_nil_of_le (Nat.le_of_not_lt hge)] at h
    exact hb h.symm
  refine ⟨t.take n, ?_, ?_⟩
  · rw [List.length_take]
    omega
  · rw [← h, List.take_append_drop]

section
variable {item : Nat → ByteReader α} {R : α → Text → Prop} (hitem : ∀ i, Fits (item i) R)
include hitem

theorem timesLoop_eq_ok {n i : Nat} {done xs : List α} :
    timesLoop item n i done t = .ok (xs, rest) ↔
      ∃ ys a, xs = done.reverse ++ ys ∧ ys.length = n ∧ Row R ys a ∧ t = a ++ rest := by
  induction n generalizing i done t with
  | zero =>
    simp only [timesLoop, Except.ok.injEq, Prod.mk.injEq]
    constructor
    · rintro ⟨rfl, rfl⟩
      exact ⟨[], [], by simp, rfl, .nil, rfl⟩
    · rintro ⟨ys, a, rfl, hlen, hrow, rfl⟩
      cases hrow with
      | nil => simp
      | cons _ _ => cases hlen
  | succ n ih =>
    simp only [timesLoop]
    constructor
    · intro h
      cases hx : item i t with
      | error e => rw [hx] at h; cases h
      | ok found =>
        obtain ⟨x, mid⟩ := found
        rw [hx] at h
        obtain ⟨a, hxa, rfl⟩ := (hitem i t x mid).mp hx
        obtain ⟨ys, b, rfl, hlen, hrow, rfl⟩ := ih.mp h
        refine ⟨x :: ys, a ++ b, by simp, by rw [List.length_cons, hlen], .cons hxa hrow, ?_⟩
        rw [List.append_assoc]
    · rintro ⟨ys, a, rfl, hlen, hrow, rfl⟩
      cases hrow with
      | nil => cases hlen
      | @cons x ys a b hxa hrow =>
        have hx : item i (a ++ (b ++ rest)) = .ok (x, b ++ rest) :=
          (hitem i _ _ _).mpr ⟨a, hxa, rfl⟩
        rw [List.append_assoc, hx]
        exact ih.mpr ⟨ys, b, by simp, Nat.succ.inj hlen, hrow, rfl⟩

theorem times_eq_ok {n start : Nat} {xs : List α} :
    times n start item t = .ok (xs, rest) ↔ ∃ a, xs.length = n ∧ Row R xs a ∧ t = a ++ rest := by
  rw [times, timesLoop_eq_ok hitem]
  constructor
  · rintro ⟨ys, a, rfl, h⟩
    exact ⟨a, h⟩
  · rintro ⟨a, h⟩
    exact ⟨xs, a, rfl, h⟩

theorem fits_counted (what : Text) :
    Fits (do let n ← doing what u2; times n.toNat 0 item) (Counted R) := by
  intro t xs rest
  simp only [bind_eq_ok, doing_eq_ok, u2_eq_ok, times_eq_ok hitem]
  constructor
  · rintro ⟨n, _, rfl, a, hlen, hrow, rfl⟩
    exact ⟨_, .mk n hlen.symm hrow, (List.append_assoc ..).symm⟩
  · rintro ⟨_, ⟨n, hlen, hrow⟩, rfl⟩
    exact ⟨n, _, List.append_assoc .., _, hlen.symm, hrow, rfl⟩

end

end ByteReader

/-! ## The readers of class files -/

namespace ParsedClass

open ByteReader

theorem bytes_of_spelled {e : Entry} {a : Text} (h : e.Spelled a) :
    ClassFile.entryObstacle? e = none ∧ e.bytes = a := by
  cases h with
  | @utf8 n t hn =>
    have hlt := n.toNat_lt
    have hofNat : UInt16.ofNat t.length = n := by rw [← hn, UInt16.ofNat_toNat]
    refine ⟨?_, ?_⟩
    · rw [ClassFile.entryObstacle?, if_neg (by omega)]
    · rw [Entry.bytes, hofNat]
      rfl
  | integer v => exact ⟨rfl, by rw [Entry.bytes, UInt32.toUInt32_toInt32]; rfl⟩
  | classRef n => exact ⟨rfl, rfl⟩
  | fieldref o m => exact ⟨rfl, rfl⟩
  | methodref o m => exact ⟨rfl, rfl⟩
  | nameAndType n d => exact ⟨rfl, rfl⟩

theorem fits_readEntry (i : Nat) : Fits (readEntry i) Entry.Spelled := by
  intro t e rest
  constructor
  · intro h
    simp only [readEntry, bind_eq_ok, doing_eq_ok, u1_eq_ok] at h
    obtain ⟨tag, mid, rfl, h⟩ := h
    -- one case for each tag, in the order of the reader
    split at h
    · simp only [bind_eq_ok, doing_eq_ok, u2_eq_ok, bytes_eq_ok, pure_eq_ok] at h
      obtain ⟨n, _, rfl, a, _, ⟨rfl, hn⟩, rfl, rfl⟩ := h
      exact ⟨_, .utf8 n hn, by simp⟩
    · simp only [bind_eq_ok, doing_eq_ok, u4_eq_ok, pure_eq_ok] at h
      obtain ⟨v, _, rfl, rfl, rfl⟩ := h
      exact ⟨_, .integer v, rfl⟩
    · simp only [bind_eq_ok, doing_eq_ok, u2_eq_ok, pure_eq_ok] at h
      obtain ⟨n, _, rfl, rfl, rfl⟩ := h
      exact ⟨_, .classRef n, rfl⟩
    · simp only [bind_eq_ok, doing_eq_ok, u2_eq_ok, pure_eq_ok] at h
      obtain ⟨n, _, rfl, d, _, rfl, rfl, rfl⟩ := h
      exact ⟨_, .nameAndType n d, rfl⟩
    · simp only [bind_eq_ok, doing_eq_ok, u2_eq_ok, pure_eq_ok] at h
      obtain ⟨o, _, rfl, m, _, rfl, rfl, rfl⟩ := h
      exact ⟨_, .fieldref o m, rfl⟩
    · simp only [bind_eq_ok, doing_eq_ok, u2_eq_ok, pure_eq_ok] at h
      obtain ⟨o, _, rfl, m, _, rfl, rfl, rfl⟩ := h
      exact ⟨_, .methodref o m, rfl⟩
    · exact (fail_eq_ok.mp h).elim
  · rintro ⟨a, ha, rfl⟩
    obtain ⟨hwritten, rfl⟩ := bytes_of_spelled ha
    exact takes_entry hwritten i rest

theorem readPool_eq_ok {count : UInt16} {t rest : Text} {p : Pool} :
    readPool count t = .ok (p, rest) ↔
      ∃ es a, es.length = max count.toNat 1 - 1 ∧ Row Entry.Spelled es a ∧ p = Pool.ofList es ∧
        t = a ++ rest := by
  have hmax : max count.toNat 1 - 1 = count.toNat - 1 := by omega
  simp only [readPool_eq, bind_eq_ok, times_eq_ok fits_readEntry, pure_eq_ok, hmax]
  constructor
  · rintro ⟨es, _, ⟨a, hlen, hrow, rfl⟩, rfl, rfl⟩
    exact ⟨es, a, hlen, hrow, rfl, rfl⟩
  · rintro ⟨es, a, hlen, hrow, rfl, rfl⟩
    exact ⟨es, rest, ⟨a, hlen, hrow, rfl⟩, rfl, rfl⟩

theorem resolveText_eq_ok {p : Pool} {index : UInt16} {t rest name : Text} :
    resolveText p index t = .ok (name, rest) ↔ p.get? index = some (.utf8 name) ∧ t = rest := by
  rw [← Pool.utf8_eq_ok, resolveText]
  cases p.utf8 index with
  | error u => simp [fail_eq_ok]
  | ok text => simp [pure_eq_ok]

theorem fits_readAttribute (p : Pool) (i : Nat) : Fits (readAttribute p i) (Attribute.Spelled p) := by
  intro t x rest
  simp only [readAttribute, bind_eq_ok, doing_eq_ok, u2_eq_ok, u4_eq_ok, resolveText_eq_ok,
    bytes_eq_ok, pure_eq_ok]
  constructor
  · rintro ⟨index, _, rfl, n, _, rfl, name, _, ⟨hname, rfl⟩, data, _, ⟨rfl, hn⟩, rfl, rfl⟩
    exact ⟨_, .mk index n hname hn, by simp only [List.append_assoc]⟩
  · rintro ⟨_, ⟨index, n, hname, hn⟩, rfl⟩
    simp only [List.append_assoc]
    exact ⟨index, _, rfl, n, _, rfl, _, _, ⟨hname, rfl⟩, _, _, ⟨rfl, hn⟩, rfl, rfl⟩

theorem fits_readAttributes (p : Pool) :
    Fits (readAttributes p) (Counted (Attribute.Spelled p)) :=
  fits_counted (fits_readAttribute p) "reading attributes count"

theorem readCode_eq_ok {p : Pool} {t : Text} {c : ParsedCode} :
    (∃ rest, readCode p t = .ok (c, rest)) ↔ c.Spelled p t := by
  have hattributes := fits_readAttributes p
  unfold Fits at hattributes
  simp only [readCode, bind_eq_ok, doing_eq_ok, u2_eq_ok, u4_eq_ok, bytes_eq_ok, skip_eq_ok,
    pure_eq_ok, hattributes]
  constructor
  · rintro ⟨_, maxStack, _, rfl, maxLocals, _, rfl, n, _, rfl, code, _, ⟨rfl, hn⟩, e, _, rfl,
      _, _, hskip, attributes, ignored, ⟨a, ha, rfl⟩, rfl, rfl⟩
    -- the count behind the handlers was there, so the handlers were
    have hne : a ++ ignored ≠ [] := List.append_ne_nil_of_left_ne_nil ha.ne_nil _
    obtain ⟨handlers, hlen, rfl⟩ := eq_append_of_drop hskip hne
    exact .mk maxStack maxLocals n e hn (by omega) ha
  · intro h
    cases h with
    | @mk maxStack maxLocals n e code handlers a ignored attributes hn hlen ha =>
      refine ⟨ignored, maxStack, _, rfl, maxLocals, _, rfl, n, _, rfl, code, _, ⟨rfl, hn⟩, e, _, rfl,
        (), _, ?_, attributes, _, ⟨a, ha, rfl⟩, rfl, rfl⟩
      exact List.drop_left' (by omega)

theorem codeOf_eq_ok {p : Pool} {name : Text} {attributes : List Attribute}
    {code : Option ParsedCode} :
    codeOf p name attributes = .ok code ↔ ParsedCode.In p attributes code := by
  unfold codeOf
  constructor
  · intro h
    split at h
    · rename_i hnone
      cases h
      exact .none hnone
    · rename_i a hsome
      split at h
      · rename_i c rest hread
        cases h
        exact .some hsome (readCode_eq_ok.mp ⟨rest, hread⟩)
      · cases h
  · intro h
    cases h with
    | none hnone => rw [hnone]
    | some hsome hc =>
      obtain ⟨rest, hread⟩ := readCode_eq_ok.mpr hc
      rw [hsome]
      simp only [hread]

theorem fits_readMember (p : Pool) (what : Text) (i : Nat) :
    Fits (readMember p what i) (ParsedMember.Spelled p) := by
  have hattributes := fits_readAttributes p
  unfold Fits at hattributes
  intro t m rest
  simp only [readMember, bind_eq_ok, doing_eq_ok, u2_eq_ok, resolveText_eq_ok, hattributes]
  constructor
  · rintro ⟨access, _, rfl, nameIndex, _, rfl, descriptorIndex, _, rfl, name, _, ⟨hname, rfl⟩,
      descriptor, _, ⟨hdescriptor, rfl⟩, attributes, _, ⟨a, ha, rfl⟩, h⟩
    cases hcode : codeOf p name attributes with
    | error e =>
      rw [hcode] at h
      exact (fail_eq_ok.mp h).elim
    | ok code =>
      rw [hcode] at h
      obtain ⟨rfl, rfl⟩ := pure_eq_ok.mp h
      refine ⟨_, .mk access nameIndex descriptorIndex hname hdescriptor ha (codeOf_eq_ok.mp hcode), ?_⟩
      simp only [List.append_assoc]
  · rintro ⟨_, ⟨access, nameIndex, descriptorIndex, hname, hdescriptor, ha, hcode⟩, rfl⟩
    simp only [List.append_assoc]
    refine ⟨access, _, rfl, nameIndex, _, rfl, descriptorIndex, _, rfl, _, _, ⟨hname, rfl⟩,
      _, _, ⟨hdescriptor, rfl⟩, _, _, ⟨_, ha, rfl⟩, ?_⟩
    rw [codeOf_eq_ok.mpr hcode]
    exact pure_eq_ok.mpr ⟨rfl, rfl⟩

theorem fits_readMembers (p : Pool) (what : Text) :
    Fits (readMembers p what) (Counted (ParsedMember.Spelled p)) :=
  fits_counted (fits_readMember p what) ("reading " ++ what ++ "s count")

theorem readMagic_eq_ok {t rest : Text} {u : Unit} :
    readMagic t = .ok (u, rest) ↔ t = Text.u4 0xCAFEBABE ++ rest := by
  constructor
  · intro h
    simp only [readMagic, bind_eq_ok, doing_eq_ok, u4_eq_ok] at h
    obtain ⟨magic, mid, rfl, h⟩ := h
    split at h
    · rename_i hmagic
      obtain ⟨_, rfl⟩ := pure_eq_ok.mp h
      rw [hmagic]
    · exact (fail_eq_ok.mp h).elim
  · rintro rfl
    exact takes_magic rest

theorem fits_read : Fits read Spelled := by
  have hattributes := fits_readAttributes
  have hmembers := fits_readMembers
  unfold Fits at hattributes hmembers
  intro t c rest
  simp only [read, bind_eq_ok, readMagic_eq_ok, doing_eq_ok, u2_eq_ok, readPool_eq_ok, skip_eq_ok,
    pure_eq_ok, hattributes, hmembers]
  constructor
  · rintro ⟨_, _, rfl, minor, _, rfl, major, _, rfl, count, _, rfl, _, _,
      ⟨es, entries, hes, hentries, rfl, rfl⟩, access, _, rfl, thisClass, _, rfl, superClass, _, rfl,
      n, _, rfl, _, _, hskip, fields, _, ⟨f, hf, rfl⟩, methods, _, ⟨m, hm, rfl⟩,
      attributes, left, ⟨a, ha, rfl⟩, rfl, rfl⟩
    have hne : f ++ (m ++ (a ++ left)) ≠ [] := List.append_ne_nil_of_left_ne_nil hf.ne_nil _
    obtain ⟨interfaces, hlen, rfl⟩ := eq_append_of_drop hskip hne
    rw [Nat.mul_comm] at hlen
    refine ⟨_, .mk minor major count access thisClass superClass n hes hentries hlen hf hm ha, ?_⟩
    simp only [List.append_assoc]
  · rintro ⟨_, ⟨minor, major, count, access, thisClass, superClass, n, hes, hentries, hlen, hf,
      hm, ha⟩, rfl⟩
    simp only [List.append_assoc]
    refine ⟨(), _, rfl, minor, _, rfl, major, _, rfl, count, _, rfl, _, _,
      ⟨_, _, hes, hentries, rfl, rfl⟩, access, _, rfl, thisClass, _, rfl, superClass, _, rfl,
      n, _, rfl, (), _, ?_, _, _, ⟨_, hf, rfl⟩, _, _, ⟨_, hm, rfl⟩, _, _, ⟨_, ha, rfl⟩, rfl, rfl⟩
    exact List.drop_left' (by omega)

theorem parse_eq_ok {data : Text} {c : ParsedClass} : parse data = .ok c ↔ c.Spelled data := by
  have hread : parse data = .ok c ↔ read data = .ok (c, []) := by
    unfold parse
    split
    · rename_i h
      simp [h]
    · rename_i h
      simp [h]
    · rename_i rest hne h
      rw [h]
      constructor
      · intro h
        cases h
      · intro h
        cases h
        exact (hne rfl).elim
  rw [hread, fits_read]
  constructor
  · rintro ⟨a, ha, rfl⟩
    rwa [List.append_nil]
  · intro h
    exact ⟨data, h, (List.append_nil data).symm⟩

end ParsedClass

/-! ## What is reported -/

namespace ByteReader

variable {α β : Type}

/-- However the reader fails, it is not for a pool that is full. -/
def Spares (r : ByteReader α) : Prop := ∀ t f, r t = .error f → f.hasCode Code.poolFull = false

theorem spares_pure (x : α) : Spares (pure x) := by
  intro t f h
  cases h

theorem Spares.bind {r : ByteReader α} {g : α → ByteReader β} (hr : Spares r)
    (hg : ∀ x, Spares (g x)) : Spares (r >>= g) := by
  intro t f h
  simp only [Bind.bind] at h
  split at h
  · exact hg _ _ f h
  · rename_i e he
    cases h
    exact hr t f he

theorem Spares.doing {r : ByteReader α} (hr : Spares r) (what : Text) : Spares (r.doing what) := by
  intro t f h
  unfold ByteReader.doing at h
  split at h
  · cases h
  · rename_i e he
    cases h
    exact hr t e he

theorem spares_fail {f : Failure} (hf : f.hasCode Code.poolFull = false) :
    Spares (fail f : ByteReader α) := by
  intro t f h
  cases h
  exact hf

theorem spares_u1 : Spares u1 := by
  intro t f h
  unfold u1 at h
  split at h
  · cases h
  · cases h; rfl

theorem spares_u2 : Spares u2 := by
  intro t f h
  unfold u2 at h
  split at h
  · cases h
  · cases h; rfl

theorem spares_u4 : Spares u4 := by
  intro t f h
  unfold u4 at h
  split at h
  · cases h
  · cases h; rfl

theorem spares_bytes (n : Nat) {short : Text → Failure}
    (hs : ∀ t, (short t).hasCode Code.poolFull = false) : Spares (bytes n short) := by
  intro t f h
  unfold bytes at h
  split at h
  · cases h
  · cases h; exact hs t

theorem spares_skip (n : Nat) : Spares (skip n) := by
  intro t f h
  cases h

theorem spares_times {item : Nat → ByteReader α} (h : ∀ i, Spares (item i)) (n start : Nat) :
    Spares (times n start item) := by
  have hloop (n : Nat) : ∀ i done, Spares (timesLoop item n i done) := by
    induction n with
    | zero =>
      intro i done t f hf
      cases hf
    | succ n ih =>
      intro i done t f hf
      simp only [timesLoop] at hf
      split at hf
      · exact ih _ _ _ f hf
      · rename_i e he
        cases hf
        exact h i t f he
  exact hloop n start []

end ByteReader

namespace ParsedClass

open ByteReader

theorem spares_readEntry (i : Nat) : Spares (readEntry i) := by
  refine (spares_u1.doing _).bind fun tag => ?_
  have hplain (t : Text) : (ended t).hasCode Code.poolFull = false := rfl
  have htwo (what : Text) (g : UInt16 → UInt16 → Entry) :
      Spares (do return g (← doing what u2) (← doing what u2)) :=
    (spares_u2.doing _).bind fun _ => (spares_u2.doing _).bind fun _ => spares_pure _
  split
  · exact (spares_u2.doing _).bind fun n =>
      ((spares_bytes _ hplain).doing _).bind fun _ => spares_pure _
  · exact (spares_u4.doing _).bind fun _ => spares_pure _
  · exact (spares_u2.doing _).bind fun _ => spares_pure _
  · exact htwo _ _
  · exact htwo _ _
  · exact htwo _ _
  · have hcode : Code.unknownTag ≠ Code.poolFull := by decide
    exact spares_fail (by simp only [Failure.hasCode, Failure.diagnosis?, hcode, decide_false])

theorem spares_readPool (count : UInt16) : Spares (readPool count) := by
  rw [readPool_eq]
  exact (spares_times spares_readEntry _ _).bind fun _ => spares_pure _

theorem spares_resolveText (p : Pool) (index : UInt16) : Spares (resolveText p index) := by
  unfold resolveText
  split
  · exact spares_pure _
  · exact spares_fail rfl

theorem spares_readAttributes (p : Pool) : Spares (readAttributes p) := by
  have hone (i : Nat) : Spares (readAttribute p i) :=
    (spares_u2.doing _).bind fun _ => (spares_u4.doing _).bind fun _ =>
      ((spares_resolveText p _).doing _).bind fun _ =>
        (spares_bytes _ fun _ => rfl).bind fun _ => spares_pure _
  exact (spares_u2.doing _).bind fun _ => spares_times hone _ _

theorem spares_readCode (p : Pool) : Spares (readCode p) :=
  (spares_u2.doing _).bind fun _ => (spares_u2.doing _).bind fun _ => (spares_u4.doing _).bind fun _ =>
    (spares_bytes _ fun _ => rfl).bind fun _ => (spares_u2.doing _).bind fun _ =>
      (spares_skip _).bind fun _ => (spares_readAttributes p).bind fun _ => spares_pure _

theorem spares_readMembers (p : Pool) (what : Text) : Spares (readMembers p what) := by
  have hone (i : Nat) : Spares (readMember p what i) := by
    refine (spares_u2.doing _).bind fun _ => (spares_u2.doing _).bind fun _ =>
      (spares_u2.doing _).bind fun _ => ((spares_resolveText p _).doing _).bind fun name =>
        ((spares_resolveText p _).doing _).bind fun _ =>
          ((spares_readAttributes p).doing _).bind fun attributes => ?_
    split
    · exact spares_pure _
    · rename_i e he
      refine spares_fail ?_
      unfold codeOf at he
      split at he
      · cases he
      · split at he
        · cases he
        · rename_i f hf
          cases he
          exact spares_readCode p _ f hf
  exact (spares_u2.doing _).bind fun _ => spares_times hone _ _

theorem spares_read : Spares read := by
  have hmagic : Spares readMagic := by
    refine (spares_u4.doing _).bind fun magic => ?_
    split
    · exact spares_pure _
    · exact spares_fail rfl
  exact hmagic.bind fun _ => (spares_u2.doing _).bind fun _ => (spares_u2.doing _).bind fun _ =>
    (spares_u2.doing _).bind fun _ => ((spares_readPool _).doing _).bind fun p =>
      (spares_u2.doing _).bind fun _ => (spares_u2.doing _).bind fun _ =>
        (spares_u2.doing _).bind fun _ => (spares_u2.doing _).bind fun _ =>
          (spares_skip _).bind fun _ => (spares_readMembers p _).bind fun _ =>
            (spares_readMembers p _).bind fun _ => ((spares_readAttributes p).doing _).bind fun _ =>
              spares_pure _

theorem spares_parse {data : Text} {f : Failure} (h : parse data = .error f) :
    f.hasCode Code.poolFull = false := by
  unfold parse at h
  split at h
  · rename_i e he
    cases h
    exact spares_read data f he
  · cases h
  · cases h
    rfl

/-- A text is read as a class exactly if it spells the class, and no text is refused
for a pool that is full: its count is too narrow for that. -/
theorem parse_iff_spelled (data : Text) :
    (∀ c, parse data = .ok c ↔ c.Spelled data) ∧
      ∀ f, parse data = .error f → f.hasCode Code.poolFull = false :=
  ⟨fun _ => parse_eq_ok, fun _ => spares_parse⟩

/-! ## Where a class file ends -/

def Accepts (data : Text) : Prop := ∃ c, parse data = .ok c

/-- What is read does not hang on what follows. -/
theorem read_append {t rest : Text} {c : ParsedClass} (h : read t = .ok (c, rest)) (x : Text) :
    read (t ++ x) = .ok (c, rest ++ x) := by
  obtain ⟨a, ha, rfl⟩ := (fits_read t c rest).mp h
  exact (fits_read _ c _).mpr ⟨a, ha, List.append_assoc ..⟩

theorem read_of_parse {data : Text} {c : ParsedClass} (h : parse data = .ok c) :
    read data = .ok (c, []) :=
  (fits_read data c []).mpr ⟨data, parse_eq_ok.mp h, (List.append_nil data).symm⟩

theorem parse_of_trailing {t rest : Text} {c : ParsedClass} (h : read t = .ok (c, rest))
    (hrest : rest ≠ []) :
    parse t = .error (.plain (Text.ofNat rest.length ++ " trailing bytes after class attributes")) := by
  unfold parse
  rw [h]
  cases rest with
  | nil => exact absurd rfl hrest
  | cons b rest => rfl

theorem Accepts.parse_append {a : Text} (h : Accepts a) {x : Text} (hx : x ≠ []) :
    parse (a ++ x) =
      .error (.plain (Text.ofNat x.length ++ " trailing bytes after class attributes")) := by
  obtain ⟨c, hc⟩ := h
  exact parse_of_trailing (read_append (read_of_parse hc) x) hx

/-- No class file is the beginning of another: one with bytes behind it is refused for
these bytes, and one that is cut off is refused wherever it is cut. -/
theorem accepts_prefix_free (a : Text) (h : Accepts a) :
    (∀ x, x ≠ [] → ¬ Accepts (a ++ x) ∧ parse (a ++ x) =
      .error (.plain (Text.ofNat x.length ++ " trailing bytes after class attributes"))) ∧
    ∀ n < a.length, ∃ f, parse (a.take n) = .error f := by
  constructor
  · intro x hx
    have hrefused := h.parse_append hx
    refine ⟨?_, hrefused⟩
    rintro ⟨c, hc⟩
    rw [hrefused] at hc
    cases hc
  · intro n hn
    cases hcut : parse (a.take n) with
    | error f => exact ⟨f, rfl⟩
    | ok c =>
      -- what was cut off would be trailing bytes of the whole
      have hdrop : a.drop n ≠ [] := List.drop_eq_nil_iff.not.mpr (Nat.not_le.mpr hn)
      have hrefused := Accepts.parse_append ⟨c, hcut⟩ hdrop
      rw [List.take_append_drop] at hrefused
      obtain ⟨c', hc'⟩ := h
      rw [hrefused] at hc'
      cases hc'

theorem accepts_prefix_free_sample :
    Accepts ClassFile.sample.bytes ∧
      parse (ClassFile.sample.bytes ++ [0]) = .error (.plain "1 trailing bytes after class attributes") ∧
      ∃ f, parse (ClassFile.sample.bytes.take 20) = .error f := by
  obtain ⟨r, -, ht⟩ := takes_class ClassFile.sample_readable (by decide)
  have haccepts : Accepts ClassFile.sample.bytes := ⟨r, parse_of_takes ht⟩
  obtain ⟨hlonger, hcut⟩ := accepts_prefix_free ClassFile.sample.bytes haccepts
  exact ⟨haccepts, (hlonger [0] (by decide)).2, hcut 20 (by decide +kernel)⟩

end ParsedClass

end ClassForge
