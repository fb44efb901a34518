import Mathlib
import ClassForge.Proofs.Pool
import ClassForge.Proofs.Reading
import ClassForge.ClassFile
import ClassForge.ParsedClass

/-!
# Class files read back

What is written for a class file is read as that class file: the lengths that
the attributes state are the lengths of what follows, and every part is taken
whole. This needs names where names belong, and counts and sizes that their
fields can hold (`ClassFile.Readable`).
-/

namespace ClassForge

open ByteReader ParsedClass

/-! ## What may be written -/

namespace LineTable

def data (t : LineTable) : Text :=
  Text.u2 (UInt16.ofNat t.entries.length) ++
    t.entries.flatMap fun e => Text.u2 e.startPc ++ Text.u2 e.line

structure Readable (pool : Pool) (t : LineTable) : Prop where
  name : pool.utf8 t.name = .ok Attribute.lineNumberTable
  count : t.entries.length ≤ 65535

def parsed (t : LineTable) : Attribute := ⟨Attribute.lineNumberTable, t.data⟩

end LineTable

namespace CodeAttribute

def data (c : CodeAttribute) : Text :=
  Text.u2 c.maxStack ++ (Text.u2 c.maxLocals ++ (Text.u4 (UInt32.ofNat c.code.length) ++ (c.code ++
    (Text.u2 0 ++ (Text.u2 c.count ++ c.written.flatMap LineTable.bytes)))))

def size (c : CodeAttribute) : Nat :=
  12 + c.code.length + (c.written.map fun t => 8 + 4 * t.entries.length).sum

structure Readable (pool : Pool) (c : CodeAttribute) : Prop where
  name : pool.utf8 c.name = .ok Attribute.code
  size : c.size < 2 ^ 32
  count : c.written.length ≤ 65535
  tables : ∀ t ∈ c.written, t.Readable pool

def parsed (c : CodeAttribute) : ParsedCode :=
  ⟨c.maxStack, c.maxLocals, c.code, c.written.map LineTable.parsed⟩

end CodeAttribute

namespace FieldInfo

structure Readable (pool : Pool) (f : FieldInfo) : Prop where
  name : ∃ t, pool.utf8 f.name = .ok t
  descriptor : ∃ t, pool.utf8 f.descriptor = .ok t
  constant : ∀ c, f.constant = some c → pool.utf8 c.name = .ok Attribute.constantValue

structure ReadAs (pool : Pool) (f : FieldInfo) (m : ParsedMember) : Prop where
  access : m.access = f.access
  name : pool.utf8 f.name = .ok m.name
  descriptor : pool.utf8 f.descriptor = .ok m.descriptor
  attributes :
    m.attributes = f.constant.toList.map fun c => ⟨Attribute.constantValue, Text.u2 c.value⟩
  code : m.code = none

end FieldInfo

namespace MethodInfo

structure Readable (pool : Pool) (m : MethodInfo) : Prop where
  name : ∃ t, pool.utf8 m.name = .ok t
  descriptor : ∃ t, pool.utf8 m.descriptor = .ok t
  code : ∀ c, m.code = some c → c.Readable pool

structure ReadAs (pool : Pool) (m : MethodInfo) (r : ParsedMember) : Prop where
  access : r.access = m.access
  name : pool.utf8 m.name = .ok r.name
  descriptor : pool.utf8 m.descriptor = .ok r.descriptor
  attributes : r.attributes = m.code.toList.map fun c => ⟨Attribute.code, c.data⟩
  code : r.code = m.code.map CodeAttribute.parsed

end MethodInfo

namespace ClassFile

/-- The names of the class file are texts of its pool, and its counts and sizes
are within the reach of their fields. -/
structure Readable (c : ClassFile) : Prop where
  magic : c.magic = 0xCAFEBABE
  pool : c.pool.Built
  fieldCount : c.fields.length ≤ 65535
  methodCount : c.methods.length ≤ 65535
  fields : ∀ f ∈ c.fields, f.Readable c.pool
  methods : ∀ m ∈ c.methods, m.Readable c.pool
  source : c.pool.utf8 c.source.name = .ok Attribute.sourceFile

structure ReadAs (c : ClassFile) (r : ParsedClass) : Prop where
  minor : r.minor = c.minor
  major : r.major = c.major
  pool : r.pool = c.pool.freeze
  access : r.access = c.access
  thisClass : r.thisClass = c.thisClass
  superClass : r.superClass = c.superClass
  fields : List.Forall₂ (FieldInfo.ReadAs c.pool) c.fields r.fields
  methods : List.Forall₂ (MethodInfo.ReadAs c.pool) c.methods r.methods
  attributes : r.attributes = [⟨Attribute.sourceFile, Text.u2 c.source.file⟩]

end ClassFile

/-! ## Pool entries -/

theorem toNat_u2_length {n : Nat} (h : n ≤ 65535) : (UInt16.ofNat n).toNat = n := by
  rw [UInt16.toNat_ofNat']; omega

theorem takes_entry {e : Entry} (h : ClassFile.entryObstacle? e = none) (i : Nat) :
    Takes (readEntry i) e.bytes e := by
  cases e with
  | utf8 t =>
    have ht : t.length ≤ 65535 := by
      simp only [ClassFile.entryObstacle?] at h
      split at h
      · cases h
      · omega
    exact ((takes_u1 1).doing _).bind
      (((takes_u2 _).doing _).bind ((takes_bytes (toNat_u2_length ht) _).doing _).bind_pure)
  | integer v =>
    have hv : v.toUInt32.toInt32 = v := by simp
    have := ((takes_u4 v.toUInt32).doing ("reading integer " ++ ("#" ++ numeral i))).bind_pure
      (g := fun w => Entry.integer w.toInt32)
    rw [hv] at this
    exact ((takes_u1 3).doing _).bind this
  | classRef n => exact ((takes_u1 7).doing _).bind ((takes_u2 n).doing _).bind_pure
  | nameAndType n d =>
    exact ((takes_u1 12).doing _).bind (((takes_u2 n).doing _).bind ((takes_u2 d).doing _).bind_pure)
  | fieldref o m =>
    exact ((takes_u1 9).doing _).bind (((takes_u2 o).doing _).bind ((takes_u2 m).doing _).bind_pure)
  | methodref o m =>
    exact ((takes_u1 10).doing _).bind (((takes_u2 o).doing _).bind ((takes_u2 m).doing _).bind_pure)
  | vacant => cases h

/-- The count leaves room for every entry, so none is refused. -/
theorem poolLoop_eq (left i : Nat) (done : List Entry) (h : done.length + left ≤ Pool.capacity) (t : Text) :
    poolLoop left i (Pool.ofList done.reverse) t =
      match timesLoop readEntry left i done t with
      | .ok (es, rest) => .ok (Pool.ofList es, rest)
      | .error e => .error e := by
  induction left generalizing i done t with
  | zero => rfl
  | succ left ih =>
    simp only [poolLoop, timesLoop]
    rcases readEntry i t with f | ⟨e, rest⟩
    · rfl
    · have hadd : (Pool.ofList done.reverse).add e =
          .ok ((Pool.ofList done.reverse).next, Pool.ofList (e :: done).reverse) := by
        refine Pool.add_eq_ok.mpr ⟨?_, ?_, rfl, ?_⟩
        · exact Pool.frozen_extend {} done.reverse
        · have hsize := Pool.size_extend {} done.reverse
          rw [List.length_reverse] at hsize
          show (Pool.extend {} done.reverse).entries.size < _
          rw [hsize]
          simp only [List.size_toArray, List.length_nil]
          omega
        · rw [List.reverse_cons]
          exact Pool.extend_append {} done.reverse [e]
      simp only [hadd]
      exact ih (i + 1) (e :: done) (by rw [List.length_cons]; omega) rest

theorem readPool_eq (count : UInt16) :
    readPool count = (do return Pool.ofList (← times (count.toNat - 1) 1 readEntry)) := by
  funext t
  have hlt := count.toNat_lt
  have hloop := poolLoop_eq (count.toNat - 1) 1 [] (by simp only [List.length_nil, Pool.capacity]; omega) t
  refine hloop.trans ?_
  simp only [bind, times]
  rcases timesLoop readEntry (count.toNat - 1) 1 [] t with f | ⟨es, rest⟩
  · rfl
  · rfl

theorem takes_pool {p : Pool} (hp : p.Built)
    (h : ∀ e ∈ p.entries.toList, ClassFile.entryObstacle? e = none) :
    Takes (readPool p.count) (p.entries.toList.flatMap Entry.bytes) (Pool.ofList p.entries.toList) := by
  have hn : p.count.toNat - 1 = p.entries.toList.length := by
    have hs := hp.size_le
    simp only [Pool.capacity] at hs
    rw [Pool.count, toNat_u2_length (by omega), Array.length_toList]
    rfl
  rw [readPool_eq]
  refine (takes_times hn 1 ?_).bind_pure
  exact List.forall₂_same.mpr fun e he i => takes_entry (h e he) i

/-! ## Attributes -/

def attributeBytes (name : UInt16) (data : Text) : Text :=
  Text.u2 name ++ (Text.u4 (UInt32.ofNat data.length) ++ data)

theorem takes_resolveText {p : Pool} {i : UInt16} {t : Text} (h : p.utf8 i = .ok t) :
    Takes (resolveText p i) [] t := by
  unfold resolveText
  rw [h]
  exact takes_pure t

theorem takes_attribute {p : Pool} {name : UInt16} {n data : Text} (hn : p.utf8 name = .ok n)
    (hd : data.length < 2 ^ 32) (i : Nat) :
    Takes (readAttribute p i) (attributeBytes name data) ⟨n, data⟩ := by
  have hlen : (UInt32.ofNat data.length).toNat = data.length := by
    rw [UInt32.toNat_ofNat']; omega
  exact ((takes_u2 name).doing _).bind (((takes_u4 _).doing _).bind
    (((takes_resolveText hn).doing _).bind_nil (takes_bytes hlen _).bind_pure))

theorem takes_attributes {α : Type} {p : Pool} {text : α → Text} {xs : List α} {as : List Attribute}
    (hc : xs.length ≤ 65535)
    (h : List.Forall₂ (fun x a => ∀ i, Takes (readAttribute p i) (text x) a) xs as) :
    Takes (readAttributes p) (Text.u2 (UInt16.ofNat xs.length) ++ xs.flatMap text) as :=
  ((takes_u2 _).doing _).bind (takes_times (toNat_u2_length hc) 0 h)

theorem takes_no_attributes (p : Pool) : Takes (readAttributes p) (Text.u2 0) [] :=
  @takes_attributes Unit p (fun _ => []) [] [] (Nat.zero_le _) .nil

theorem takes_one_attribute {p : Pool} {name : UInt16} {n data : Text} (hn : p.utf8 name = .ok n)
    (hd : data.length < 2 ^ 32) :
    Takes (readAttributes p) (Text.u2 1 ++ attributeBytes name data) [⟨n, data⟩] := by
  have := @takes_attributes Unit p (fun _ => attributeBytes name data) [()] [⟨n, data⟩] (by decide)
    (.cons (takes_attribute hn hd) .nil)
  rw [List.flatMap_cons, List.flatMap_nil, List.append_nil] at this
  exact this

/-! ## Line tables and code -/

namespace LineTable

theorem length_data (t : LineTable) : t.data.length = 2 + 4 * t.entries.length := by
  have : ∀ es : List LineEntry,
      (es.flatMap fun e => Text.u2 e.startPc ++ Text.u2 e.line).length = 4 * es.length := by
    intro es
    induction es with
    | nil => rfl
    | cons e es ih =>
      rw [List.flatMap_cons, List.length_append, ih]
      simp only [List.length_append, Text.length_u2, List.length_cons]
      omega
  rw [data, List.length_append, this, Text.length_u2]

theorem bytes_eq (t : LineTable) : t.bytes = attributeBytes t.name t.data := by
  have hlen : t.length = UInt32.ofNat t.data.length := by
    rw [length_data, length, UInt32.ofNat_add, UInt32.ofNat_mul]
    rfl
  simp only [bytes, attributeBytes, hlen, data, List.append_assoc]

theorem length_bytes (t : LineTable) : t.bytes.length = 8 + 4 * t.entries.length := by
  rw [bytes_eq, attributeBytes]
  simp only [List.length_append, Text.length_u2, Text.length_u4, length_data]
  omega

end LineTable

theorem takes_table {p : Pool} {t : LineTable} (ht : t.Readable p) (i : Nat) :
    Takes (readAttribute p i) t.bytes t.parsed := by
  have hc := ht.count
  rw [t.bytes_eq]
  refine takes_attribute ht.name ?_ i
  rw [t.length_data]
  omega

namespace CodeAttribute

theorem length_tables (ts : List LineTable) :
    (ts.flatMap LineTable.bytes).length = (ts.map fun t => 8 + 4 * t.entries.length).sum := by
  induction ts with
  | nil => rfl
  | cons t ts ih =>
    rw [List.flatMap_cons, List.length_append, ih, t.length_bytes, List.map_cons, List.sum_cons]

theorem length_data (c : CodeAttribute) : c.data.length = c.size := by
  simp only [data, List.length_append, Text.length_u2, Text.length_u4, length_tables, size]
  omega

/-- The stated length is the size of the contents, as far as four bytes go. -/
theorem length_eq (c : CodeAttribute) : c.length = UInt32.ofNat c.size := by
  have : ∀ (ts : List LineTable) (n : Nat),
      ts.foldr (fun t m => 6 + t.length + m) (UInt32.ofNat n) =
        UInt32.ofNat (n + (ts.map fun t => 8 + 4 * t.entries.length).sum) := by
    intro ts n
    induction ts with
    | nil => rfl
    | cons t ts ih =>
      have ht : 6 + t.length = UInt32.ofNat (8 + 4 * t.entries.length) := by
        rw [LineTable.length, ← UInt32.add_assoc, UInt32.ofNat_add, UInt32.ofNat_mul]
        rfl
      rw [List.foldr_cons, ih, ht, ← UInt32.ofNat_add, List.map_cons, List.sum_cons]
      congr 1
      omega
  rw [length, size, ← this, UInt32.ofNat_add]
  rfl

theorem bytes_eq (c : CodeAttribute) : c.bytes = attributeBytes c.name c.data := by
  rw [attributeBytes, c.length_data, ← c.length_eq]
  simp only [bytes, data, List.append_assoc]

end CodeAttribute

theorem takes_code {p : Pool} {c : CodeAttribute} (hc : c.Readable p) :
    Takes (readCode p) c.data c.parsed := by
  have hsize := hc.size
  have hlen : (UInt32.ofNat c.code.length).toNat = c.code.length := by
    rw [UInt32.toNat_ofNat']
    simp only [CodeAttribute.size] at hsize
    omega
  have htables : List.Forall₂ (fun t a => ∀ i, Takes (readAttribute p i) (LineTable.bytes t) a)
      c.written (c.written.map LineTable.parsed) := by
    rw [List.forall₂_map_right_iff]
    exact List.forall₂_same.mpr fun t ht i => takes_table (hc.tables t ht) i
  exact ((takes_u2 _).doing _).bind (((takes_u2 _).doing _).bind (((takes_u4 _).doing _).bind
    ((takes_bytes hlen _).bind (((takes_u2 0).doing _).bind
      (takes_skip_zero.bind_nil (takes_attributes hc.count htables).bind_pure)))))

/-! ## Members -/

/-- A member: three numbers, then attributes, in which its code is found. -/
theorem takes_member {p : Pool} (access : UInt16) {nameIndex descriptorIndex : UInt16}
    {name descriptor t : Text} {attributes : List Attribute} {code : Option ParsedCode}
    (hn : p.utf8 nameIndex = .ok name) (hd : p.utf8 descriptorIndex = .ok descriptor)
    (ha : Takes (readAttributes p) t attributes) (hc : codeOf p name attributes = .ok code)
    (what : Text) (i : Nat) :
    Takes (readMember p what i)
      (Text.u2 access ++ (Text.u2 nameIndex ++ (Text.u2 descriptorIndex ++ t)))
      ⟨access, name, descriptor, attributes, code⟩ := by
  refine ((takes_u2 _).doing _).bind (((takes_u2 _).doing _).bind (((takes_u2 _).doing _).bind
    (((takes_resolveText hn).doing _).bind_nil (((takes_resolveText hd).doing _).bind_nil
      ((ha.doing _).bind_last ?_)))))
  rw [hc]
  exact takes_pure _

theorem takes_field {p : Pool} {f : FieldInfo} (hf : f.Readable p) :
    ∃ m, f.ReadAs p m ∧ ∀ what i, Takes (readMember p what i) f.bytes m := by
  obtain ⟨name, hn⟩ := hf.name
  obtain ⟨descriptor, hd⟩ := hf.descriptor
  cases hc : f.constant with
  | none =>
    refine ⟨⟨f.access, name, descriptor, [], none⟩, ⟨rfl, hn, hd, by rw [hc]; rfl, rfl⟩, ?_⟩
    intro what i
    have := takes_member f.access hn hd (takes_no_attributes p) rfl what i
    simpa only [FieldInfo.bytes, hc, List.append_assoc] using this
  | some c =>
    refine ⟨⟨f.access, name, descriptor, [⟨Attribute.constantValue, Text.u2 c.value⟩], none⟩,
      ⟨rfl, hn, hd, by rw [hc]; rfl, rfl⟩, ?_⟩
    intro what i
    have hd2 : (Text.u2 c.value).length < 2 ^ 32 := by rw [Text.length_u2]; decide
    have := takes_member f.access hn hd (takes_one_attribute (hf.constant c hc) hd2) rfl what i
    simp only [FieldInfo.bytes, hc, List.append_assoc]
    exact this

theorem codeOf_code {p : Pool} {c : CodeAttribute} (hc : c.Readable p) (name : Text) :
    codeOf p name [⟨Attribute.code, c.data⟩] = .ok (some c.parsed) := by
  have := (takes_code hc).whole
  simp [codeOf, this]

theorem takes_method {p : Pool} {m : MethodInfo} (hm : m.Readable p) :
    ∃ r, m.ReadAs p r ∧ ∀ what i, Takes (readMember p what i) m.bytes r := by
  obtain ⟨name, hn⟩ := hm.name
  obtain ⟨descriptor, hd⟩ := hm.descriptor
  cases hc : m.code with
  | none =>
    refine ⟨⟨m.access, name, descriptor, [], none⟩,
      ⟨rfl, hn, hd, by rw [hc]; rfl, by rw [hc]; rfl⟩, ?_⟩
    intro what i
    have := takes_member m.access hn hd (takes_no_attributes p) rfl what i
    simpa only [MethodInfo.bytes, hc, List.append_assoc] using this
  | some c =>
    have hcode := hm.code c hc
    refine ⟨⟨m.access, name, descriptor, [⟨Attribute.code, c.data⟩], some c.parsed⟩,
      ⟨rfl, hn, hd, by rw [hc]; rfl, by rw [hc]; rfl⟩, ?_⟩
    intro what i
    have hsize : c.data.length < 2 ^ 32 := by rw [c.length_data]; exact hcode.size
    have := takes_member m.access hn hd (takes_one_attribute hcode.name hsize)
      (codeOf_code hcode name) what i
    simpa only [MethodInfo.bytes, hc, c.bytes_eq, List.append_assoc] using this

theorem takes_members {α : Type} {p : Pool} {text : α → Text} {xs : List α} {R : α → ParsedMember → Prop}
    (hc : xs.length ≤ 65535)
    (h : ∀ x ∈ xs, ∃ m, R x m ∧ ∀ what i, Takes (readMember p what i) (text x) m) (what : Text) :
    ∃ ms, List.Forall₂ R xs ms ∧
      Takes (readMembers p what) (Text.u2 (UInt16.ofNat xs.length) ++ xs.flatMap text) ms := by
  have : ∃ ms, List.Forall₂ R xs ms ∧
      List.Forall₂ (fun x m => ∀ i, Takes (readMember p what i) (text x) m) xs ms := by
    clear hc
    induction xs with
    | nil => exact ⟨[], .nil, .nil⟩
    | cons x xs ih =>
      obtain ⟨m, hr, ht⟩ := h x (List.mem_cons_self ..)
      obtain ⟨ms, hrs, hts⟩ := ih fun x hx => h x (List.mem_cons_of_mem _ hx)
      exact ⟨m :: ms, .cons hr hrs, .cons (ht what) hts⟩
  obtain ⟨ms, hr, ht⟩ := this
  exact ⟨ms, hr, ((takes_u2 _).doing _).bind (takes_times (toNat_u2_length hc) 0 ht)⟩

/-! ## Whole files -/

theorem write_eq_ok {c : ClassFile} {data : Text} :
    c.write = .ok data ↔
      (∀ e ∈ c.pool.entries.toList, ClassFile.entryObstacle? e = none) ∧
        (∀ m ∈ c.methods, ClassFile.methodObstacle? m = none) ∧ c.bytes = data := by
  unfold ClassFile.write ClassFile.obstacle?
  rw [← List.findSome?_eq_none_iff, ← List.findSome?_eq_none_iff]
  cases c.pool.entries.toList.findSome? ClassFile.entryObstacle? with
  | some o => simp [Option.orElse]
  | none =>
    cases c.methods.findSome? ClassFile.methodObstacle? with
    | some o => simp [Option.orElse]
    | none => simp [Option.orElse]

theorem takes_magic : Takes readMagic (Text.u4 0xCAFEBABE) () :=
  ((takes_u4 _).doing _).bind_last (takes_pure ())

theorem takes_class {c : ClassFile} (hc : c.Readable)
    (he : ∀ e ∈ c.pool.entries.toList, ClassFile.entryObstacle? e = none) :
    ∃ r, c.ReadAs r ∧ Takes read c.bytes r := by
  obtain ⟨fields, hfields, htf⟩ := takes_members hc.fieldCount
    (fun f hf => takes_field (hc.fields f hf)) "field"
  obtain ⟨methods, hmethods, htm⟩ := takes_members hc.methodCount
    (fun m hm => takes_method (hc.methods m hm)) "method"
  have hsource : (Text.u2 c.source.file).length < 2 ^ 32 := by rw [Text.length_u2]; decide
  -- the reader sees the pool before it is frozen, which no look-up can tell
  have hpool := hc.pool.ofList_entries
  have hread (what : Text) :
      readMembers (Pool.ofList c.pool.entries.toList) what = readMembers c.pool what := by
    rw [hpool]; rfl
  have hattrs : readAttributes (Pool.ofList c.pool.entries.toList) = readAttributes c.pool := by
    rw [hpool]; rfl
  rw [← hread] at htf htm
  have hts := takes_one_attribute hc.source hsource
  rw [← hattrs] at hts
  refine ⟨⟨c.minor, c.major, (Pool.ofList c.pool.entries.toList).freeze, c.access, c.thisClass,
    c.superClass, fields, methods, [⟨Attribute.sourceFile, Text.u2 c.source.file⟩]⟩,
    ⟨rfl, rfl, by rw [hpool]; rfl, rfl, rfl, rfl, hfields, hmethods, rfl⟩, ?_⟩
  have hbytes : c.bytes = Text.u4 0xCAFEBABE ++ (Text.u2 c.minor ++ (Text.u2 c.major ++
      (Text.u2 c.pool.count ++ (c.pool.entries.toList.flatMap Entry.bytes ++ (Text.u2 c.access ++
      (Text.u2 c.thisClass ++ (Text.u2 c.superClass ++ (Text.u2 0 ++
      ((Text.u2 (UInt16.ofNat c.fields.length) ++ c.fields.flatMap FieldInfo.bytes) ++
      ((Text.u2 (UInt16.ofNat c.methods.length) ++ c.methods.flatMap MethodInfo.bytes) ++
      (Text.u2 1 ++ attributeBytes c.source.name (Text.u2 c.source.file)))))))))))) := by
    simp only [ClassFile.bytes, hc.magic, attributeBytes, Text.length_u2, List.flatten_cons,
      List.flatten_nil, List.append_nil, List.append_assoc]
    rfl
  rw [hbytes]
  exact takes_magic.bind (((takes_u2 _).doing _).bind (((takes_u2 _).doing _).bind
    (((takes_u2 _).doing _).bind (((takes_pool hc.pool he).doing _).bind (((takes_u2 _).doing _).bind
    (((takes_u2 _).doing _).bind (((takes_u2 _).doing _).bind (((takes_u2 _).doing _).bind
    (takes_skip_zero.bind_nil (htf.bind (htm.bind (hts.doing _).bind_pure)))))))))))

theorem parse_of_takes {t : Text} {r : ParsedClass} (h : Takes read t r) : parse t = .ok r := by
  simp [parse, h.whole]

/-- A class file that is written is read back as it was. -/
theorem parse_write (c : ClassFile) (hc : c.Readable) (data : Text) (hw : c.write = .ok data) :
    ∃ r, parse data = .ok r ∧ c.ReadAs r := by
  obtain ⟨he, _, rfl⟩ := write_eq_ok.mp hw
  obtain ⟨r, hr, ht⟩ := takes_class hc he
  exact ⟨r, parse_of_takes ht, hr⟩

def ClassFile.sample : ClassFile where
  pool := Pool.ofList [.utf8 "k", .utf8 "I", .utf8 Attribute.constantValue, .integer (-3),
    .utf8 "<init>", .utf8 "()V", .utf8 Attribute.code, .utf8 Attribute.lineNumberTable,
    .utf8 Attribute.sourceFile, .utf8 "K.java"]
  fields := [⟨Access.isFinal, 1, 2, some ⟨3, 4⟩⟩]
  methods := [⟨Access.package, 5, 6, some ⟨7, 2, 1, [0x2A, 0xB1], some [⟨8, [⟨0, 7⟩]⟩]⟩⟩]
  source := ⟨9, 10⟩

theorem ClassFile.sample_readable : ClassFile.sample.Readable where
  magic := rfl
  pool := Pool.Built.empty.extend rfl (by decide) (by decide)
  fieldCount := by decide
  methodCount := by decide
  fields := by
    intro f hf
    obtain rfl := List.mem_singleton.mp hf
    exact ⟨⟨"k", rfl⟩, ⟨"I", rfl⟩, fun c hc => by cases hc; rfl⟩
  methods := by
    intro m hm
    obtain rfl := List.mem_singleton.mp hm
    refine ⟨⟨"<init>", rfl⟩, ⟨"()V", rfl⟩, fun c hc => ?_⟩
    cases hc
    refine ⟨rfl, by decide, by decide, fun t ht => ?_⟩
    obtain rfl := List.mem_singleton.mp ht
    exact ⟨rfl, by decide⟩
  source := rfl

theorem parse_write_sample :
    ClassFile.sample.Readable ∧
      ∃ data r, ClassFile.sample.write = .ok data ∧ parse data = .ok r ∧ ClassFile.sample.ReadAs r := by
  have hw : ClassFile.sample.write = .ok ClassFile.sample.bytes := by
    refine write_eq_ok.mpr ⟨?_, ?_, rfl⟩ <;> decide
  obtain ⟨r, hr⟩ := parse_write ClassFile.sample ClassFile.sample_readable _ hw
  exact ⟨ClassFile.sample_readable, _, r, hw, hr⟩

end ClassForge
