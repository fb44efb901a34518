import ClassForge.Proofs.Compile
import ClassForge.Proofs.History

/-!
# The line number switch

Compilations with and without line numbers go the same way up to the attribute of the
constructor's code, and fail for the same reasons. The files that come out are read the same,
but for the line number table in that attribute.
-/

namespace ClassForge

/-! ## What the switch changes -/

/-- The same member, with a line number table in its code. -/
structure ParsedMember.AddsLine (line : UInt16) (m m' : ParsedMember) : Prop where
  access : m'.access = m.access
  name : m'.name = m.name
  descriptor : m'.descriptor = m.descriptor
  attributes : ∃ data data', m.attributes = [⟨Attribute.code, data⟩] ∧
    m'.attributes = [⟨Attribute.code, data'⟩] ∧ data'.length = data.length + 12
  code : ∃ maxStack maxLocals code, m.code = some ⟨maxStack, maxLocals, code, []⟩ ∧
    m'.code = some ⟨maxStack, maxLocals, code,
      [⟨Attribute.lineNumberTable, Text.u2 1 ++ (Text.u2 0 ++ Text.u2 line)⟩]⟩

structure ParsedClass.AddsLine (line : UInt16) (p p' : ParsedClass) : Prop where
  minor : p'.minor = p.minor
  major : p'.major = p.major
  pool : p'.pool = p.pool
  access : p'.access = p.access
  thisClass : p'.thisClass = p.thisClass
  superClass : p'.superClass = p.superClass
  fields : p'.fields = p.fields
  methods : ∃ init init' rest, p.methods = init :: rest ∧ p'.methods = init' :: rest ∧
    init.AddsLine line init'
  attributes : p'.attributes = p.attributes

/-- A class that lies on no line, or on one that a table cannot hold, is on the first. -/
theorem Constructor.toNat_tableLine (pos : Position) : ((tableLine pos).toNat : Int) =
    if 1 ≤ pos.line.toInt ∧ pos.line.toInt ≤ 65535 then pos.line.toInt else 1 := by
  have hline : (pos.isValid && decide (pos.line ≤ 65535)) = true ↔
      1 ≤ pos.line.toInt ∧ pos.line.toInt ≤ 65535 := by
    rw [Bool.and_eq_true, Position.isValid, decide_eq_true_iff, decide_eq_true_iff,
      Int64.lt_iff_toInt_lt, Int64.le_iff_toInt_le]
    exact Iff.rfl
  unfold tableLine
  split
  · rename_i h
    rw [hline] at h
    rw [if_pos h, toNat_u2_length (by omega)]
    omega
  · rename_i h
    rw [hline] at h
    rw [if_neg h]
    rfl

/-! ## Emitting and writing -/

def CodeAttribute.onLine (a : CodeAttribute) (name line : UInt16) : CodeAttribute :=
  { a with tables := some [⟨name, [⟨0, line⟩]⟩] }

namespace Constructor

/-- The switch decides on the tables, once the code is emitted. -/
theorem emit_lineNumbers (k : Constructor) (w : ByteWriter) :
    (k.emit true w).1 =
      (k.emit false w).1.map fun a => a.onLine k.lineTableName (tableLine k.pos) := by
  simp only [emit]
  split
  · rfl
  · split <;> rfl

end Constructor

/-! ## Reading -/

theorem FieldInfo.rightUnique_readAs (p : Pool) : Relator.RightUnique (FieldInfo.ReadAs p) := by
  intro f m m' h h'
  cases m
  cases m'
  simp only [ParsedMember.mk.injEq]
  exact ⟨h.access.trans h'.access.symm, Except.ok.inj (h.name.symm.trans h'.name),
    Except.ok.inj (h.descriptor.symm.trans h'.descriptor), h.attributes.trans h'.attributes.symm,
    h.code.trans h'.code.symm⟩

theorem MethodInfo.rightUnique_readAs (p : Pool) : Relator.RightUnique (MethodInfo.ReadAs p) := by
  intro m r r' h h'
  cases r
  cases r'
  simp only [ParsedMember.mk.injEq]
  exact ⟨h.access.trans h'.access.symm, Except.ok.inj (h.name.symm.trans h'.name),
    Except.ok.inj (h.descriptor.symm.trans h'.descriptor), h.attributes.trans h'.attributes.symm,
    h.code.trans h'.code.symm⟩

section
variable {pool : Pool} {a : CodeAttribute} {name line : UInt16}

theorem CodeAttribute.length_data_onLine (h : a.tables = none) :
    (a.onLine name line).data.length = a.data.length + 12 := by
  rw [length_data, length_data, size, size, written, written, h]
  rfl

theorem MethodInfo.ReadAs.addsLine {m : MethodInfo} {r r' : ParsedMember} (ha : a.tables = none)
    (h : { m with code := some a }.ReadAs pool r)
    (h' : { m with code := some (a.onLine name line) }.ReadAs pool r') : r.AddsLine line r' where
  access := h'.access.trans h.access.symm
  name := Except.ok.inj (h'.name.symm.trans h.name)
  descriptor := Except.ok.inj (h'.descriptor.symm.trans h.descriptor)
  attributes := ⟨_, _, h.attributes, h'.attributes, CodeAttribute.length_data_onLine ha⟩
  code := by
    refine ⟨a.maxStack, a.maxLocals, a.code, ?_, h'.code⟩
    rw [h.code, Option.map_some, CodeAttribute.parsed, CodeAttribute.written, ha]
    rfl

end

namespace Generator

variable {options : Options} {c : ClassDecl} {s : Skeleton} {a : CodeAttribute} {name line : UInt16}

theorem obstacle?_assemble_onLine :
    (assemble options s (a.onLine name line)).obstacle? = (assemble options s a).obstacle? := by
  have hmethods : (assemble options s (a.onLine name line)).methods.findSome? ClassFile.methodObstacle? =
      (assemble options s a).methods.findSome? ClassFile.methodObstacle? := by
    simp only [assemble, Array.toList_modify]
    cases s.methods.toList with
    | nil => rfl
    | cons init rest => rfl
  simp only [ClassFile.obstacle?, hmethods]
  rfl

theorem addsLine_of_readAs {used : Options} {o : Outline} {p p' : ParsedClass}
    (hl : s.Laid used o o.progress) (ha : a.tables = none) (h : (assemble options s a).ReadAs p)
    (h' : (assemble options s (a.onLine name line)).ReadAs p') : p.AddsLine line p' where
  minor := h'.minor.trans h.minor.symm
  major := h'.major.trans h.major.symm
  pool := h'.pool.trans h.pool.symm
  access := h'.access.trans h.access.symm
  thisClass := h'.thisClass.trans h.thisClass.symm
  superClass := h'.superClass.trans h.superClass.symm
  fields := (FieldInfo.rightUnique_readAs s.pool).forall₂ h'.fields h.fields
  methods := by
    obtain ⟨init, rest, hs, hmethods, -⟩ := methods_assemble options a hl
    obtain ⟨init', rest', hs', hmethods', -⟩ := methods_assemble options (a.onLine name line) hl
    cases hs.symm.trans hs'
    have hread := h.methods
    have hread' := h'.methods
    rw [hmethods] at hread
    rw [hmethods'] at hread'
    obtain ⟨r, rs, hr, hrs, hp⟩ := List.forall₂_cons_left_iff.mp hread
    obtain ⟨r', rs', hr', hrs', hp'⟩ := List.forall₂_cons_left_iff.mp hread'
    cases (MethodInfo.rightUnique_readAs s.pool).forall₂ hrs hrs'
    exact ⟨r, r', rs, hp, hp', hr.addsLine ha hr'⟩
  attributes := h'.attributes.trans h.attributes.symm

theorem readAs_assemble {b : Bool} {w : ByteWriter} (hs : (Skeleton.build options c).1 = .ok s)
    (ha : ((Constructor.ofSkeleton s).emit b w).1 = .ok a)
    (hobstacle : (assemble options s a).obstacle? = none) :
    ∃ p, ParsedClass.parse (assemble options s a).bytes = .ok p ∧ (assemble options s a).ReadAs p := by
  have hwrite : (assemble options s a).write = .ok (assemble options s a).bytes := by
    simp only [ClassFile.write, hobstacle]
  obtain ⟨-, -, -, -, hl, -, hname, -⟩ := Skeleton.laid_of_build hs
  obtain ⟨hcode, hline, -⟩ := hl.labels rfl
  obtain ⟨hentries, hmethods, -⟩ := write_eq_ok.mp hwrite
  have hlen : a.code.length ≤ 65535 := by
    obtain ⟨init, rest, -, hassembled, -⟩ := methods_assemble options a hl
    rw [hassembled] at hmethods
    exact ClassFile.length_le_of_methodObstacle? rfl (hmethods _ (List.mem_cons_self ..))
  have hreadable := readable_assemble options a hl hname
    (Constructor.readable_emitted ha hlen hcode hline)
  obtain ⟨p, hp, ht⟩ := takes_class hreadable hentries
  exact ⟨p, parse_of_takes ht, hp⟩

/-! ## Compiling -/

section
variable {g : Generator}

theorem result_of_build_error {f : Failure} (hs : (Skeleton.build g.options c).1 = .error f) :
    (g.compile c).1.result = .error f := by
  rw [result_compile, hs]
  rfl

theorem result_of_emit_error {d : Diagnostic} (hs : (Skeleton.build g.options c).1 = .ok s)
    (ha : ((Constructor.ofSkeleton s).emit g.options.lineNumbers g.writer).1 = .error d) :
    (g.compile c).1.result = .error d := by
  rw [result_compile, hs]
  show (((Constructor.ofSkeleton s).emit _ _).1.mapError _ >>= _) = _
  rw [ha]
  rfl

/-- Once a constructor is emitted, all that can stand in the way are obstacles to writing. -/
theorem result_of_emit (hs : (Skeleton.build g.options c).1 = .ok s)
    (ha : ((Constructor.ofSkeleton s).emit g.options.lineNumbers g.writer).1 = .ok a) :
    (g.compile c).1.result =
      match (assemble g.options s a).obstacle? with
      | some o => .error o.diagnostic
      | none => .ok (assemble g.options s a).bytes := by
  rw [result_compile, hs]
  show (((Constructor.ofSkeleton s).emit _ _).1.mapError _ >>= _) = _
  rw [ha]
  show (assemble g.options s a).write.mapError _ = _
  unfold ClassFile.write
  cases (assemble g.options s a).obstacle? with
  | some o => rfl
  | none => rfl

end

/-- If writing meets no obstacle, what is written with a table and without one can be read. -/
theorem exists_addsLine {w : ByteWriter} (hs : (Skeleton.build options c).1 = .ok s)
    (ha : ((Constructor.ofSkeleton s).emit false w).1 = .ok a)
    (ha' : ((Constructor.ofSkeleton s).emit true w).1 = .ok (a.onLine name line))
    (hobstacle : (assemble options s a).obstacle? = none) :
    ∃ p p', ParsedClass.parse (assemble options s a).bytes = .ok p ∧
      ParsedClass.parse (assemble options s (a.onLine name line)).bytes = .ok p' ∧
      p.AddsLine line p' := by
  obtain ⟨-, -, -, -, hl, -⟩ := Skeleton.laid_of_build hs
  obtain ⟨p, hp, hread⟩ := readAs_assemble hs ha hobstacle
  obtain ⟨p', hp', hread'⟩ := readAs_assemble hs ha' (obstacle?_assemble_onLine.trans hobstacle)
  have htables : a.tables = none := by
    obtain ⟨_, -, rfl⟩ := Constructor.emit_ok ha
    rfl
  exact ⟨p, p', hp, hp', addsLine_of_readAs hl htables hread hread'⟩

/-- Two generators of which only the second is asked for line numbers go the same way: both fail,
or both come to write a file that has no obstacle. -/
theorem compile_cases {g g' : Generator} (hplain : g.options.lineNumbers = false)
    (hlined : g'.options = { g.options with lineNumbers := true })
    (hlimit : g'.writer.limit = g.writer.limit) (c : ClassDecl) :
    (∃ f, (g.compile c).1.result = .error f ∧ (g'.compile c).1.result = .error f) ∨
      ∃ s a, (Skeleton.build g.options c).1 = .ok s ∧
        ((Constructor.ofSkeleton s).emit false g.writer).1 = .ok a ∧
        ((Constructor.ofSkeleton s).emit true g.writer).1 =
          .ok (a.onLine s.lineTableName (Constructor.tableLine s.classPos)) ∧
        (assemble g.options s a).obstacle? = none ∧
        (g.compile c).1.result = .ok (assemble g.options s a).bytes ∧
        (g'.compile c).1.result = .ok (assemble g.options s
          (a.onLine s.lineTableName (Constructor.tableLine s.classPos))).bytes := by
  -- neither the layout nor the assembly asks for the switch
  have hbuild : Skeleton.build g'.options c = Skeleton.build g.options c := by
    rw [hlined]
    rfl
  have hassemble : assemble g'.options = assemble g.options := by
    rw [hlined]
    rfl
  cases hs : (Skeleton.build g.options c).1 with
  | error f => exact .inl ⟨f, result_of_build_error hs, result_of_build_error (hbuild ▸ hs)⟩
  | ok s =>
    have hs' : (Skeleton.build g'.options c).1 = .ok s := hbuild ▸ hs
    have hemit : (Constructor.ofSkeleton s).emit g.options.lineNumbers g.writer =
        (Constructor.ofSkeleton s).emit false g.writer := by rw [hplain]
    have hemit' : (Constructor.ofSkeleton s).emit g'.options.lineNumbers g'.writer =
        (Constructor.ofSkeleton s).emit true g.writer := by
      rw [hlined]
      exact Constructor.emit_congr _ _ hlimit
    have hswitch := (Constructor.ofSkeleton s).emit_lineNumbers g.writer
    cases ha : ((Constructor.ofSkeleton s).emit false g.writer).1 with
    | error d =>
      rw [ha] at hswitch
      exact .inl ⟨_, result_of_emit_error hs (by rw [hemit, ha]),
        result_of_emit_error hs' (by rw [hemit', hswitch]; rfl)⟩
    | ok a =>
      rw [ha] at hswitch
      have hresult := result_of_emit hs (by rw [hemit, ha])
      have hresult' := result_of_emit hs' (by rw [hemit', hswitch]; rfl)
      rw [hassemble, obstacle?_assemble_onLine] at hresult'
      cases hobstacle : (assemble g.options s a).obstacle? with
      | some o =>
        rw [hobstacle] at hresult hresult'
        exact .inl ⟨_, hresult, hresult'⟩
      | none =>
        rw [hobstacle] at hresult hresult'
        exact .inr ⟨s, a, rfl, ha, hswitch, hobstacle, hresult, hresult'⟩

/-- Compiling fails with line numbers just as it fails without them. What comes out with them
has a line number table in the constructor, with one line, and is otherwise the same. -/
theorem compile_lineNumbers (options : Options) (earlier earlier' : List ClassDecl) (c : ClassDecl) :
    let plain := ((ofOptions { options with lineNumbers := false }).after earlier).compile c
    let lined := ((ofOptions { options with lineNumbers := true }).after earlier').compile c
    (∃ f, plain.1.result = .error f ∧ lined.1.result = .error f) ∨
      ∃ data data' p p' line, plain.1.result = .ok data ∧ lined.1.result = .ok data' ∧
        ParsedClass.parse data = .ok p ∧ ParsedClass.parse data' = .ok p' ∧
        (line.toNat : Int) = (if 1 ≤ c.pos.line.toInt ∧ c.pos.line.toInt ≤ 65535
          then c.pos.line.toInt else 1) ∧
        p.AddsLine line p' := by
  intro plain lined
  obtain ⟨hoptions, hlimit⟩ := (ofOptions { options with lineNumbers := false }).keeps_after earlier
  obtain ⟨hoptions', hlimit'⟩ := (ofOptions { options with lineNumbers := true }).keeps_after earlier'
  rcases compile_cases (by rw [hoptions]; rfl) (by rw [hoptions, hoptions']; rfl)
    (hlimit'.trans hlimit.symm) c with hfails | ⟨s, a, hs, ha, ha', hobstacle, hresult, hresult'⟩
  · exact .inl hfails
  · obtain ⟨p, p', hp, hp', hadds⟩ := exists_addsLine hs ha ha' hobstacle
    refine .inr ⟨_, _, p, p', _, hresult, hresult', hp, hp', ?_, hadds⟩
    obtain ⟨-, -, -, -, hl, -⟩ := Skeleton.laid_of_build hs
    have hpos : s.classPos = c.pos := hl.classPos
    rw [Constructor.toNat_tableLine, hpos]

end Generator

end ClassForge
