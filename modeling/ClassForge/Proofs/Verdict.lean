import ClassForge.Proofs.Capacity

/-!
# What comes of compiling a class

A class that breaks its contract is not compiled. Of one that keeps it, the pool
can be too small, then a final too large to be pushed, then the code too long,
then a text; if nothing of this is so, the class is compiled. All of this can be
told from the class alone: `Verdict`.
-/

namespace ClassForge

/-! ## Constructors -/

namespace Instruction

@[simp] theorem length_bytes_simple (op : Simple) : (simple op).bytes.length = 1 := rfl

@[simp] theorem length_bytes_member (op : MemberOp) (i : UInt16) : (member op i).bytes.length = 3 := rfl

theorem small_iff {v : Int32} : 0 ≤ v ∧ v ≤ 5 ↔ v ∈ [(0 : Int32), 1, 2, 3, 4, 5] := by
  have hval : [(0 : Int32), 1, 2, 3, 4, 5].map Int32.toInt = [0, 1, 2, 3, 4, 5] := by decide
  rw [Int32.le_iff_toInt_le, Int32.le_iff_toInt_le,
    ← List.mem_map_of_injective (f := Int32.toInt) (fun _ _ => Int32.toInt_inj.mp), hval]
  simp only [List.mem_cons, List.not_mem_nil, or_false]
  show 0 ≤ v.toInt ∧ v.toInt ≤ 5 ↔ _
  omega

/-- A value from 0 to 5 has an instruction of its own, any other signed byte is an
operand. -/
theorem push?_cases (v : Int32) :
    ((0 ≤ v ∧ v ≤ 5) ∧ ∃ op, push? v = some (simple op)) ∨
      (¬ (0 ≤ v ∧ v ≤ 5) ∧
        push? v = if -128 ≤ v ∧ v ≤ 127 then some (bipush v.toInt8) else none) := by
  by_cases h : v ∈ [(0 : Int32), 1, 2, 3, 4, 5]
  · refine .inl ⟨small_iff.mpr h, ?_⟩
    simp only [List.mem_cons, List.not_mem_nil, or_false] at h
    rcases h with rfl | rfl | rfl | rfl | rfl | rfl <;> exact ⟨_, rfl⟩
  · refine .inr ⟨fun hs => h (small_iff.mp hs), ?_⟩
    simp only [List.mem_cons, List.not_mem_nil, or_false, not_or] at h
    simp [push?, h]

theorem push?_eq_none {v : Int32} : push? v = none ↔ ¬ (-128 ≤ v ∧ v ≤ 127) := by
  rcases push?_cases v with ⟨hs, op, hp⟩ | ⟨-, hp⟩
  · have hlow : -128 ≤ v := Int32.le_trans (by decide) hs.1
    have hhigh : v ≤ 127 := Int32.le_trans hs.2 (by decide)
    simp [hp, hlow, hhigh]
  · simp [hp]

theorem length_push {v : Int32} {i : Instruction} (h : push? v = some i) :
    i.bytes.length = if 0 ≤ v ∧ v ≤ 5 then 1 else 2 := by
  rcases push?_cases v with ⟨hs, op, hp⟩ | ⟨hs, hp⟩
  · rw [hp] at h
    cases h
    rw [if_pos hs]
    rfl
  · rw [hp] at h
    split at h
    · cases h
      rw [if_neg hs]
      rfl
    · cases h

end Instruction

namespace Constructor

def assignmentSize (v : Int32) : Nat := if 0 ≤ v ∧ v ≤ 5 then 5 else 6

theorem length_assignments {fs : List (Final × UInt16)} {is : List Instruction}
    (h : assignments? fs = some is) :
    (is.flatMap Instruction.bytes).length = (fs.map fun x => assignmentSize x.1.value).sum := by
  induction fs generalizing is with
  | nil =>
    cases h
    rfl
  | cons x fs ih =>
    obtain ⟨f, ref⟩ := x
    unfold assignments? at h
    split at h
    · rename_i push more hp hr
      cases h
      simp only [List.flatMap_cons, List.length_append, List.map_cons, List.sum_cons, ih hr,
        Instruction.length_push hp, Instruction.length_bytes_simple, Instruction.length_bytes_member,
        assignmentSize]
      split <;> omega
    · cases h

theorem length_instructions {c : Constructor} {is : List Instruction} (h : c.instructions? = some is) :
    (is.flatMap Instruction.bytes).length =
      5 + (c.finals.map fun x => assignmentSize x.1.value).sum := by
  obtain ⟨assigned, ha, rfl⟩ := Option.map_eq_some_iff.mp h
  have := length_assignments ha
  simp only [List.flatMap_cons, List.flatMap_append, List.flatMap_nil, List.length_append,
    List.length_nil, Instruction.length_bytes_simple, Instruction.length_bytes_member]
  omega

theorem exists_instructions {c : Constructor}
    (h : (c.finals.find? fun x => (Instruction.push? x.1.value).isNone) = none) :
    ∃ is, c.instructions? = some is := by
  cases ha : assignments? c.finals with
  | none =>
    have := assignments?_eq_none ha
    rw [h] at this
    cases this
  | some assigned => exact ⟨_, by rw [instructions?, ha]; rfl⟩

section
variable {c : Constructor} {w : ByteWriter} {lineNumbers : Bool}
  (hw : w.limit = some ByteWriter.codeLimit)
  (h : (c.finals.find? fun x => (Instruction.push? x.1.value).isNone) = none)
include hw h

theorem emit_of_le (hle : 5 + (c.finals.map fun x => assignmentSize x.1.value).sum ≤ ByteWriter.codeLimit) :
    ∃ a, (c.emit lineNumbers w).1 = .ok a ∧ a.code.length ≤ ByteWriter.codeLimit := by
  obtain ⟨is, his⟩ := exists_instructions h
  rw [← length_instructions his] at hle
  have hchunks : (is.flatMap Instruction.chunks).flatten.length ≤ ByteWriter.codeLimit := by
    rwa [flatten_flatMap_chunks]
  exact ⟨_, by rw [emit_of_instructions? his, ByteWriter.error?_foldl_write_of_le hw hchunks], hle⟩

theorem emit_of_lt (hlt : ByteWriter.codeLimit < 5 + (c.finals.map fun x => assignmentSize x.1.value).sum) :
    ∃ n, ByteWriter.codeLimit < n ∧
      (c.emit lineNumbers w).1 = .error (ByteWriter.tooLong n ByteWriter.codeLimit) := by
  obtain ⟨is, his⟩ := exists_instructions h
  rw [← length_instructions his] at hlt
  rw [← flatten_flatMap_chunks] at hlt
  obtain ⟨n, hn, herror⟩ := ByteWriter.error?_foldl_write_of_lt hw hlt
  exact ⟨n, hn, by rw [emit_of_instructions? his, herror]⟩

end

end Constructor

/-! ## Generators that have been used -/

namespace Constructor

theorem limit_writeInstruction (w : ByteWriter) (i : Instruction) :
    (writeInstruction w i).limit = w.limit := ByteWriter.limit_foldl_write _ w

theorem limit_writeFinals (fs : List (Final × UInt16)) (w : ByteWriter) :
    (writeFinals fs w).2.limit = w.limit := by
  induction fs generalizing w with
  | nil => rfl
  | cons x fs ih =>
    obtain ⟨f, ref⟩ := x
    rw [writeFinals]
    split
    · exact limit_writeInstruction ..
    · simp only [ih, limit_writeInstruction]

theorem limit_emit (c : Constructor) (lineNumbers : Bool) (w : ByteWriter) :
    (c.emit lineNumbers w).2.limit = w.limit := by
  have hfinals := limit_writeFinals c.finals (writeInstruction (writeInstruction w.reset (.simple .aload0))
    (.member .invokespecial c.superInit))
  simp only [limit_writeInstruction] at hfinals
  simp only [emit]
  split
  · rename_i hf
    rwa [hf] at hfinals
  · rename_i hf
    rw [hf] at hfinals
    split <;> exact (limit_writeInstruction ..).trans hfinals

end Constructor

namespace Generator

def after (g : Generator) (cs : List ClassDecl) : Generator := cs.foldl (fun g c => (g.compile c).2) g

theorem keeps_compile (g : Generator) (c : ClassDecl) :
    (g.compile c).2.options = g.options ∧ (g.compile c).2.writer.limit = g.writer.limit := by
  show g.options = _ ∧ (complete g.options (g.builder.build g.options c).1 g.writer).2.limit = _
  refine ⟨rfl, ?_⟩
  unfold complete
  split
  · rfl
  · rename_i s log hs
    have hlimit := (Constructor.ofSkeleton s).limit_emit g.options.lineNumbers g.writer
    simp only
    split <;> exact hlimit

theorem keeps_after (g : Generator) (cs : List ClassDecl) :
    (g.after cs).options = g.options ∧ (g.after cs).writer.limit = g.writer.limit := by
  induction cs generalizing g with
  | nil => exact ⟨rfl, rfl⟩
  | cons c cs ih =>
    obtain ⟨hoptions, hlimit⟩ := ih (g.compile c).2
    exact ⟨hoptions.trans (g.keeps_compile c).1, hlimit.trans (g.keeps_compile c).2⟩

theorem result_compile (g : Generator) (c : ClassDecl) :
    (g.compile c).1.result = (do
      let s ← (Skeleton.build g.options c).1
      let a ← ((Constructor.ofSkeleton s).emit g.options.lineNumbers g.writer).1.mapError
        fun d => Failure.diagnosed d none
      (assemble g.options s a).write.mapError fun o => Failure.diagnosed o.diagnostic none) := by
  rw [← g.builder.build_eq]
  simp only [compile, generate, complete]
  rcases g.builder.build g.options c with ⟨⟨_ | s, log⟩, builder⟩
  · rfl
  · show _ = (((Constructor.ofSkeleton s).emit _ _).1.mapError _ >>= _)
    rcases he : (Constructor.ofSkeleton s).emit g.options.lineNumbers g.writer with ⟨_ | a, w⟩
    · simp only [he]
      rfl
    · simp only [he]
      show _ = (assemble g.options s a).write.mapError _
      cases (assemble g.options s a).write <;> rfl

end Generator

/-! ## Texts -/

namespace Outline

variable {options : Options} {o : Outline}

theorem length_le_of_mem_texts {t : Text} (ht : t ∈ o.texts options) (hown : t ∉ o.ownTexts options) :
    t.length ≤ 65535 := by
  have hfixed : ∀ u ∈ [Skeleton.constructorName, Skeleton.constructorDescriptor,
      Signature.intDescriptor, Attribute.constantValue, Attribute.code, Attribute.lineNumberTable,
      Attribute.stackMapTable, Attribute.sourceFile], u.length ≤ 65535 := by decide
  exact hfixed t ((List.mem_append.mp ht).resolve_right hown)

theorem globalShape_mem {v : Text} (h : v ∈ o.globals) : globalShape v ∈ o.fieldShapes := by
  simp only [fieldShapes, List.mem_append]
  by_cases hr : o.references.contains v = true
  · exact .inr (.inl (List.mem_map_of_mem (List.mem_filter.mpr ⟨h, hr⟩)))
  · exact .inr (.inr (List.mem_map_of_mem (List.mem_filter.mpr ⟨h, by simp [hr]⟩)))

theorem shape_mem {m : Signature} (h : m ∈ o.methods) : m.shape ∈ o.methodShapes := by
  simp only [methodShapes, List.mem_cons, List.mem_append]
  by_cases hr : o.references.contains m.name = true
  · exact .inr (.inl (List.mem_map_of_mem (List.mem_filter.mpr ⟨h, hr⟩)))
  · exact .inr (.inr (List.mem_map_of_mem (List.mem_filter.mpr ⟨h, by simp [hr]⟩)))

end Outline

namespace Skeleton

section
variable {options : Options} {o : Outline} {s : Skeleton}

theorem Laid.field_mem (h : Laid options o o.progress s) {v : FieldShape} (hv : v ∈ o.fieldShapes) :
    Entry.utf8 v.name ∈ s.pool.entries.toList := by
  obtain ⟨f, -, hf⟩ := exists_of_forall₂ h.fields.flip hv
  exact Pool.mem_of_get? hf.name

theorem Laid.method_mem (h : Laid options o o.progress s) {v : MethodShape} (hv : v ∈ o.methodShapes) :
    Entry.utf8 v.name ∈ s.pool.entries.toList ∧ Entry.utf8 v.descriptor ∈ s.pool.entries.toList := by
  obtain ⟨m, -, hm⟩ := exists_of_forall₂ h.methods.flip hv
  exact ⟨Pool.mem_of_get? hm.name, Pool.mem_of_get? hm.descriptor⟩

theorem Laid.utf8_mem (h : Laid options o o.progress s)
    (hfile : s.pool.get? s.source.file = some (.utf8 (o.name ++ options.sourceExtension))) {t : Text}
    (ht : t ∈ o.ownTexts options) : Entry.utf8 t ∈ s.pool.entries.toList := by
  simp only [Outline.ownTexts, List.mem_append, List.mem_cons, List.not_mem_nil, or_false, List.mem_map,
    List.mem_flatMap] at ht
  rcases ht with (rfl | rfl | rfl) | ⟨f, hf, rfl⟩ | hv | ⟨m, hm, rfl | rfl⟩
  · obtain ⟨n, -, hn⟩ := Pool.className_eq_ok.mp h.superClass
    exact Pool.mem_of_get? hn
  · obtain ⟨n, -, hn⟩ := Pool.className_eq_ok.mp h.thisClass
    exact Pool.mem_of_get? hn
  · exact Pool.mem_of_get? hfile
  · exact h.field_mem (v := f.shape) (List.mem_append_left _ (List.mem_map_of_mem hf))
  · exact h.field_mem (Outline.globalShape_mem hv)
  · exact (h.method_mem (Outline.shape_mem hm)).1
  · exact (h.method_mem (Outline.shape_mem hm)).2

/-- A pool that carries out its plan has no text but those of the class file. -/
theorem mem_texts_of_widen (hs : s.widen = Plan.layOut options o) {t : Text}
    (ht : Entry.utf8 t ∈ s.pool.entries.toList) : t ∈ o.texts options := by
  have hmem : PlanEntry.utf8 t ∈ (Plan.layOut options o).entries := by
    rw [← hs]
    exact List.mem_map_of_mem (f := Entry.widen) ht
  exact (Plan.sound_layOut (Nat.le_refl _)).entries _ hmem

end

end Skeleton

/-! ## Writing -/

namespace ClassFile

variable {file : ClassFile} (hvacant : ∀ e ∈ file.pool.entries.toList, e ≠ .vacant)
include hvacant

theorem longText_of_entryObstacle? {e : Entry} {o : Obstacle} (he : e ∈ file.pool.entries.toList)
    (ho : entryObstacle? e = some o) : ∃ t, e = .utf8 t ∧ 65535 < t.length ∧ o = .longText t.length := by
  cases e with
  | utf8 t =>
    simp only [entryObstacle?] at ho
    split at ho
    · rename_i hlong
      cases ho
      exact ⟨t, rfl, hlong, rfl⟩
    · cases ho
  | vacant => exact absurd rfl (hvacant _ he)
  | _ => cases ho

theorem write_of_long {t : Text} (ht : Entry.utf8 t ∈ file.pool.entries.toList) (hlong : 65535 < t.length) :
    ∃ u, Entry.utf8 u ∈ file.pool.entries.toList ∧ 65535 < u.length ∧
      file.write = .error (.longText u.length) := by
  have hsome : (file.pool.entries.toList.findSome? entryObstacle?).isSome := by
    rw [List.findSome?_isSome_iff]
    exact ⟨_, ht, by simp [entryObstacle?, hlong]⟩
  obtain ⟨o, ho⟩ := Option.isSome_iff_exists.mp hsome
  obtain ⟨e, he, heo⟩ := List.exists_of_findSome?_eq_some ho
  obtain ⟨u, rfl, hu, rfl⟩ := longText_of_entryObstacle? hvacant he heo
  refine ⟨u, he, hu, ?_⟩
  simp [write, obstacle?, ho]

theorem write_of_short (htexts : ∀ t, Entry.utf8 t ∈ file.pool.entries.toList → t.length ≤ 65535)
    (hmethods : ∀ m ∈ file.methods, methodObstacle? m = none) : file.write = .ok file.bytes := by
  refine write_eq_ok.mpr ⟨fun e he => ?_, hmethods, rfl⟩
  cases ho : entryObstacle? e with
  | none => rfl
  | some o =>
    obtain ⟨t, rfl, hlong, -⟩ := longText_of_entryObstacle? hvacant he ho
    exact absurd (htexts t he) (Nat.not_le_of_lt hlong)

end ClassFile

/-! ## Compiling -/

def Failure.OfFormat (f : Failure) : Prop :=
  ∃ d, f = .diagnosed d none ∧ d.code ∈ (["E0901", "E0902", "E0903", "E0904"] : List Text)

theorem ClassDecl.not_ofFormat_of_check {c : ClassDecl} {f : Failure} (h : c.check = some f) :
    ¬ f.OfFormat := by
  rintro ⟨d, rfl, hd⟩
  unfold check at h
  have hnameless : nameless.code ∉ (["E0901", "E0902", "E0903", "E0904"] : List Text) := by decide
  split at h
  · cases h
    exact hnameless hd
  · split at h
    · cases h
      exact hnameless hd
    · unfold Failure.ofList? at h
      split at h <;> cases h

/-- What comes of compiling a class that keeps its contract and has these finals,
globals and methods. -/
def Verdict (options : Options) (c : ClassDecl) (fs gs : List Symbol) (ms : List Signature)
    (result : Except Failure Text) : Prop :=
  if 65534 < (Plan.layOut options c.outline).entries.length then
    result = .error (.diagnosed
      { code := "E0903", message := "constant pool exceeds 65534 entries" } none)
  else
    match fs.find? fun f => ¬ (-128 ≤ f.value ∧ f.value ≤ 127) with
    | some f =>
      result = .error (.diagnosed
        { code := "E0902",
          message := "constant " ++ Text.ofInt f.value.toInt ++ " for field " ++ f.name ++
            " has no push encoding (bipush covers -128..127)" } none)
    | none =>
      if 65535 < 5 + (fs.map fun f => if 0 ≤ f.value ∧ f.value ≤ 5 then 5 else 6).sum then
        ∃ n, 65535 < n ∧ result = .error (.diagnosed
          { code := "E0901",
            message := "code length " ++ Text.ofNat n ++ " exceeds " ++ Text.ofNat 65535 ++ " bytes" }
          none)
      else
        let texts := [options.superClass, c.name, c.name ++ options.sourceExtension] ++
          (fs.map Symbol.name ++ (gs.map Symbol.name ++ ms.flatMap fun m => [m.name, m.descriptor]))
        if ∃ t ∈ texts, 65535 < t.length then
          ∃ t ∈ texts, 65535 < t.length ∧ result = .error (.diagnosed
            { code := "E0904",
              message := "utf8 constant of " ++ Text.ofNat t.length ++ " bytes exceeds 65535" } none)
        else ∃ bytes, result = .ok bytes

theorem Verdict.ofFormat {options : Options} {c : ClassDecl} {fs gs : List Symbol} {ms : List Signature}
    {result : Except Failure Text} (h : Verdict options c fs gs ms result) {f : Failure}
    (hf : result = .error f) : f.OfFormat := by
  subst hf
  unfold Verdict at h
  split at h
  · cases h
    exact ⟨_, rfl, by simp⟩
  · split at h
    · cases h
      exact ⟨_, rfl, by simp⟩
    · split at h
      · obtain ⟨n, -, h⟩ := h
        cases h
        exact ⟨_, rfl, by simp⟩
      · simp only at h
        split at h
        · obtain ⟨t, -, -, h⟩ := h
          cases h
          exact ⟨_, rfl, by simp⟩
        · obtain ⟨bytes, h⟩ := h
          cases h

namespace Constructor

variable {k : Constructor} {fs : List Symbol} (h : k.finals.map Prod.fst = fs.map Symbol.final)
include h

theorem find?_finals :
    (k.finals.find? fun x => (Instruction.push? x.1.value).isNone).map Prod.fst =
      (fs.find? fun f => ¬ (-128 ≤ f.value ∧ f.value ≤ 127)).map Symbol.final := by
  have hfind := congrArg (List.find? fun f => (Instruction.push? f.value).isNone) h
  rw [List.find?_map, List.find?_map] at hfind
  have hpred : (fun f : Final => (Instruction.push? f.value).isNone) ∘ Symbol.final =
      fun f => decide ¬ (-128 ≤ f.value ∧ f.value ≤ 127) := by
    funext f
    rw [Bool.eq_iff_iff, decide_eq_true_iff, ← Instruction.push?_eq_none, Function.comp,
      Option.isNone_iff_eq_none]
    rfl
  rw [hpred] at hfind
  exact hfind

theorem sum_finals :
    (k.finals.map fun x => assignmentSize x.1.value) = fs.map fun f => assignmentSize f.value := by
  have hmap := congrArg (List.map fun f : Final => assignmentSize f.value) h
  rw [List.map_map, List.map_map] at hmap
  exact hmap

end Constructor

theorem ClassDecl.HasParts.ownTexts_eq {c : ClassDecl} {fs gs : List Symbol} {ms : List Signature}
    (h : c.HasParts fs gs ms) (options : Options) :
    c.outline.ownTexts options = [options.superClass, c.name, c.name ++ options.sourceExtension] ++
      (fs.map Symbol.name ++ (gs.map Symbol.name ++ ms.flatMap fun m => [m.name, m.descriptor])) := by
  rw [Outline.ownTexts, h.outline_finals, h.outline_globals, h.outline_methods, List.map_map]
  rfl

namespace Generator

variable {g : Generator} {c : ClassDecl} {fs gs : List Symbol} {ms : List Signature}

/-- Once a constructor is emitted, only a text can be too long. -/
theorem write_assemble {options : Options} {s : Skeleton} {a : CodeAttribute}
    (hl : s.Laid options c.outline c.outline.progress)
    (hfile : s.pool.get? s.source.file = some (.utf8 (c.name ++ options.sourceExtension)))
    (hwiden : s.widen = Plan.layOut options c.outline) (ha : a.code.length ≤ ByteWriter.codeLimit) :
    if ∃ t ∈ c.outline.ownTexts options, 65535 < t.length then
      ∃ t ∈ c.outline.ownTexts options, 65535 < t.length ∧
        (assemble options s a).write.mapError (fun o => Failure.diagnosed o.diagnostic none) =
          .error (.diagnosed (ClassFile.Obstacle.longText t.length).diagnostic none)
    else
      ∃ bytes, (assemble options s a).write.mapError (fun o => Failure.diagnosed o.diagnostic none) =
        .ok bytes := by
  have hvacant : ∀ e ∈ (assemble options s a).pool.entries.toList, e ≠ .vacant :=
    fun e he => (hl.leads e he).ne_vacant
  -- the texts that every class file has are short
  have hown : ∀ t, Entry.utf8 t ∈ s.pool.entries.toList → 65535 < t.length →
      t ∈ c.outline.ownTexts options := by
    intro t ht hlong
    refine Decidable.byContradiction fun hown => ?_
    have := Outline.length_le_of_mem_texts (Skeleton.mem_texts_of_widen hwiden ht) hown
    omega
  split
  · rename_i hlong
    obtain ⟨t, ht, hlong⟩ := hlong
    obtain ⟨u, hu, hulong, hwrite⟩ := ClassFile.write_of_long hvacant (hl.utf8_mem hfile ht) hlong
    exact ⟨u, hown u hu hulong, hulong, by rw [hwrite]; rfl⟩
  · rename_i hshort
    have hwrite := ClassFile.write_of_short hvacant (fun t ht => ?_) fun m hm => ?_
    · exact ⟨_, by rw [hwrite]; rfl⟩
    · refine Nat.le_of_not_lt fun hlong => ?_
      exact hshort ⟨t, hown t ht hlong, hlong⟩
    · obtain ⟨init, rest, -, hmethods, -, hrest⟩ := methods_assemble options a hl
      rw [hmethods] at hm
      rcases List.mem_cons.mp hm with rfl | hm
      · simp [ClassFile.methodObstacle?, Nat.not_lt.mpr ha]
      · obtain ⟨v, -, hv⟩ := exists_of_forall₂ hrest hm
        simp [ClassFile.methodObstacle?, hv.code]

theorem verdict_of_check (hoptions : g.options.effective = g.options)
    (hlimit : g.writer.limit = some ByteWriter.codeLimit) (hcheck : c.check = none)
    (hp : c.HasParts fs gs ms) : Verdict g.options c fs gs ms (g.compile c).1.result := by
  unfold Verdict
  split
  · rename_i hfull
    rw [result_compile, Skeleton.build_full_of_lt hcheck (by rw [hoptions]; exact hfull)]
    rfl
  rename_i hfits
  have hle : (Plan.layOut g.options.effective c.outline).size ≤ Pool.capacity := by
    rw [hoptions]
    exact Nat.le_of_not_lt hfits
  obtain ⟨s, hs, hwiden⟩ := Skeleton.build_ok_of_le hcheck hle
  obtain ⟨_, _, _, _, hl, _, _, hfile⟩ := Skeleton.laid_of_build hs
  rw [hoptions] at hwiden hl hfile
  have hresult := g.result_compile c
  rw [hs] at hresult
  change _ = (((Constructor.ofSkeleton s).emit _ _).1.mapError _ >>= _) at hresult
  have hfinals : (Constructor.ofSkeleton s).finals.map Prod.fst = fs.map Symbol.final :=
    (map_eq_of_forall₂ (hl.finals.imp fun _ _ h => h.1)).trans hp.outline_finals
  have hfind := Constructor.find?_finals hfinals
  have hsum := Constructor.sum_finals hfinals
  split
  · rename_i f hf
    rw [hf] at hfind
    obtain ⟨x, hx, hxf⟩ := Option.map_eq_some_iff.mp hfind
    rw [hresult, Constructor.emit_of_find? hx, hxf]
    rfl
  rename_i hf
  rw [hf] at hfind
  have hnone := Option.map_eq_none_iff.mp hfind
  split
  · rename_i hlong
    obtain ⟨n, hn, hemit⟩ := Constructor.emit_of_lt hlimit hnone (by rw [hsum]; exact hlong)
    exact ⟨n, hn, by rw [hresult, hemit]; rfl⟩
  · rename_i hshort
    obtain ⟨a, hemit, ha⟩ := Constructor.emit_of_le hlimit hnone (by rw [hsum]; exact Nat.le_of_not_lt hshort)
    have hwrite := write_assemble hl hfile hwiden ha
    rw [hp.ownTexts_eq] at hwrite
    rw [hemit] at hresult
    rw [hresult]
    exact hwrite

/-- What comes of compiling a class, whatever the generator did before. -/
theorem compile_verdict (options : Options) (earlier : List ClassDecl) (c : ClassDecl) :
    (∀ f, c.check = some f →
      (((ofOptions options).after earlier).compile c).1.result = .error f ∧ ¬ f.OfFormat) ∧
    (c.check = none →
      (∃ fs gs ms, c.HasParts fs gs ms ∧ Verdict options.effective c fs gs ms
        (((ofOptions options).after earlier).compile c).1.result) ∧
      ∀ f, (((ofOptions options).after earlier).compile c).1.result = .error f → f.OfFormat) := by
  obtain ⟨hoptions, hlimit⟩ := (ofOptions options).keeps_after earlier
  refine ⟨fun f hf => ⟨?_, ClassDecl.not_ofFormat_of_check hf⟩, fun hcheck => ?_⟩
  · rw [result_compile, Skeleton.build_of_breach _ hf]
    rfl
  · obtain ⟨fs, gs, ms, hp⟩ := ClassDecl.hasParts_of_check hcheck
    have heffective : options.effective.effective = options.effective := options.effective_effective
    have hverdict := verdict_of_check (g := (ofOptions options).after earlier)
      (by rw [hoptions]; exact heffective) hlimit hcheck hp
    rw [hoptions] at hverdict
    exact ⟨⟨fs, gs, ms, hp, hverdict⟩, fun f hf => hverdict.ofFormat hf⟩

theorem compile_verdict_sample :
    ClassDecl.sample.check = none ∧ ∃ fs gs ms, ClassDecl.sample.HasParts fs gs ms ∧
      Verdict Options.usual ClassDecl.sample fs gs ms
        (((ofOptions {}).after [ClassDecl.sample]).compile ClassDecl.sample).1.result :=
  ⟨rfl, ((compile_verdict {} [ClassDecl.sample] ClassDecl.sample).2 rfl).1⟩

end Generator

end ClassForge
