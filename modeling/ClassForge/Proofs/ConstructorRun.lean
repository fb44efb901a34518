import ClassForge.Proofs.ConstructorCode
import ClassForge.Proofs.Machine
import ClassForge.Proofs.Reading
import ClassForge.Proofs.Resolves

/-!
# What a constructor does when it runs

The code calls the constructor of the super class, stores each final through its
reference, and returns. Between two assignments the stack is empty and the bytes
that ran are exactly those before `pc`, which is what the induction over the
finals carries (`Machine.upTo`).
-/

namespace ClassForge

/-! ## Instructions read back -/

theorem toInt32_toInt8 {v : Int32} (hl : -128 ≤ v) (hu : v ≤ 127) : v.toInt8.toInt32 = v := by
  have hl' : -128 ≤ v.toInt := Int32.le_iff_toInt_le.mp hl
  have hu' : v.toInt ≤ 127 := Int32.le_iff_toInt_le.mp hu
  apply Int32.toInt_inj.mp
  rw [Int8.toInt_toInt32, Int32.toInt_toInt8, Int.bmod_eq_of_le (by omega) (by omega)]

namespace Operation

theorem read_aload0 (rest : Text) :
    read ((Instruction.simple .aload0).bytes ++ rest) =
      .ok (load 0, (Instruction.simple .aload0).bytes.length) := rfl

theorem read_ret (rest : Text) :
    read ((Instruction.simple .ret).bytes ++ rest) =
      .ok (ret, (Instruction.simple .ret).bytes.length) := rfl

theorem read_putfield (i : UInt16) (rest : Text) :
    read ((Instruction.member .putfield i).bytes ++ rest) =
      .ok (putfield i, (Instruction.member .putfield i).bytes.length) := by
  show Except.ok (putfield (Text.toU2 _ _), 3) = _
  rw [Text.toU2_bytes]
  rfl

theorem read_invokespecial (i : UInt16) (rest : Text) :
    read ((Instruction.member .invokespecial i).bytes ++ rest) =
      .ok (invokespecial i, (Instruction.member .invokespecial i).bytes.length) := by
  show Except.ok (invokespecial (Text.toU2 _ _), 3) = _
  rw [Text.toU2_bytes]
  rfl

theorem read_push {v : Int32} {i : Instruction} (h : Instruction.push? v = some i) (rest : Text) :
    read (i.bytes ++ rest) = .ok (const v, i.bytes.length) := by
  unfold Instruction.push? at h
  -- the six values with an opcode of their own
  iterate 6
    split at h
    · rename_i hv
      cases h
      subst hv
      rfl
  split at h
  · rename_i hv
    cases h
    simp only [Bool.and_eq_true, decide_eq_true_eq] at hv
    show Except.ok (const v.toInt8.toUInt8.toInt8.toInt32, 2) = _
    rw [Int8.toInt8_toUInt8, toInt32_toInt8 hv.1 hv.2]
    rfl
  · cases h

end Operation

/-! ## Single instructions -/

namespace Machine

def upTo (pc : Nat) (stack : List Operand) (effects : List Effect) : Machine :=
  { pc, stack, effects, ran := List.range pc }

section
variable {f : Frame} {a b : Text} {stack : List Operand} {effects : List Effect}

theorem step_upTo {t : Text} {op : Operation} (hcode : f.code = a ++ (t ++ b))
    (hread : Operation.read (t ++ b) = .ok (op, t.length)) :
    step f (upTo a.length stack effects) = perform f (upTo (a ++ t).length stack effects) op := by
  have hdrop : f.code.drop (upTo a.length stack effects).pc = t ++ b := by
    rw [hcode]
    exact List.drop_left
  have hran : List.range a.length ++ List.range' a.length t.length = List.range (a ++ t).length := by
    rw [List.range_eq_range', List.range_eq_range', List.length_append, ← List.range'_append]
    simp
  simp only [step, hdrop, hread]
  simp only [upTo, hran, List.length_append]

theorem run_load (hcode : f.code = a ++ ((Instruction.simple .aload0).bytes ++ b))
    (hs : stack.length < f.maxStack) (hl : 0 < f.maxLocals) :
    run f (upTo a.length stack effects) =
      run f (upTo (a ++ (Instruction.simple .aload0).bytes).length (.this :: stack) effects) := by
  refine run_of_step rfl ?_
  rw [step_upTo hcode (Operation.read_aload0 b)]
  simp [perform, push, upTo, hs, hl]

theorem run_push {i : Instruction} {v : Int32} (hcode : f.code = a ++ (i.bytes ++ b))
    (hi : Instruction.push? v = some i) (hs : stack.length < f.maxStack) :
    run f (upTo a.length stack effects) =
      run f (upTo (a ++ i.bytes).length (.int v :: stack) effects) := by
  refine run_of_step rfl ?_
  rw [step_upTo hcode (Operation.read_push hi b)]
  simp [perform, push, upTo, hs]

theorem run_store {r : UInt16} {v : Int32} {c n : Text}
    (hcode : f.code = a ++ ((Instruction.member .putfield r).bytes ++ b))
    (hr : f.field? r = some (c, n, Text.ofString "I")) :
    run f (upTo a.length (.int v :: .this :: stack) effects) =
      run f (upTo (a ++ (Instruction.member .putfield r).bytes).length stack
        (effects ++ [.store r (c, n, "I") v])) := by
  refine run_of_step rfl ?_
  rw [step_upTo hcode (Operation.read_putfield r b)]
  simp [perform, upTo, hr]

theorem run_call {r : UInt16} {c n : Text}
    (hcode : f.code = a ++ ((Instruction.member .invokespecial r).bytes ++ b))
    (hr : f.method? r = some (c, n, Text.ofString "()V")) :
    run f (upTo a.length (.this :: stack) effects) =
      run f (upTo (a ++ (Instruction.member .invokespecial r).bytes).length stack
        (effects ++ [.call r (c, n, "()V")])) := by
  refine run_of_step rfl ?_
  rw [step_upTo hcode (Operation.read_invokespecial r b)]
  simp [perform, upTo, hr]

theorem run_ret (hcode : f.code = a ++ ((Instruction.simple .ret).bytes ++ b)) :
    run f (upTo a.length stack effects) =
      .ok { upTo (a ++ (Instruction.simple .ret).bytes).length stack effects with halted := true } := by
  refine (run_of_step rfl ?_).trans (run_of_halted rfl)
  rw [step_upTo hcode (Operation.read_ret b)]
  rfl

/-! ## Whole constructors -/

def storing (c : Text) (x : Final × UInt16) : Effect := .store x.2 (c, x.1.name, "I") x.1.value

theorem run_assignments {c : Text} (hs : 2 ≤ f.maxStack) (hl : 0 < f.maxLocals) :
    ∀ {xs : List (Final × UInt16)} {is : List Instruction} {a : Text} {effects : List Effect},
      Constructor.assignments? xs = some is →
      (∀ x ∈ xs, f.field? x.2 = some (c, x.1.name, Text.ofString "I")) →
      f.code = a ++ (is.flatMap Instruction.bytes ++ b) →
      run f (upTo a.length [] effects) =
        run f (upTo (a ++ is.flatMap Instruction.bytes).length [] (effects ++ xs.map (storing c)))
  | [], is, a, effects, hx, _, _ => by
    cases hx
    simp
  | (v, r) :: xs, is, a, effects, hx, hr, hcode => by
    unfold Constructor.assignments? at hx
    split at hx
    · rename_i push more hpush hmore
      cases hx
      simp only [List.flatMap_cons, List.append_assoc] at hcode
      have hcode₁ := hcode
      rw [← List.append_assoc a] at hcode₁
      have hcode₂ := hcode₁
      rw [← List.append_assoc (a ++ _)] at hcode₂
      have hcode₃ := hcode₂
      rw [← List.append_assoc (a ++ _ ++ _)] at hcode₃
      rw [run_load hcode (by simp; omega) hl, run_push hcode₁ hpush (by simp; omega),
        run_store hcode₂ (hr _ (List.mem_cons_self ..)),
        run_assignments hs hl hmore (fun x hx => hr x (List.mem_cons_of_mem _ hx)) hcode₃]
      simp only [List.flatMap_cons, List.append_assoc, List.map_cons, List.singleton_append]
      rfl
    · cases hx

theorem run_instructions {k : Constructor} {is : List Instruction} {c d n : Text}
    (hs : 2 ≤ f.maxStack) (hl : 0 < f.maxLocals) (his : k.instructions? = some is)
    (hcode : f.code = is.flatMap Instruction.bytes)
    (hm : f.method? k.superInit = some (d, n, Text.ofString "()V"))
    (hr : ∀ x ∈ k.finals, f.field? x.2 = some (c, x.1.name, Text.ofString "I")) :
    run f {} = .ok {
      pc := f.code.length, stack := [], ran := List.range f.code.length, halted := true,
      effects := .call k.superInit (d, n, "()V") :: k.finals.map (storing c) } := by
  obtain ⟨assigned, ha, rfl⟩ := Option.map_eq_some_iff.mp his
  let load := (Instruction.simple .aload0).bytes
  let call := (Instruction.member .invokespecial k.superInit).bytes
  let assign := assigned.flatMap Instruction.bytes
  let return_ := (Instruction.simple .ret).bytes
  have hload : f.code = [] ++ (load ++ (call ++ (assign ++ return_))) := by
    rw [hcode, List.flatMap_cons, List.flatMap_cons, List.flatMap_append]
    rfl
  have hcall : f.code = load ++ (call ++ (assign ++ return_)) := hload
  have hassign : f.code = (load ++ call) ++ (assign ++ return_) := by rw [hcall, List.append_assoc]
  have hreturn : f.code = (load ++ call ++ assign) ++ (return_ ++ []) := by
    rw [hassign, List.append_nil, List.append_assoc (load ++ call)]
  have hlength : (load ++ call ++ assign ++ return_).length = f.code.length := by
    rw [hreturn, List.append_nil]
  calc run f {} = run f (upTo (List.length ([] : Text)) [] []) := rfl
    _ = run f (upTo load.length [.this] []) := run_load hload (by simp; omega) hl
    _ = run f (upTo (load ++ call).length [] [.call k.superInit (d, n, "()V")]) := run_call hcall hm
    _ = run f (upTo (load ++ call ++ assign).length []
          (.call k.superInit (d, n, "()V") :: k.finals.map (storing c))) :=
      run_assignments hs hl ha hr hassign
    _ = _ := by
      rw [run_ret hreturn, hlength]
      rfl

end

end Machine

theorem Frame.field?_of_refers {p : Pool} {a : CodeAttribute} {i : UInt16} {c n d : Text}
    (h : p.Refers .fieldref i c n d) : (Frame.ofCode p a).field? i = some (c, n, d) := by
  obtain ⟨o, m, hi⟩ := h.entry
  simp only [field?, ofCode, hi, h.member]
  rfl

theorem Frame.method?_of_refers {p : Pool} {a : CodeAttribute} {i : UInt16} {c n d : Text}
    (h : p.Refers .methodref i c n d) : (Frame.ofCode p a).method? i = some (c, n, d) := by
  obtain ⟨o, m, hi⟩ := h.entry
  simp only [method?, ofCode, hi, h.member]
  rfl

namespace Constructor

/-- The constructor of a class runs to its return within its limits: it calls
the constructor of the super class, then stores the value of each final, which
is also the constant of its field, and executes every byte once and in order. -/
theorem run_emitted {options : Options} {c : ClassDecl} {s : Skeleton} {lineNumbers : Bool}
    {w : ByteWriter} {a : CodeAttribute} (hs : (Skeleton.build options c).1 = .ok s)
    (ha : ((ofSkeleton s).emit lineNumbers w).1 = .ok a) :
    a.maxStack = 2 ∧ a.maxLocals = 1 ∧ ∃ fs : List Symbol,
      c.finals = fs.map some ∧ s.finals.toList.map Prod.fst = fs.map Symbol.final ∧
      List.Forall₂ (fun (field : FieldInfo) f => ∃ k, field.constant = some k ∧
        s.pool.get? k.value = some (.integer f.value)) (s.fields.toList.take fs.length) fs ∧
      Machine.run (Frame.ofCode s.pool a) {} = .ok {
        pc := a.code.length, stack := [], ran := List.range a.code.length, halted := true,
        effects := .call s.superInit (options.effective.superClass, "<init>", "()V") ::
          s.finals.toList.map fun x => .store x.2 (c.name, x.1.name, "I") x.1.value } := by
  obtain ⟨fs, gs, ms, hp, hl, -⟩ := Skeleton.laid_of_build hs
  obtain ⟨is, his, rfl⟩ := emit_ok ha
  have hfinals := hl.finals_of_map hp.outline_finals
  refine ⟨rfl, rfl, fs, hp.finals, ?_, ?_, ?_⟩
  · refine map_eq_of_forall₂ (List.forall₂_map_right_iff.mpr ?_)
    exact hfinals.imp fun _ _ h => h.1
  · refine (hl.constants_of_map hp.fieldShapes_eq).imp fun field f => ?_
    rintro ⟨k, hk, hshows⟩
    exact ⟨k, hk, hshows.2⟩
  · refine Machine.run_instructions (Nat.le_refl 2) Nat.one_pos his rfl ?_ ?_
    · refine Frame.method?_of_refers ?_
      show s.pool.Refers _ s.superInit _ _ _
      rw [hl.superInit]
      exact hl.superRef
    · intro x hx
      obtain ⟨f, -, hf, hr⟩ := exists_of_forall₂ hfinals hx
      rw [hf]
      exact Frame.field?_of_refers hr

theorem run_emitted_sample :
    ∃ s a, (Skeleton.build {} ClassDecl.sample).1 = .ok s ∧
      ((ofSkeleton s).emit true .forCode).1 = .ok a ∧ a.maxStack = 2 ∧ a.maxLocals = 1 ∧
      ∃ fs : List Symbol, ClassDecl.sample.finals = fs.map some ∧
        s.finals.toList.map Prod.fst = fs.map Symbol.final ∧
        List.Forall₂ (fun (field : FieldInfo) f => ∃ k, field.constant = some k ∧
          s.pool.get? k.value = some (.integer f.value)) (s.fields.toList.take fs.length) fs ∧
        Machine.run (Frame.ofCode s.pool a) {} = .ok {
          pc := a.code.length, stack := [], ran := List.range a.code.length, halted := true,
          effects := .call s.superInit ("java/lang/Object", "<init>", "()V") ::
            s.finals.toList.map fun x => .store x.2 ("K", x.1.name, "I") x.1.value } := by
  have hs : ∃ s a, (Skeleton.build {} ClassDecl.sample).1 = .ok s ∧
      ((ofSkeleton s).emit true .forCode).1 = .ok a := ⟨_, _, rfl, rfl⟩
  obtain ⟨s, a, hs, ha⟩ := hs
  exact ⟨s, a, hs, ha, run_emitted hs ha⟩

end Constructor

end ClassForge
