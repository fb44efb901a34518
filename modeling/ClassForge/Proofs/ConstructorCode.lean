import ClassForge.Constructor
import ClassForge.Proofs.WriterHistory

/-!
# What a constructor is written as

A constructor is written piece by piece, and a piece that does not fit stops
all writing. If nothing was refused, the bytes are those of the instructions
in a row: `Constructor.emit_of_instructions?`.
-/

namespace ClassForge

theorem Instruction.flatten_chunks (i : Instruction) : i.chunks.flatten = i.bytes := by
  cases i <;> simp [chunks, bytes]

namespace Constructor

def assignments? : List (Final × UInt16) → Option (List Instruction)
  | [] => some []
  | (f, ref) :: rest =>
    match Instruction.push? f.value, assignments? rest with
    | some push, some more => some (.simple .aload0 :: push :: .member .putfield ref :: more)
    | _, _ => none

def instructions? (c : Constructor) : Option (List Instruction) :=
  (assignments? c.finals).map fun assigned =>
    .simple .aload0 :: .member .invokespecial c.superInit :: (assigned ++ [.simple .ret])

/-- The first final that cannot be pushed is the one that is reported. -/
theorem writeFinals_fst (fs : List (Final × UInt16)) (w : ByteWriter) :
    (writeFinals fs w).1 =
      (fs.find? fun x => (Instruction.push? x.1.value).isNone).map fun x => noPush x.1 := by
  induction fs generalizing w with
  | nil => rfl
  | cons x fs ih =>
    obtain ⟨f, ref⟩ := x
    rw [List.find?_cons]
    cases hp : Instruction.push? f.value with
    | none => simp [writeFinals, hp]
    | some push => simp [writeFinals, hp, ih]

theorem assignments?_eq_none {fs : List (Final × UInt16)} (h : assignments? fs = none) :
    (fs.find? fun x => (Instruction.push? x.1.value).isNone).isSome := by
  induction fs with
  | nil => cases h
  | cons x fs ih =>
    obtain ⟨f, ref⟩ := x
    rw [List.find?_cons]
    cases hp : Instruction.push? f.value with
    | none => rfl
    | some push =>
      cases hr : assignments? fs with
      | none => exact ih hr
      | some more => simp [assignments?, hp, hr] at h

theorem writeFinals_of_assignments? {fs : List (Final × UInt16)} {is : List Instruction}
    (h : assignments? fs = some is) (w : ByteWriter) :
    writeFinals fs w = (none, is.foldl writeInstruction w) := by
  induction fs generalizing is w with
  | nil =>
    cases h
    rfl
  | cons x fs ih =>
    obtain ⟨f, ref⟩ := x
    unfold assignments? at h
    split at h
    · rename_i push more hp hr
      cases h
      rw [writeFinals]
      simp only [hp, ih hr]
      rfl
    · cases h

theorem foldl_writeInstruction (is : List Instruction) (w : ByteWriter) :
    is.foldl writeInstruction w = (is.flatMap Instruction.chunks).foldl ByteWriter.write w := by
  rw [List.foldl_flatMap]
  rfl

theorem flatten_flatMap_chunks (is : List Instruction) :
    (is.flatMap Instruction.chunks).flatten = is.flatMap Instruction.bytes := by
  induction is with
  | nil => rfl
  | cons i is ih =>
    rw [List.flatMap_cons, List.flatten_append, List.flatMap_cons, ih, Instruction.flatten_chunks]

/-- Code is written whole, or a piece of it was refused. -/
theorem emit_of_instructions? {c : Constructor} {is : List Instruction} (h : c.instructions? = some is)
    (lineNumbers : Bool) (w : ByteWriter) :
    (c.emit lineNumbers w).1 =
      match ((is.flatMap Instruction.chunks).foldl ByteWriter.write w.reset).error? with
      | some d => .error d
      | none => .ok
        { name := c.codeName, maxStack, maxLocals, code := is.flatMap Instruction.bytes,
          tables := c.tables lineNumbers } := by
  obtain ⟨assigned, ha, rfl⟩ := Option.map_eq_some_iff.mp h
  have hall : writeInstruction (assigned.foldl writeInstruction
      (writeInstruction (writeInstruction w.reset (.simple .aload0))
        (.member .invokespecial c.superInit))) (.simple .ret) =
    (.simple .aload0 :: .member .invokespecial c.superInit :: (assigned ++ [.simple .ret])).foldl
      writeInstruction w.reset := by
    rw [List.foldl_cons, List.foldl_cons, List.foldl_append]
    rfl
  simp only [emit, writeFinals_of_assignments? ha]
  rw [hall, foldl_writeInstruction]
  cases herror : (List.foldl ByteWriter.write w.reset _).error? with
  | some d => rfl
  | none =>
    simp only [ByteWriter.toList_foldl_write herror, flatten_flatMap_chunks]

theorem emit_of_find? {c : Constructor} {x : Final × UInt16}
    (h : (c.finals.find? fun x => (Instruction.push? x.1.value).isNone) = some x)
    (lineNumbers : Bool) (w : ByteWriter) : (c.emit lineNumbers w).1 = .error (noPush x.1) := by
  have hd := writeFinals_fst c.finals (writeInstruction (writeInstruction w.reset (.simple .aload0))
    (.member .invokespecial c.superInit))
  rw [h] at hd
  simp only [emit]
  split
  · rename_i hf
    rw [hf] at hd
    cases hd
    rfl
  · rename_i hf
    rw [hf] at hd
    cases hd

theorem emit_ok {lineNumbers : Bool} {c : Constructor} {w : ByteWriter} {a : CodeAttribute}
    (h : (c.emit lineNumbers w).1 = .ok a) :
    ∃ is, c.instructions? = some is ∧ a =
      { name := c.codeName, maxStack, maxLocals, code := is.flatMap Instruction.bytes,
        tables := c.tables lineNumbers } := by
  cases hi : c.instructions? with
  | none =>
    obtain ⟨x, hx⟩ := Option.isSome_iff_exists.mp (assignments?_eq_none (Option.map_eq_none_iff.mp hi))
    rw [emit_of_find? hx] at h
    cases h
  | some is =>
    rw [emit_of_instructions? hi] at h
    split at h
    · cases h
    · cases h
      exact ⟨is, rfl, rfl⟩

end Constructor

end ClassForge
