import ClassForge.Proofs.Verdict

/-!
# Generators start afresh

A generator goes from class to class with one builder and one writer. The builder may
hold the skeleton of an earlier class, or what there was of it when its pool was full;
beginning a class replaces all of that but two numbers, which the first phase sets
before anything looks at them (`PoolBuilder.build_eq`). The writer may hold earlier
code, half of it, or the memory of a refused write; emitting resets it, so all that
counts is its limit, and no compilation changes that.
-/

namespace ClassForge

theorem ByteWriter.reset_congr {w w' : ByteWriter} (h : w.limit = w'.limit) : w.reset = w'.reset := by
  simp only [reset, h]

theorem Constructor.emit_congr (c : Constructor) (lineNumbers : Bool) {w w' : ByteWriter}
    (h : w.limit = w'.limit) : c.emit lineNumbers w = c.emit lineNumbers w' := by
  simp only [emit, ByteWriter.reset_congr h]

namespace Generator

def compileAll (g : Generator) : List ClassDecl → List (Outcome Text)
  | [] => []
  | c :: cs => (g.compile c).1 :: compileAll (g.compile c).2 cs

theorem complete_congr (options : Options) (built : Except Failure Skeleton × Array LogRecord)
    {w w' : ByteWriter} (h : w.limit = w'.limit) :
    (complete options built w).1 = (complete options built w').1 := by
  rcases built with ⟨_ | s, log⟩
  · rfl
  · simp only [complete, Constructor.emit_congr _ _ h]

section
variable {g g' : Generator} (hoptions : g.options = g'.options) (hlimit : g.writer.limit = g'.writer.limit)
include hoptions hlimit

/-- Of a generator only the options and the limit of its writer can be told. -/
theorem generate_congr (c : ClassDecl) : (g.generate c).1 = (g'.generate c).1 := by
  show (complete g.options (g.builder.build g.options c).1 g.writer).1 =
    (complete g'.options (g'.builder.build g'.options c).1 g'.writer).1
  rw [PoolBuilder.build_eq, PoolBuilder.build_eq, hoptions]
  exact complete_congr _ _ hlimit

theorem compile_congr (c : ClassDecl) : (g.compile c).1 = (g'.compile c).1 := by
  simp only [compile, generate_congr hoptions hlimit c]

theorem compileAll_of_keeps (cs : List ClassDecl) :
    g.compileAll cs = cs.map fun c => (g'.compile c).1 := by
  induction cs generalizing g with
  | nil => rfl
  | cons c cs ih =>
    obtain ⟨hkeeps, hkeeps'⟩ := g.keeps_compile c
    rw [compileAll, List.map_cons, compile_congr hoptions hlimit c,
      ih (hkeeps.trans hoptions) (hkeeps'.trans hlimit)]

end

/-- Classes that are compiled one after the other come out as if each had a generator
of its own, whether those before it succeed or fail, and at whatever stage. -/
theorem compileAll_eq_map (options : Options) (cs : List ClassDecl) :
    (ofOptions options).compileAll cs = cs.map fun c => ((ofOptions options).compile c).1 :=
  compileAll_of_keeps rfl rfl cs

end Generator

end ClassForge
