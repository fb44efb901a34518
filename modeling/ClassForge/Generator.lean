import ClassForge.Constructor
import ClassForge.Listing

/-!
# Generating class files

A generator makes one class file after another: skeleton, constructor, bytes.
From class to class it keeps the builder of skeletons and the writer of
constructor code, as the last class left them.
-/

namespace ClassForge

structure Generator where
  options : Options
  builder : PoolBuilder := {}
  writer : ByteWriter := .forCode
  deriving Inhabited

/-- What came of an attempt, with what was recorded and listed on the way. -/
structure Outcome (α : Type) where
  result : Except Failure α
  log : Array LogRecord := #[]
  listing : Text := []

namespace Generator

def ofOptions (options : Options) : Generator := { options := options.effective }

def list (name : Text) (pool : Pool) (code : Text) : Text :=
  "=== " ++ name ++ " ===\n" ++ pool.list ++ "Code (<init>):\n" ++ disassemble code ++ hexDump code

def assemble (options : Options) (s : Skeleton) (code : CodeAttribute) : ClassFile where
  minor := options.minor
  major := options.major
  pool := s.pool
  thisClass := s.thisClass
  superClass := s.superClass
  fields := s.fields.toList
  methods := (s.methods.modify 0 fun m => { m with code := some code }).toList
  source := s.source

def complete (options : Options) (built : Except Failure Skeleton × Array LogRecord) (w : ByteWriter) :
    Outcome ClassFile × ByteWriter :=
  match built with
  | (.error f, log) => ({ result := .error f, log }, w)
  | (.ok s, log) =>
    let (emitted, w) := (Constructor.ofSkeleton s).emit options.lineNumbers w
    match emitted with
    | .error d => ({ result := .error d, log }, w)
    | .ok code =>
      let file := assemble options s code
      let log := log.push (.constructorEmitted s.className s.finals.size code.code.length)
      let log := log.push
        (.classGenerated s.className s.pool.size file.fields.length file.methods.length)
      let listing := if options.debug then list s.className s.pool code.code else []
      ({ result := .ok file, log, listing }, w)

def generate (g : Generator) (c : ClassDecl) : Outcome ClassFile × Generator :=
  let (built, builder) := g.builder.build g.options c
  let (made, writer) := complete g.options built g.writer
  (made, { g with builder, writer })

def compile (g : Generator) (c : ClassDecl) : Outcome Text × Generator :=
  let (made, g) := g.generate c
  let result :=
    match made.result with
    | .error f => .error f
    | .ok file =>
      match file.write with
      | .ok bytes => .ok bytes
      | .error o => .error o.diagnostic
  ({ result, log := made.log, listing := made.listing }, g)

end Generator

end ClassForge
