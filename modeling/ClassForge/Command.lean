import ClassForge.Command.Verb
import ClassForge.Document.Format
import ClassForge.Output
import ClassForge.Settings.File

/-!
# Running commands

A run takes arguments and gives what it writes, on the output for results and
on that for diagnostics, and how it ends.
-/

namespace ClassForge

structure Libraries where
  cbor : Codec
  toml : TomlReader
  /-- The severity that a word in lower case names. -/
  level? : Text → Option Severity
  ink : (bold : Bool) → Colour → Text → Text
  list : List Text → Text

def Libraries.style (lib : Libraries) (colours : Bool) : Style :=
  { ink := lib.ink, list := lib.list, colours }

namespace Command

inductive Ending where
  | done
  | failed (failure : Failure)
  /-- Something failed, and all about it is written already. -/
  | reported
  deriving Inhabited

structure Run where
  out : Text := []
  err : Text := []
  ending : Ending := .done
  deriving Inhabited

namespace Run

def failed (f : Failure) : Run := { ending := .failed f }

def wrote (out : Text) : Run := { out }

end Run

def reportedFailure : Failure := .plain "errors reported"

namespace Ending

def failure? : Ending → Option Failure
  | done => none
  | failed f => some f
  | reported => some reportedFailure

end Ending

variable {m : Type → Type} [Monad m] [Storage m] (lib : Libraries)

/-! ## build -/

def override (s : Settings) (g : Given) : Settings :=
  { s with
    debug := (g.switch? "debug").getD s.debug
    outputDir := (g.text? "out").getD s.outputDir
    lineNumbers := (g.switch? "line-numbers").getD s.lineNumbers }

/-- The settings for a build whose first input is `first`: those of the file
that was named, or else of the file that holds for the input. -/
def settingsFor (g : Given) (first : Text) : m (Except Failure Settings) := do
  let named := (g.text? "config").getD []
  let path ← if named = [] then Settings.find first else pure (some named)
  match path with
  | none => return .ok (override {} g)
  | some path => return (← Settings.loadFile lib.toml lib.level? path).map (override · g)

structure Build where
  generator : Generator
  reporter : Reporter
  out : Text := []
  err : Text := []

def compileInput (s : Settings) (g : Generator) (input : Text) :
    m (Text × Except Failure Text × Generator) := do
  match ← Document.loadClass lib.cbor input with
  | .error f => return ([], .error f, g)
  | .ok c =>
    let (written, g) ← g.compileToFile c s.outputDir s.classExtension
    match written.failure, written.output with
    | some f, _ => return (written.listing, .error f, g)
    | none, some output => return (written.listing, .ok output.path, g)
    | none, none => return (written.listing, .ok [], g)

/-- Compiles the inputs one after the other; one that fails is reported and
passed over. -/
def buildInputs (s : Settings) : List Text → Build → m Build
  | [], b => pure b
  | input :: rest, b => do
    let (listing, result, generator) ← compileInput lib s b.generator input
    match result with
    | .ok path =>
      buildInputs s rest
        { b with
          generator, err := b.err ++ listing, out := b.out ++ (input ++ " -> " ++ path ++ "\n") }
    | .error f =>
      let (report, reporter) := b.reporter.report f
      buildInputs s rest { b with generator, reporter, err := b.err ++ listing ++ report }

def buildWith (colours : Bool) (s : Settings) (inputs : List Text) : m Run := do
  match s.logged lib.level? with
  | .error f => return .failed f
  | .ok _ =>
    let b ← buildInputs lib s inputs
      { generator := .ofOptions s.options, reporter := { style := lib.style colours } }
    if b.reporter.shown.isEmpty then return { out := b.out, err := b.err }
    else return { out := b.out, err := b.err ++ b.reporter.summary, ending := .reported }

def build (colours : Bool) (g : Given) (inputs : List Text) : m Run := do
  match ← settingsFor lib g (inputs.headD []) with
  | .error f => return .failed f
  | .ok s => buildWith lib colours s inputs

/-! ## The other commands -/

def inspect (colours : Bool) (path : Text) : m Run := do
  match ← ParsedClass.load path with
  | .error f => return .failed f
  | .ok c =>
    match c.inspect (lib.style colours) with
    | .error u => return .failed u.failure
    | .ok text => return .wrote text

def init (force : Bool) (dir : Text) : m Run := do
  let path := Path.join [dir, Settings.fileName]
  if (← Storage.kindAt path).isSome && !force then
    return .failed (.plain (path ++ " already exists (use --force to overwrite)"))
  else
    match ← Storage.makeDirectories dir with
    | .error f => return .failed f.failure
    | .ok () =>
      match ← Settings.save {} path with
      | .error f => return .failed f
      | .ok () => return .wrote ("created " ++ path ++ "\n")

/-! ## All commands -/

def perform (colours : Bool) (v : Verb) (g : Given) (operands : List Text) : m Run :=
  match v with
  | .build => build lib colours g operands
  | .inspect => inspect lib colours (operands.headD [])
  | .init => init ((g.switch? "force").getD false) (operands.headD ".")
  | .version => pure (.wrote (program ++ " version " ++ version ++ "\n"))
  | .help | .completion =>
    pure (.wrote (((operands.head?.bind Verb.ofName?).map Verb.helpText).getD programHelp))

def runVerb (colours : Bool) (v : Verb) (arguments : List Text) : m Run :=
  match parseFlags v.flags arguments with
  | .error e => pure (.failed (.plain e.message))
  | .ok (g, operands) =>
    if g.switch? "help" = some true then pure (.wrote v.helpText)
    else
      match v.operandFault? operands with
      | some words => pure (.failed (.plain words))
      | none => perform lib colours v g operands

/-- Runs the program without a command, which is good for its help only. -/
def runBare (arguments : List Text) : Run :=
  match parseFlags [Verb.helpFlag] arguments with
  | .error e => .failed (.plain e.message)
  | .ok _ => .wrote programHelp

def run (colours : Bool) (arguments : List Text) : m Run :=
  match words arguments with
  | [] => pure (runBare arguments)
  | word :: _ =>
    match Verb.ofName? word with
    | none => pure (.failed (.plain (unknownCommand word)))
    | some v => runVerb lib colours v (dropWord word arguments)

end Command

end ClassForge
