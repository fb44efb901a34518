import ClassForge.Command.Flag
import ClassForge.Text.Lower

/-!
# Commands

The first argument that is no flag names the command. What the command then
gets are the other arguments.
-/

namespace ClassForge.Command

def program : Text := "sstc"

def version : Text := "0.1.0"

inductive Verb where
  | build
  | inspect
  | init
  | version
  | help
  | completion
  deriving DecidableEq, Inhabited

namespace Verb

def all : List Verb := [build, inspect, init, version, help, completion]

def name : Verb → Text
  | build => "build"
  | inspect => "inspect"
  | init => "init"
  | version => "version"
  | help => "help"
  | completion => "completion"

def ofName? (word : Text) : Option Verb := all.find? (·.name = word)

def helpFlag : Flag := { name := "help", letter := some 104, kind := .switch }

def flags : Verb → List Flag
  | build => [
    { name := "config", letter := some 99, kind := .text },
    { name := "debug", kind := .switch },
    { name := "out", letter := some 111, kind := .text },
    { name := "line-numbers", kind := .switch }, helpFlag]
  | init => [{ name := "force", letter := some 102, kind := .switch }, helpFlag]
  | _ => [helpFlag]

def operandFault? (v : Verb) (operands : List Text) : Option Text :=
  let count := Text.ofNat operands.length
  match v with
  | build =>
    if operands.isEmpty then some ("requires at least 1 arg(s), only received " ++ count) else none
  | inspect => if operands.length = 1 then none else some ("accepts 1 arg(s), received " ++ count)
  | init =>
    if operands.length ≤ 1 then none else some ("accepts at most 1 arg(s), received " ++ count)
  | version =>
    operands.head?.map fun word =>
      "unknown command " ++ word.quote ++ " for " ++ (program ++ " " ++ v.name).quote
  | help | completion => none

end Verb

/-! ## Finding the command -/

/-- Whether an argument is a flag that takes the next one, as far as can be
told without knowing the command. -/
def takesNext (argument : Text) : Bool :=
  argument.head? = some 45 && !argument.contains 61 &&
    (argument.length = 2 || argument.take 2 = [45, 45])

def words : List Text → List Text
  | [] => []
  | argument :: rest =>
    if argument = Text.ofString "--" then []
    else if takesNext argument then
      match rest with
      | _ :: next :: rest => words (next :: rest)
      | _ => []
    else if argument != [] && argument.head? != some 45 then argument :: words rest
    else words rest

def dropWord (word : Text) : List Text → List Text
  | [] => []
  | argument :: rest =>
    if argument = Text.ofString "--" then argument :: rest
    else if takesNext argument then
      match rest with
      | value :: rest => argument :: value :: dropWord word rest
      | [] => [argument]
    else if argument.head? != some 45 && argument = word then rest
    else argument :: dropWord word rest

/-! ## Suggestions -/

/-- The next row of the table of edit distances: `above` is the row above from
`corner` on, and `left` the distance to the left. -/
def editRow (b : UInt8) : (word : Text) → (corner : Nat) → (above : List Nat) → (left : Nat) →
    List Nat
  | a :: word, corner, up :: above, left =>
    let here := if a = b then corner else 1 + min corner (min up left)
    here :: editRow b word up above here
  | _, _, _, _ => []

def editRows (word : Text) : (letters : Text) → (row : List Nat) → List Nat
  | [], row => row
  | b :: letters, row =>
    let first := row.headD 0 + 1
    editRows word letters (first :: editRow b word (row.headD 0) (row.drop 1) first)

/-- The least number of letters to add, drop or change to get from one word to
another. -/
def editDistance (word other : Text) : Nat :=
  (editRows word other (List.range (word.length + 1))).getLastD 0

def isNear (word : Text) (v : Verb) : Bool :=
  let word := word.lower
  v != .help && (editDistance word v.name ≤ 2 || word.isPrefixOf v.name)

def suggestion (v : Verb) : Text := "\t" ++ v.name ++ "\n"

def unknownCommand (word : Text) : Text :=
  let near := Verb.all.filter (isNear word)
  let hint : Text :=
    if near.isEmpty then []
    else "\n\nDid you mean this?\n" ++ near.flatMap suggestion
  "unknown command " ++ word.quote ++ " for " ++ program.quote ++ hint

/-! ## Help -/

def programHelp : Text :=
  "sstc turns a resolved JavaSST class document into a JVM class file.\n\n" ++
  "Usage:\n  sstc [command]\n\n" ++
  "Available Commands:\n" ++
  "  build       Generate class files from class documents\n" ++
  "  completion  Generate the autocompletion script for the specified shell\n" ++
  "  help        Help about any command\n" ++
  "  init        Write a default sstc.toml\n" ++
  "  inspect     Print the structure of a class file\n" ++
  "  version     Print the sstc version\n\n" ++
  "Flags:\n  -h, --help   help for sstc\n\n" ++
  "Use \"sstc [command] --help\" for more information about a command.\n"

def Verb.helpText : Verb → Text
  | build =>
    "Generate class files from class documents\n\n" ++
    "Usage:\n  sstc build <file.json|file.cbor>... [flags]\n\n" ++
    "Flags:\n" ++
    "  -c, --config string   path to sstc.toml (default: search upwards from the first input)\n" ++
    "      --debug           dump the constant pool and constructor bytecode\n" ++
    "  -h, --help            help for build\n" ++
    "      --line-numbers    emit a LineNumberTable for the constructor\n" ++
    "  -o, --out string      output directory for class files\n"
  | inspect =>
    "Print the structure of a class file\n\n" ++
    "Usage:\n  sstc inspect <file.class> [flags]\n\n" ++
    "Flags:\n  -h, --help   help for inspect\n"
  | init =>
    "Write a default sstc.toml\n\n" ++
    "Usage:\n  sstc init [dir] [flags]\n\n" ++
    "Flags:\n  -f, --force   overwrite an existing sstc.toml\n  -h, --help    help for init\n"
  | version =>
    "Print the sstc version\n\n" ++
    "Usage:\n  sstc version [flags]\n\n" ++
    "Flags:\n  -h, --help   help for version\n"
  | help | completion => programHelp

end ClassForge.Command
