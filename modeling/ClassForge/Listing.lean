import ClassForge.Instruction
import ClassForge.ParsedClass
import ClassForge.Report
import ClassForge.Text.Rune

/-!
# Listings

Constant pools, code and whole class files laid out for reading:

    #1 = Methodref          #2.#3          // java/lang/Object."<init>":()V
    0: aload_0
    1: invokespecial #1
-/

namespace ClassForge

namespace Text

/-- Fills with spaces on the right, up to a width counted in runes. -/
def padRight (columns : Nat) (t : Text) : Text :=
  t ++ List.replicate (columns - t.width) 32

def padLeft (columns : Nat) (t : Text) : Text :=
  List.replicate (columns - t.width) 32 ++ t

end Text

namespace Pool

def sharp (index : UInt16) : Text := "#" ++ Text.ofNat index.toNat

def describe : Entry → Text × Text
  | .utf8 text => ("Utf8", text)
  | .integer value => ("Integer", Text.ofInt value.toInt)
  | .classRef name => ("Class", sharp name)
  | .nameAndType name descriptor => ("NameAndType", sharp name ++ ":" ++ sharp descriptor)
  | .fieldref owner member => ("Fieldref", sharp owner ++ "." ++ sharp member)
  | .methodref owner member => ("Methodref", sharp owner ++ "." ++ sharp member)
  | .vacant => ("Unknown", "<nil>")

/-- A member name; one that no source can spell stands in quotes. -/
def memberName (name : Text) : Text :=
  if (Text.ofString "<").isPrefixOf name then "\"" ++ name ++ "\"" else name

def memberComment (p : Pool) (owner member : UInt16) : Text :=
  match p.className owner, p.nameAndType member with
  | .ok cls, .ok (name, descriptor) => cls ++ "." ++ memberName name ++ ":" ++ descriptor
  | _, _ => []

def comment (p : Pool) : Entry → Text
  | .classRef name =>
    match p.utf8 name with
    | .ok text => text
    | .error _ => []
  | .nameAndType name descriptor =>
    match p.utf8 name, p.utf8 descriptor with
    | .ok n, .ok d => memberName n ++ ":" ++ d
    | _, _ => []
  | .fieldref owner member => p.memberComment owner member
  | .methodref owner member => p.memberComment owner member
  | _ => []

def listLine (p : Pool) (width : Nat) (i : Nat) (e : Entry) : Text :=
  let (kind, args) := describe e
  let line : Text := "  " ++ Text.padLeft width (sharp (UInt16.ofNat (i + 1))) ++ " = " ++
    Text.padRight 18 kind ++ " " ++ args
  let note := p.comment e
  if note.isEmpty then line ++ "\n" else Text.padRight 50 line ++ " // " ++ note ++ "\n"

def list (p : Pool) : Text :=
  let width := (Text.ofNat p.size).length + 1
  "Constant pool:\n" ++ (p.entries.mapIdx (p.listLine width)).toList.flatten

end Pool

namespace CodeItem

def line (pc : Nat) (item : CodeItem) : Text :=
  "  " ++ Text.padLeft 4 (Text.ofNat pc) ++ ": " ++
    (match item with
    | instruction (.simple op) => op.mnemonic
    | instruction (.bipush value) =>
      Text.padRight 14 Instruction.bipushMnemonic ++ " " ++ Text.ofInt value.toInt
    | instruction (.member op index) => Text.padRight 14 op.mnemonic ++ " " ++ Pool.sharp index
    | unknown opcode => "<unknown 0x" ++ Text.hexUpper 2 opcode.toNat ++ ">"
    | truncated mnemonic => mnemonic ++ " <truncated>") ++ "\n"

end CodeItem

def disassemble (code : Text) : Text :=
  (CodeItem.decode code).flatMap fun (pc, item) => item.line pc

/-- The loop of `hexDump`: `row` holds the bytes of the current line and
`count` their number, `offset` is where the line starts, and `done` holds the
lines so far; `row` and `done` are backwards. -/
def hexDumpLoop (offset : Nat) : Text → (row : List Text) → (count : Nat) → (done : List Text) →
    List Text
  | [], row, _, done => (if row.isEmpty then done else line offset row :: done).reverse
  | b :: rest, row, count, done =>
    let row := Text.hexUpper 2 b.toNat :: row
    if count = 15 then hexDumpLoop (offset + 16) rest [] 0 (line offset row :: done)
    else hexDumpLoop offset rest row (count + 1) done
where
  line (offset : Nat) (row : List Text) : Text :=
    "  " ++ Text.hex 4 offset ++ "  " ++ Text.join " " row.reverse ++ "\n"

def hexDump (data : Text) : Text := (hexDumpLoop 0 data [] 0 []).flatten

namespace ParsedClass

def fieldLine (c : ParsedClass) (style : Style) (f : ParsedMember) : Text :=
  "  0x" ++ Text.hexUpper 4 f.access.toNat ++ " " ++ style.tint false .green f.name ++
    " " ++ f.descriptor ++
    (match f.constant? c.pool with
    | some value => " = " ++ Text.ofInt value.toInt
    | none => []) ++ "\n"

def methodLines (style : Style) (m : ParsedMember) : Text :=
  "  0x" ++ Text.hexUpper 4 m.access.toNat ++ " " ++ style.tint false .green m.name ++
    " " ++ m.descriptor ++ "\n" ++
    match m.code with
    | none => []
    | some code =>
      "    stack=" ++ numeral code.maxStack.toNat ++ ", locals=" ++ numeral code.maxLocals.toNat ++
        ", code_length=" ++ numeral code.code.length ++ "\n" ++
        disassemble code.code ++ hexDump code.code

def inspect (c : ParsedClass) (style : Style) : Except Pool.Unresolved Text := do
  let this ← c.thisName
  let super ← c.superName
  let heading := style.paint .cyan
  let source : Text :=
    match c.sourceFile? with
    | some file => "  source: " ++ file ++ "\n"
    | none => []
  return List.flatten [
    heading ("class " ++ this), " extends ", super, "\n",
    "  version: ", numeral c.major.toNat, ".", numeral c.minor.toNat, "\n",
    "  flags: 0x", Text.hexUpper 4 c.access.toNat, "\n",
    source, "\n",
    c.pool.list, "\n",
    heading "Fields:\n", c.fields.flatMap (c.fieldLine style), "\n",
    heading "Methods:\n", c.methods.flatMap (methodLines style)]

end ParsedClass

end ClassForge
