import ClassForge.Text.Rune

/-!
# JSON values

When a value is written, members and items stand on lines of their own, indented by two
spaces a level. Characters that would end a string or a script element are escaped.
-/

namespace ClassForge

/-- A JSON value. Numbers keep their spelling, and members their order and
repetitions. -/
inductive Json where
  | null
  | bool (value : Bool)
  | number (literal : List Char)
  | string (chars : List Char)
  | array (items : List Json)
  | object (members : List (List Char × Json))
  deriving Inhabited

namespace Json

def maxDepth : Nat := 10000

def hexChar (n : Nat) : Char := Nat.digitChar (n % 16)

def escape (c : Char) : List Char :=
  match c with
  | '"' => ['\\', '"']
  | '\\' => ['\\', '\\']
  | '\n' => ['\\', 'n']
  | '\r' => ['\\', 'r']
  | '\t' => ['\\', 't']
  | c =>
    let n := c.toNat
    if n = 8 then ['\\', 'b']
    else if n = 12 then ['\\', 'f']
    else if n < 0x20 || c == '<' || c == '>' || c == '&' || n = 0x2028 || n = 0x2029 then
      ['\\', 'u', hexChar (n / 4096), hexChar (n / 256), hexChar (n / 16), hexChar n]
    else [c]

def quoted (cs : List Char) : List Char := '"' :: cs.flatMap escape ++ ['"']

def newline (level : Nat) : List Char := '\n' :: List.replicate (2 * level) ' '

mutual

/-- Writes a value at a level, backwards in front of `done`. -/
def writeTo (level : Nat) : Json → (done : List Char) → List Char
  | .null, done => "null".toList.reverse ++ done
  | .bool true, done => "true".toList.reverse ++ done
  | .bool false, done => "false".toList.reverse ++ done
  | .number literal, done => literal.reverse ++ done
  | .string cs, done => (quoted cs).reverse ++ done
  | .array [], done => ']' :: '[' :: done
  | .array (v :: rest), done =>
    let done := writeTo (level + 1) v ((newline (level + 1)).reverse ++ '[' :: done)
    ']' :: ((newline level).reverse ++ writeItems (level + 1) rest done)
  | .object [], done => '\x7d' :: '\x7b' :: done
  | .object ((key, v) :: rest), done =>
    let start := (quoted key).reverse ++ ((newline (level + 1)).reverse ++ '\x7b' :: done)
    let done := writeTo (level + 1) v (' ' :: ':' :: start)
    '\x7d' :: ((newline level).reverse ++ writeMembers (level + 1) rest done)

def writeItems (level : Nat) : List Json → (done : List Char) → List Char
  | [], done => done
  | v :: rest, done =>
    writeItems level rest (writeTo level v ((newline level).reverse ++ ',' :: done))

def writeMembers (level : Nat) : List (List Char × Json) → (done : List Char) → List Char
  | [], done => done
  | (key, v) :: rest, done =>
    let start := (quoted key).reverse ++ ((newline level).reverse ++ ',' :: done)
    writeMembers level rest (writeTo level v (' ' :: ':' :: start))

end

def text (v : Json) : List Char := (writeTo 0 v []).reverse

end Json

end ClassForge
