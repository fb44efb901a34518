import ClassForge.Json

/-!
# JSON tokens

The text is read one character at a time. A number or a word ends at the first
character that cannot belong to it; a string ends at its closing quote.
-/

namespace ClassForge.Json

inductive Token where
  | openBrace
  | closeBrace
  | openBracket
  | closeBracket
  | colon
  | comma
  | null
  | bool (value : Bool)
  | number (literal : List Char)
  | string (chars : List Char)
  deriving DecidableEq, Inhabited

/-! ## Numbers -/

/-- What is left after a run of digits, which must not be empty. -/
def digits? : List Char → Option (List Char)
  | c :: rest => if c.isDigit then some (rest.dropWhile Char.isDigit) else none
  | [] => none

def exponent? : List Char → Option (List Char)
  | 'e' :: '+' :: rest | 'e' :: '-' :: rest => digits? rest
  | 'E' :: '+' :: rest | 'E' :: '-' :: rest => digits? rest
  | 'e' :: rest | 'E' :: rest => digits? rest
  | rest => some rest

def fraction? : List Char → Option (List Char)
  | '.' :: rest => digits? rest
  | rest => some rest

/-- What is left after the digits in front of the point; a leading zero stands
alone. -/
def whole? : List Char → Option (List Char)
  | '0' :: rest => some rest
  | rest => digits? rest

def isNumber (literal : List Char) : Bool :=
  let unsigned :=
    match literal with
    | '-' :: rest => rest
    | rest => rest
  ((whole? unsigned).bind fraction?).bind exponent? == some []

def isNumberChar (c : Char) : Bool :=
  c.isDigit || c == '-' || c == '+' || c == '.' || c == 'e' || c == 'E'

/-! ## Strings -/

def unescape? : Char → Option Char
  | '"' => some '"'
  | '\\' => some '\\'
  | '/' => some '/'
  | 'b' => some (Char.ofNat 8)
  | 'f' => some (Char.ofNat 12)
  | 'n' => some '\n'
  | 'r' => some '\r'
  | 't' => some '\t'
  | _ => none

def hexDigit? (c : Char) : Option Nat :=
  if c.isDigit then some (c.toNat - 48)
  else if 'a' ≤ c && c ≤ 'f' then some (c.toNat - 87)
  else if 'A' ≤ c && c ≤ 'F' then some (c.toNat - 55)
  else none

def isHighSurrogate (n : Nat) : Bool := 0xD800 ≤ n && n < 0xDC00

def isLowSurrogate (n : Nat) : Bool := 0xDC00 ≤ n && n < 0xE000

structure Spell where
  done : List Char := []
  /-- The first half of a pair of escapes that stand for one character. -/
  high : Option Nat := none
  deriving DecidableEq, Inhabited

namespace Spell

/-- Gives up waiting for the second half of a pair. -/
def settle (s : Spell) : Spell :=
  match s.high with
  | some _ => ⟨Rune.replacement :: s.done, none⟩
  | none => s

def push (s : Spell) (c : Char) : Spell := ⟨c :: s.settle.done, none⟩

/-- One more escape by number. Half of a pair on its own stands for the
replacement character. -/
def pushUnit (s : Spell) (n : Nat) : Spell :=
  match s.high with
  | some h =>
    if isLowSurrogate n then
      ⟨Char.ofNat (0x10000 + (h - 0xD800) * 0x400 + (n - 0xDC00)) :: s.done, none⟩
    else pushFirst s.settle n
  | none => pushFirst s n
where
  pushFirst (s : Spell) (n : Nat) : Spell :=
    if isHighSurrogate n then ⟨s.done, some n⟩
    else if isLowSurrogate n then ⟨Rune.replacement :: s.done, none⟩
    else ⟨Char.ofNat n :: s.done, none⟩

end Spell

/-! ## Reading -/

inductive Mode where
  | between
  | number (done : List Char)
  | word (done : List Char)
  | string (spell : Spell)
  | escape (spell : Spell)
  /-- Inside an escape by number, with `left` digits to come. -/
  | unit (spell : Spell) (left value : Nat)
  deriving DecidableEq, Inhabited

def wordToken? (word : List Char) : Option Token :=
  if word = ['n', 'u', 'l', 'l'] then some .null
  else if word = ['t', 'r', 'u', 'e'] then some (.bool true)
  else if word = ['f', 'a', 'l', 's', 'e'] then some (.bool false)
  else none

def close? (mode : Mode) (done : List Token) : Option (List Token) :=
  match mode with
  | .between => some done
  | .number cs => if isNumber cs.reverse then some (.number cs.reverse :: done) else none
  | .word cs => (wordToken? cs.reverse).map (· :: done)
  | _ => none

def start? (c : Char) (done : List Token) : Option (Mode × List Token) :=
  match c with
  | ' ' | '\t' | '\n' | '\r' => some (.between, done)
  | '\x7b' => some (.between, .openBrace :: done)
  | '\x7d' => some (.between, .closeBrace :: done)
  | '[' => some (.between, .openBracket :: done)
  | ']' => some (.between, .closeBracket :: done)
  | ':' => some (.between, .colon :: done)
  | ',' => some (.between, .comma :: done)
  | '"' => some (.string {}, done)
  | c =>
    if c == '-' || c.isDigit then some (.number [c], done)
    else if c.isAlpha then some (.word [c], done)
    else none

/-- One more character; `done` holds the tokens so far, backwards. -/
def step? (mode : Mode) (c : Char) (done : List Token) : Option (Mode × List Token) :=
  match mode with
  | .between => start? c done
  | .number cs =>
    if isNumberChar c then some (.number (c :: cs), done) else (close? mode done).bind (start? c)
  | .word cs =>
    if c.isAlpha then some (.word (c :: cs), done) else (close? mode done).bind (start? c)
  | .string spell =>
    if c == '"' then some (.between, .string spell.settle.done.reverse :: done)
    else if c == '\\' then some (.escape spell, done)
    else if c.toNat < 0x20 then none
    else some (.string (spell.push c), done)
  | .escape spell =>
    if c == 'u' then some (.unit spell 4 0, done)
    else (unescape? c).map fun x => (.string (spell.push x), done)
  | .unit spell left value =>
    (hexDigit? c).map fun d =>
      let value := value * 16 + d
      if left ≤ 1 then (.string (spell.pushUnit value), done)
      else (.unit spell (left - 1) value, done)

def tokensLoop : List Char → Mode → (done : List Token) → Option (List Token)
  | [], mode, done => (close? mode done).map List.reverse
  | c :: rest, mode, done =>
    match step? mode c done with
    | some (mode, done) => tokensLoop rest mode done
    | none => none

def tokens? (cs : List Char) : Option (List Token) := tokensLoop cs .between []

end ClassForge.Json
