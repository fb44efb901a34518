import ClassForge.Libraries.Toml.Quoted

/-!
# Reading TOML

A reader takes what it wants off the front of a text, or says what is wrong. A
document is read one expression at a time up to its end or to the first place
that is no TOML.
-/

namespace ClassForge.Toml

open Ascii

abbrev Reader := Text → Except ReadFault (Value × Text)

def orMalformed {α : Type} : Option α → Except ReadFault α
  | some a => .ok a
  | none => .error .malformed

def skipBlanks (t : Text) : Text := t.dropWhile isBlank

def expect? (b : UInt8) : Text → Option Text
  | a :: rest => if a = b then some rest else none
  | [] => none

def newline? : Text → Option Text
  | a :: rest =>
    if a = lineFeed then some rest
    else if a = carriageReturn then expect? lineFeed rest
    else none
  | [] => none

def comment? (t : Text) : Option Text :=
  let line : Text := t.takeWhile (· != lineFeed)
  let rest : Text := t.dropWhile (· != lineFeed)
  let body : Text :=
    match line.reverse with
    | a :: before => if a = carriageReturn && !rest.isEmpty then before.reverse else line
    | [] => line
  if body.isUtf8 && body.all fun b => !isControl b && b != carriageReturn then some rest else none

/-- What is left behind white space, comments and line ends, of which there
are at most `limit`. -/
def skipLines : (limit : Nat) → Text → Option Text
  | 0, t => some t
  | limit + 1, t =>
    let t := skipBlanks t
    let behind := if t.head? = some hash then comment? t else some t
    match behind with
    | none => none
    | some [] => some []
    | some (b :: rest) =>
      if b = lineFeed || b = carriageReturn then
        match newline? (b :: rest) with
        | some rest => skipLines limit rest
        | none => none
      else some (b :: rest)

/-! ## Keys -/

def isBareKey (b : UInt8) : Bool := isLetter b || isDigit b || b = minus || b = underscore

def simpleKey : Text → Except ReadFault (Text × Text)
  | [] => .error .malformed
  | b :: rest =>
    if b = apostrophe then orMalformed (literal? rest)
    else if b = quote then orMalformed (basic? rest)
    else if isBareKey b then .ok ((b :: rest).takeWhile isBareKey, (b :: rest).dropWhile isBareKey)
    else .error (.keyStart b)

/-- The further parts of a key, at most `limit` of them, each behind a dot;
`done` holds the parts so far, backwards. -/
def keyLoop : (limit : Nat) → Text → (done : List Text) → Except ReadFault (List Text × Text)
  | 0, _, _ => .error .malformed
  | limit + 1, t, done =>
    let t := skipBlanks t
    match expect? dot t with
    | none => .ok (done.reverse, t)
    | some rest =>
      match simpleKey (skipBlanks rest) with
      | .ok (part, rest) => keyLoop limit rest (part :: done)
      | .error f => .error f

def key (t : Text) : Except ReadFault (List Text × Text) := do
  let (part, rest) ← simpleKey t
  keyLoop (rest.length + 1) rest [part]

/-! ## Numbers and times -/

/-- Where a time ends that starts with the text: the number of its bytes.
Between a date and a time of day one space may stand, which brings the two
bytes behind it. -/
def timeLength : Text → (spaced : Bool) → (n : Nat) → Nat
  | [], _, n => n
  | b :: rest, spaced, n =>
    if isDigit b || b = minus || b = plus || b = dot || b = colon || b = ofChar 'T' ||
        b = ofChar 't' || b = ofChar 'Z' || b = ofChar 'z' then
      timeLength rest spaced (n + 1)
    else if b = space && !spaced then
      match rest with
      | d :: _ :: rest => if isDigit d then timeLength rest true (n + 3) else n
      | [d] => if isDigit d then n + 2 else n
      | [] => n
    else n

def startsTime (t : Text) : Bool :=
  let digits := (t.takeWhile isDigit).length
  (digits = 2 && t[2]? = some colon) || (digits = 4 && t[4]? = some minus)

def startsWith (word : String) (t : Text) : Bool := (Text.ofString word).isPrefixOf t

/-- Where a number ends: its bytes so far, backwards, whether it has a fraction
or an exponent, and the rest. -/
def numeralLoop : Text → (done : Text) → (fraction : Bool) → Option (Value × Text)
  | [], done, fraction => numeral done fraction []
  | b :: rest, done, fraction =>
    if isDigit b || b = plus || b = minus || b = underscore then
      numeralLoop rest (b :: done) fraction
    else if b = dot || b = ofChar 'e' || b = ofChar 'E' then numeralLoop rest (b :: done) true
    else if b = ofChar 'i' || b = ofChar 'n' then
      if startsWith "inf" (b :: rest) || startsWith "nan" (b :: rest) then
        some (.float (done.reverse ++ (b :: rest).take 3), rest.drop 2)
      else none
    else numeral done fraction (b :: rest)
where
  numeral (done : Text) (fraction : Bool) (rest : Text) : Option (Value × Text) :=
    if done.isEmpty then none
    else some (if fraction then .float done.reverse else .integer done.reverse, rest)

def isBaseDigit (mark b : UInt8) : Bool :=
  b = underscore ||
    if mark = ofChar 'x' then (hexDigit? b).isSome
    else if mark = ofChar 'o' then 48 ≤ b && b ≤ 55
    else b = 48 || b = 49

/-- A number. A zero in front is followed by the mark of a base, or by a
fraction or an exponent, or it stands alone. -/
def numeral? (t : Text) : Option (Value × Text) :=
  match t with
  | a :: mark :: c :: rest =>
    if a = zero && mark != dot && mark != ofChar 'e' && mark != ofChar 'E' then
      if mark = ofChar 'x' || mark = ofChar 'o' || mark = ofChar 'b' then
        let digits := (c :: rest).takeWhile (isBaseDigit mark)
        some (.integer (a :: mark :: digits), (c :: rest).dropWhile (isBaseDigit mark))
      else some (.integer [a], mark :: c :: rest)
    else numeralLoop t [] false
  | t => numeralLoop t [] false

def numeric? (t : Text) : Option (Value × Text) :=
  if 3 ≤ t.length && startsTime t then
    let n := timeLength t false 0
    some (.time (t.take n), t.drop n)
  else numeral? t

/-! ## Values -/

def assignment (read : Reader) (t : Text) : Except ReadFault ((List Text × Value) × Text) := do
  let (name, rest) ← key t
  let rest ← orMalformed (expect? equals rest)
  let (v, rest) ← read (skipBlanks rest)
  return ((name, v), rest)

/-- The items of an array, at most `limit` of them, up to the closing bracket;
`done` holds the items so far, backwards. -/
def itemsLoop (read : Reader) : (limit : Nat) → Text → (done : List Value) →
    Except ReadFault (List Value × Text)
  | 0, _, _ => .error .malformed
  | limit + 1, t, done =>
    match skipLines t.length t with
    | none => .error .malformed
    | some t =>
      if t.head? = some closeBracket then .ok (done.reverse, t.drop 1)
      else
        let item :=
          if done.isEmpty then some t
          else (expect? comma t).bind fun t => skipLines t.length t
        match item with
        | none => .error .malformed
        | some t =>
          if t.head? = some closeBracket then .ok (done.reverse, t.drop 1)
          else
            match read t with
            | .ok (v, rest) => itemsLoop read limit rest (v :: done)
            | .error f => .error f

def entriesLoop (read : Reader) : (limit : Nat) → Text → (done : List (List Text × Value)) →
    Except ReadFault (List (List Text × Value) × Text)
  | 0, _, _ => .error .malformed
  | limit + 1, t, done =>
    let t := skipBlanks t
    if t.head? = some closeBrace then .ok (done.reverse, t.drop 1)
    else
      let entry := if done.isEmpty then some t else (expect? comma t).map skipBlanks
      match (orMalformed entry).bind (assignment read) with
      | .ok (e, rest) => entriesLoop read limit rest (e :: done)
      | .error f => .error f

def string? (q : UInt8) (rest : Text) : Option (Value × Text) :=
  let contents :=
    match triple? q (q :: rest) with
    | some body => if q = quote then multiline? body else multilineLiteral? body
    | none => if q = quote then basic? rest else literal? rest
  contents.map fun (s, rest) => (.string s, rest)

def valueStep (inner : Reader) : Reader
  | [] => .error .malformed
  | b :: rest =>
    if b = quote || b = apostrophe then orMalformed (string? b rest)
    else if b = ofChar 't' then
      if startsWith "true" (b :: rest) then .ok (.bool true, rest.drop 3) else .error .malformed
    else if b = ofChar 'f' then
      if startsWith "false" (b :: rest) then .ok (.bool false, rest.drop 4) else .error .malformed
    else if b = openBracket then
      (itemsLoop inner (rest.length + 1) rest []).map fun (items, rest) => (.array items, rest)
    else if b = openBrace then
      (entriesLoop inner (rest.length + 1) rest []).map fun (entries, rest) =>
        (.table entries, rest)
    else if b = ofChar 'i' then
      if startsWith "inf" (b :: rest) then .ok (.float "inf", rest.drop 2) else .error .malformed
    else if b = ofChar 'n' then
      if startsWith "nan" (b :: rest) then .ok (.float "nan", rest.drop 2) else .error .malformed
    else orMalformed (numeric? (b :: rest))

def value : (depth : Nat) → Reader
  | 0 => fun _ => .error .malformed
  | depth + 1 => valueStep (value depth)

/-! ## Documents -/

def header (t : Text) : Except ReadFault (Expression × Text) := do
  match expect? openBracket t with
  | some t =>
    let (name, rest) ← key (skipBlanks t)
    let rest ← orMalformed ((expect? closeBracket rest).bind (expect? closeBracket))
    return (.element name, rest)
  | none =>
    let (name, rest) ← key (skipBlanks t)
    let rest ← orMalformed (expect? closeBracket rest)
    return (.table name, rest)

/-- The expression that a text starts with. -/
def expression : Text → Except ReadFault (Expression × Text)
  | [] => .error .malformed
  | b :: rest =>
    if b = openBracket then header rest
    else
      (assignment (value (rest.length + 2)) (b :: rest)).map fun ((name, v), rest) =>
        (.assign name v, rest)

def lineRest (t : Text) : Except ReadFault Text :=
  let t := skipBlanks t
  if t.head? = some hash then orMalformed (comment? t) else .ok t

/-- The expression of a line, if it has one, and the rest from the end of the
line on. -/
def line (t : Text) : Except ReadFault (Option Expression × Text) := do
  let t := skipBlanks t
  match t with
  | [] => return (none, [])
  | b :: _ =>
    if b = hash || b = lineFeed || b = carriageReturn then return (none, ← lineRest t)
    else
      let (e, rest) ← expression t
      return (some e, ← lineRest rest)

def documentLoop : (limit : Nat) → Text → (done : List Expression) → Document
  | 0, _, done => ⟨done.reverse, some .malformed⟩
  | limit + 1, t, done =>
    match line t with
    | .error f => ⟨done.reverse, some f⟩
    | .ok (e, rest) =>
      let done := e.toList ++ done
      if rest.isEmpty then ⟨done.reverse, none⟩
      else
        match newline? rest with
        | some rest => documentLoop limit rest done
        | none => ⟨done.reverse, some .malformed⟩

def parse (t : Text) : Document := documentLoop (t.length + 1) t []

end ClassForge.Toml
