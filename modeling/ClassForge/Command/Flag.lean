import ClassForge.Failure
import ClassForge.Text.Quoted

/-!
# Flags of a command

Flags may stand anywhere among the operands up to a lone `--`. A flag of text
takes the next argument unless a value is joined to it; a switch takes a joined
value only. Letters can be put together behind one dash.
-/

namespace ClassForge.Command

inductive FlagKind where
  /-- On or off; on when it stands alone. -/
  | switch
  | text
  deriving DecidableEq, Inhabited

structure Flag where
  name : Text
  letter : Option UInt8 := none
  kind : FlagKind
  deriving DecidableEq, Inhabited

namespace Flag

def label (f : Flag) : Text :=
  match f.letter with
  | some c => "-" ++ [c] ++ ", --" ++ f.name
  | none => "--" ++ f.name

def alone? (f : Flag) : Option Text :=
  match f.kind with
  | .switch => some "true"
  | .text => none

end Flag

inductive FlagFault where
  | badSyntax (argument : Text)
  | unknownName (name : Text)
  | unknownLetter (letter : UInt8) (letters : Text)
  | missingValue (argument : Text)
  | missingLetterValue (letter : UInt8) (letters : Text)
  | badSwitch (value : Text) (flag : Flag)
  deriving DecidableEq

def quoteLetter (letter : UInt8) : Text :=
  let c := Char.ofUInt8 letter
  if c = '\'' then "'\\''"
  else if c = '"' then "'\"'"
  else "'" ++ Text.quoteRune (.char c) ++ "'"

def FlagFault.message : FlagFault → Text
  | badSyntax argument => "bad flag syntax: " ++ argument
  | unknownName name => "unknown flag: --" ++ name
  | unknownLetter letter letters =>
    "unknown shorthand flag: " ++ quoteLetter letter ++ " in -" ++ letters
  | missingValue argument => "flag needs an argument: " ++ argument
  | missingLetterValue letter letters =>
    "flag needs an argument: " ++ quoteLetter letter ++ " in -" ++ letters
  | badSwitch value flag =>
    "invalid argument " ++ value.quote ++ " for " ++ flag.label.quote ++
      " flag: strconv.ParseBool: parsing " ++ value.quote ++ ": invalid syntax"

def switch? (value : Text) : Option Bool :=
  if ["1", "t", "T", "TRUE", "true", "True"].any (Text.ofString · = value) then some true
  else if ["0", "f", "F", "FALSE", "false", "False"].any (Text.ofString · = value) then some false
  else none

/-- The flags that were given, with their values, the last first. -/
structure Given where
  flags : List (Text × Text) := []
  deriving Inhabited

namespace Given

def add (g : Given) (f : Flag) (value : Text) : Except FlagFault Given :=
  if f.kind = .switch && (switch? value).isNone then .error (.badSwitch value f)
  else .ok { flags := (f.name, value) :: g.flags }

def text? (g : Given) (name : Text) : Option Text := g.flags.lookup name

def switch? (g : Given) (name : Text) : Option Bool := (g.text? name).bind Command.switch?

end Given

/-- What an argument leads to: the flags given, and whether the argument behind
it was used up. -/
abbrev Step := Except FlagFault (Given × Bool)

def longFlag (flags : List Flag) (body : Text) (next : Option Text) (g : Given) : Step :=
  if body.head? = some 45 || body.head? = some 61 then .error (.badSyntax ("--" ++ body))
  else
    let name := body.takeWhile (· != 61)
    match flags.find? (·.name = name) with
    | none => .error (.unknownName name)
    | some f =>
      if name.length < body.length then
        (g.add f (body.drop (name.length + 1))).map fun g => (g, false)
      else
        match f.alone?, next with
        | some value, _ => (g.add f value).map fun g => (g, false)
        | none, some value => (g.add f value).map fun g => (g, true)
        | none, none => .error (.missingValue ("--" ++ body))

/-- Flags by letter, all behind one dash. -/
def shortFlags (flags : List Flag) : (letters : Text) → (next : Option Text) → Given → Step
  | [], _, g => .ok (g, false)
  | letter :: rest, next, g =>
    if (Text.ofString "test.").isPrefixOf (letter :: rest) then .ok (g, false)
    else
      match flags.find? (·.letter = some letter) with
      | none => .error (.unknownLetter letter (letter :: rest))
      | some f =>
        if rest.head? = some 61 && 1 < rest.length then
          (g.add f (rest.drop 1)).map fun g => (g, false)
        else
          match f.alone? with
          | some value =>
            match g.add f value with
            | .ok g => shortFlags flags rest next g
            | .error e => .error e
          | none =>
            if !rest.isEmpty then (g.add f rest).map fun g => (g, false)
            else
              match next with
              | some value => (g.add f value).map fun g => (g, true)
              | none => .error (.missingLetterValue letter (letter :: rest))

def flagStep (flags : List Flag) (argument : Text) (next : Option Text) (g : Given) : Step :=
  match argument with
  | _ :: 45 :: body => longFlag flags body next g
  | _ :: letters => shortFlags flags letters next g
  | [] => .ok (g, false)

/-- The loop of `parseFlags`; `operands` is backwards. -/
def parseLoop (flags : List Flag) :
    List Text → Given → (operands : List Text) → Except FlagFault (Given × List Text)
  | [], g, operands => .ok (g, operands.reverse)
  | argument :: rest, g, operands =>
    if argument.head? != some 45 || argument.length = 1 then
      parseLoop flags rest g (argument :: operands)
    else if argument = Text.ofString "--" then .ok (g, operands.reverse ++ rest)
    else
      match flagStep flags argument rest.head? g with
      | .error e => .error e
      | .ok (g, false) => parseLoop flags rest g operands
      | .ok (g, true) =>
        match rest with
        | [] => .ok (g, operands.reverse)
        | _ :: rest => parseLoop flags rest g operands

def parseFlags (flags : List Flag) (arguments : List Text) : Except FlagFault (Given × List Text) :=
  parseLoop flags arguments {} []

end ClassForge.Command
