import ClassForge.Failure
import ClassForge.Options
import ClassForge.Text.Lower
import ClassForge.Text.Quoted

/-!
# Settings

What a settings file decides: how class files are generated, where they go and
how much is logged.
-/

namespace ClassForge

inductive Severity where
  | debug
  | info
  | warn
  | error
  | dpanic
  | panic
  | fatal
  deriving DecidableEq, Inhabited

namespace Severity

def all : List Severity := [debug, info, warn, error, dpanic, panic, fatal]

def name : Severity → Text
  | debug => "debug"
  | info => "info"
  | warn => "warn"
  | error => "error"
  | dpanic => "dpanic"
  | panic => "panic"
  | fatal => "fatal"

def atLeast (least : Severity) : List Severity := all.dropWhile (· != least)

end Severity

structure Settings where
  debug : Bool := false
  outputDir : Text := "."
  sourceExtension : Text := Options.usualSourceExtension
  classExtension : Text := Options.usualClassExtension
  major : UInt16 := Options.usualMajor
  minor : UInt16 := 0
  superClass : Text := Options.usualSuperClass
  lineNumbers : Bool := false
  logLevel : Text := "info"
  logFormat : Text := "console"
  deriving DecidableEq, Inhabited

/-- Reads a text of TOML into settings that are there already, or says why it
cannot. -/
abbrev TomlReader := Text → Settings → Except Text Settings

namespace Settings

def fileName : Text := "sstc.toml"

inductive Slot where
  | debug
  | outputDir
  | sourceExtension
  | classExtension
  | major
  | minor
  | superClass
  | lineNumbers
  | logLevel
  | logFormat
  deriving DecidableEq, Inhabited

namespace Slot

def key : Slot → Text
  | debug => "debug"
  | outputDir => "output_dir"
  | sourceExtension => "source_extension"
  | classExtension => "class_extension"
  | major => "major_version"
  | minor => "minor_version"
  | superClass => "super_class"
  | lineNumbers => "line_numbers"
  | logLevel => "level"
  | logFormat => "format"

def inLog : Slot → Bool
  | logLevel | logFormat => true
  | _ => false

end Slot

def options (s : Settings) : Options where
  superClass := s.superClass
  sourceExtension := s.sourceExtension
  major := s.major
  minor := s.minor
  lineNumbers := s.lineNumbers
  debug := s.debug

/-! ## The log -/

section
variable (level? : Text → Option Severity)

/-- The severity that the log level names; `level?` knows words in lower case.
An empty level is that of information. -/
def severity (s : Settings) : Except Failure Severity :=
  if s.logLevel = [] then .ok .info
  else
    let word := s.logLevel.lower
    match level? word with
    | some severity => .ok severity
    | none =>
      .error (.context ("log.level " ++ s.logLevel.quote)
        (.plain ("unrecognized level: " ++ word.quote)))

/-- What is logged. While debugging, everything is. -/
def logged (s : Settings) : Except Failure (List Severity) :=
  (s.severity level?).map fun least => if s.debug then Severity.all else Severity.atLeast least

/-! ## Checking -/

def isExtension (t : Text) : Bool := t.head? = some 46

def faults (s : Settings) : List Failure := List.flatten [
  if s.superClass = [] || s.superClass.contains 46 then
    [.plain ("super_class " ++ s.superClass.quote ++
      " must be an internal name such as java/lang/Object")] else [],
  if s.major < 45 then
    [.plain ("major_version " ++ Text.ofNat s.major.toNat ++ " is below 45")] else [],
  if isExtension s.sourceExtension then []
    else [.plain ("source_extension " ++ s.sourceExtension.quote ++ " must start with '.'")],
  if isExtension s.classExtension then []
    else [.plain ("class_extension " ++ s.classExtension.quote ++ " must start with '.'")],
  if s.logFormat = Text.ofString "console" || s.logFormat = Text.ofString "json" then []
    else [.plain ("log.format " ++ s.logFormat.quote ++ " must be console or json")],
  match s.severity level? with
  | .ok _ => []
  | .error f => [f]]

def check (s : Settings) : Option Failure := Failure.ofList? (s.faults level?)

end

/-! ## Writing -/

def line (key value : Text) : Text := key ++ " = " ++ value ++ "\n"

def remark (words : Text) : Text := "# " ++ words ++ "\n"

def text (s : Settings) : Text :=
  remark "输出常量池与构造函数字节码" ++ line "debug" (Text.ofBool s.debug) ++ "\n" ++
  remark "class 文件输出目录" ++ line "output_dir" s.outputDir.quote ++ "\n" ++
  remark "SourceFile 属性中的源文件扩展名" ++ line "source_extension" s.sourceExtension.quote ++
  line "class_extension" s.classExtension.quote ++ "\n" ++
  remark "class 文件版本（52 = Java 8）" ++ line "major_version" (Text.ofNat s.major.toNat) ++
  line "minor_version" (Text.ofNat s.minor.toNat) ++ "\n" ++
  remark "父类内部名" ++ line "super_class" s.superClass.quote ++ "\n" ++
  remark "为构造函数写出 LineNumberTable" ++ line "line_numbers" (Text.ofBool s.lineNumbers) ++ "\n" ++
  "[log]\n" ++
  remark "debug | info | warn | error" ++ line "level" s.logLevel.quote ++
  remark "console | json" ++ line "format" s.logFormat.quote

end Settings

end ClassForge
