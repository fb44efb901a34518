import ClassForge.Proofs.FileWrites
import ClassForge.Proofs.TomlReading
import ClassForge.Settings.File

/-!
# Settings read back

A settings file has a line for each setting. Read in order by a reader of TOML, the lines
change the usual settings into those that were written, unless a text has a character that
is quoted with an escape that TOML does not have: then the file is refused as a whole.
-/

namespace ClassForge.Settings

open Toml (Scalar)

variable {s t : Settings}

/-! ## The lines of a settings file -/

def shown (s : Settings) : Slot → Scalar
  | .debug => .flag s.debug
  | .outputDir => .ofText s.outputDir
  | .sourceExtension => .ofText s.sourceExtension
  | .classExtension => .ofText s.classExtension
  | .major => .number s.major.toNat
  | .minor => .number s.minor.toNat
  | .superClass => .ofText s.superClass
  | .lineNumbers => .flag s.lineNumbers
  | .logLevel => .ofText s.logLevel
  | .logFormat => .ofText s.logFormat

def setting (s : Settings) (slot : Slot) : Line := .setting slot (s.shown slot)

def layout (s : Settings) : Layout where
  root := [
    .remark "输出常量池与构造函数字节码", s.setting .debug, .blank,
    .remark "class 文件输出目录", s.setting .outputDir, .blank,
    .remark "SourceFile 属性中的源文件扩展名", s.setting .sourceExtension, s.setting .classExtension, .blank,
    .remark "class 文件版本（52 = Java 8）", s.setting .major, s.setting .minor, .blank,
    .remark "父类内部名", s.setting .superClass, .blank,
    .remark "为构造函数写出 LineNumberTable", s.setting .lineNumbers, .blank]
  log := [
    .remark "debug | info | warn | error", s.setting .logLevel,
    .remark "console | json", s.setting .logFormat]

def strings (s : Settings) : List Text :=
  [s.outputDir, s.sourceExtension, s.classExtension, s.superClass, s.logLevel, s.logFormat]

theorem text_layout (h : ∀ x ∈ s.strings, x.isUtf8 = true) : s.layout.text = s.text := by
  simp only [strings, List.forall_mem_cons, List.not_mem_nil, false_imp_iff, implies_true,
    and_true] at h
  obtain ⟨h₁, h₂, h₃, h₄, h₅, h₆⟩ := h
  have hflag (b : Bool) : (Scalar.flag b).text = Text.ofBool b := rfl
  have hnumber (n : Nat) : (Scalar.number n).text = Text.ofNat n := rfl
  unfold Layout.text layout text line remark
  simp only [List.flatMap_cons, List.flatMap_nil, setting, Slot.key, shown, Line.text, hflag, hnumber,
    Toml.text_ofText h₁, Toml.text_ofText h₂, Toml.text_ofText h₃, Toml.text_ofText h₄,
    Toml.text_ofText h₅, Toml.text_ofText h₆, List.append_assoc, List.append_nil]

theorem fits_setting (s : Settings) (slot : Slot) : (s.setting slot).fits = true := by
  cases slot <;> first | rfl | exact Toml.fits_ofText _

theorem wellFormed_layout (s : Settings) : s.layout.WellFormed where
  fits := by
    have hremark : ∀ words ∈ [Text.ofString "输出常量池与构造函数字节码", "class 文件输出目录",
        "SourceFile 属性中的源文件扩展名", "class 文件版本（52 = Java 8）", "父类内部名",
        "为构造函数写出 LineNumberTable", "debug | info | warn | error", "console | json"],
        (Line.remark words).fits = true := by decide +kernel
    have hblank : Line.blank.fits = true := rfl
    simp only [List.forall_mem_cons, List.not_mem_nil, false_imp_iff, implies_true, and_true] at hremark
    simp only [Layout.lines, layout, List.cons_append, List.nil_append, List.forall_mem_cons,
      fits_setting, hremark, hblank, List.not_mem_nil, false_imp_iff, implies_true, and_true]
  root := by
    have hslots : s.layout.root.filterMap Line.slot? = [.debug, .outputDir, .sourceExtension,
      .classExtension, .major, .minor, .superClass, .lineNumbers] := rfl
    rw [hslots]
    decide
  log := by
    have hslots : s.layout.log.filterMap Line.slot? = [.logLevel, .logFormat] := rfl
    rw [hslots]
    decide
  once := by
    have hslots : s.layout.lines.filterMap Line.slot? = [.debug, .outputDir, .sourceExtension,
      .classExtension, .major, .minor, .superClass, .lineNumbers, .logLevel, .logFormat] := rfl
    rw [hslots]
    decide

theorem spelled_layout (h : ∀ x ∈ s.strings, x.isUtf8 = true) :
    s.layout.lines.all Line.spelled = s.strings.all fun x => x.all Toml.spells := by
  simp only [strings, List.forall_mem_cons, List.not_mem_nil, false_imp_iff, implies_true,
    and_true] at h
  obtain ⟨h₁, h₂, h₃, h₄, h₅, h₆⟩ := h
  have hflag (b : Bool) : (Scalar.flag b).spelled = true := rfl
  have hnumber (n : Nat) : (Scalar.number n).spelled = true := rfl
  simp only [Layout.lines, layout, strings, setting, shown, Line.spelled, hflag, hnumber,
    Toml.spelled_ofText h₁, Toml.spelled_ofText h₂, Toml.spelled_ofText h₃, Toml.spelled_ofText h₄,
    Toml.spelled_ofText h₅, Toml.spelled_ofText h₆, List.cons_append, List.nil_append, List.all_cons,
    List.all_nil, Bool.true_and, Bool.and_true]

/-! ## What the lines make of settings -/

def copy (s t : Settings) : Slot → Settings
  | .debug => { t with debug := s.debug }
  | .outputDir => { t with outputDir := s.outputDir }
  | .sourceExtension => { t with sourceExtension := s.sourceExtension }
  | .classExtension => { t with classExtension := s.classExtension }
  | .major => { t with major := s.major }
  | .minor => { t with minor := s.minor }
  | .superClass => { t with superClass := s.superClass }
  | .lineNumbers => { t with lineNumbers := s.lineNumbers }
  | .logLevel => { t with logLevel := s.logLevel }
  | .logFormat => { t with logFormat := s.logFormat }

theorem copy_all (s : Settings) :
    [Slot.debug, .outputDir, .sourceExtension, .classExtension, .major, .minor, .superClass, .lineNumbers,
      .logLevel, .logFormat].foldl s.copy {} = s := by
  cases s
  rfl

def Spelled (s : Settings) : Prop := ∀ x ∈ s.strings, ∀ b ∈ x, Toml.spells b = true

theorem assign?_shown (hu : ∀ x ∈ s.strings, x.isUtf8 = true) (hs : s.Spelled) (t : Settings)
    (slot : Slot) : t.assign? slot (s.shown slot) = some (s.copy t slot) := by
  have hstring {x : Text} (hx : x ∈ s.strings) : Toml.contents? (x.chars.flatMap Toml.quoted) = some x := by
    rw [Toml.contents?_quoted (hu x hx), if_pos (List.all_eq_true.mpr (hs x hx))]
  have hnumber (n : UInt16) : n.toNat < 65536 := n.toNat_lt
  simp only [strings, List.mem_cons, List.not_mem_nil, or_false] at hstring
  cases slot <;> simp [assign?, shown, Scalar.ofText, hstring, hnumber, copy]

theorem foldlM_layout (hu : ∀ x ∈ s.strings, x.isUtf8 = true) (hs : s.Spelled) :
    s.layout.lines.foldlM Line.change? {} = some s := by
  have hsetting (t : Settings) (slot : Slot) :
      Line.change? t (s.setting slot) = some (s.copy t slot) := assign?_shown hu hs t slot
  have hblank (t : Settings) : Line.change? t .blank = some t := rfl
  have hremark (t : Settings) (words : Text) : Line.change? t (.remark words) = some t := rfl
  simp only [Layout.lines, layout, List.cons_append, List.nil_append, List.foldlM_cons, List.foldlM_nil,
    hsetting, hblank, hremark, Option.bind_eq_bind, Option.bind_some]
  exact congrArg some s.copy_all

/-! ## Loading -/

theorem read_of_save {path : Text} {t t' : FileTree}
    (h : (save s path : StateM FileTree _) t = (.ok (), t')) : t'.read path = .ok s.text := by
  have hwrite : (Storage.write path s.text : StateM FileTree _) t =
      FileTree.change (fun t => t.write path s.text) t := rfl
  rw [save, FileTree.run_bind, hwrite] at h
  rcases FileTree.change_cases fun t => t.write path s.text with ⟨v, hv, hrun⟩ | ⟨f, hrun⟩
  · rw [hrun] at h
    cases h
    exact FileTree.read_write hv
  · rw [hrun] at h
    cases h

section
variable (toml : TomlReader) (level? : Text → Option Severity)

theorem loadFile_of_save {path : Text} {t t' : FileTree}
    (h : (save s path : StateM FileTree _) t = (.ok (), t')) :
    (loadFile toml level? path : StateM FileTree _) t' = (load toml level? path s.text, t') := by
  have hread : (Storage.read path : StateM FileTree _) t' = (.ok s.text, t') := by
    show (t'.read path, t') = _
    rw [read_of_save h]
  rw [loadFile, FileTree.run_bind, hread]
  rfl

theorem load_text_of_spelled (h : toml.Rules) (path : Text) (hc : s.check level? = none)
    (hu : ∀ x ∈ s.strings, x.isUtf8 = true) (hs : s.Spelled) :
    load toml level? path s.text = .ok s := by
  have hread := h.reads s.layout {} s s.wellFormed_layout (foldlM_layout hu hs)
  rw [text_layout hu] at hread
  simp only [load, hread, hc]

theorem load_text_of_not_spelled (h : toml.Rules) (path : Text)
    (hu : ∀ x ∈ s.strings, x.isUtf8 = true) (hs : ¬s.Spelled) :
    ∃ f, load toml level? path s.text =
      .error (.context ("failed to parse config file " ++ path) f) := by
  have hline : ∃ line ∈ s.layout.lines, line.spelled = false := by
    have hall : ¬(s.layout.lines.all Line.spelled) = true := by
      rw [spelled_layout hu]
      simpa [Spelled] using hs
    simpa using hall
  obtain ⟨why, hwhy⟩ := h.refuses s.layout {} s.wellFormed_layout hline
  rw [text_layout hu] at hwhy
  exact ⟨.plain why, by simp only [load, hwhy]⟩

/-- Saved settings that pass their check come back if TOML can spell their texts as they
are quoted; else the file cannot be read. -/
theorem loadFile_save (h : toml.Rules) {path : Text} {t t' : FileTree}
    (hsave : (save s path : StateM FileTree _) t = (.ok (), t')) (hc : s.check level? = none)
    (hu : ∀ x ∈ s.strings, x.isUtf8 = true) :
    ((∀ x ∈ s.strings, ∀ b ∈ x, Toml.spells b = true) →
      (loadFile toml level? path : StateM FileTree _) t' = (.ok s, t')) ∧
    ((∃ x ∈ s.strings, ∃ b ∈ x, Toml.spells b = false) →
      ∃ f, (loadFile toml level? path : StateM FileTree _) t' =
        (.error (.context ("failed to parse config file " ++ path) f), t')) := by
  rw [loadFile_of_save toml level? hsave]
  constructor
  · intro hs
    rw [load_text_of_spelled toml level? h path hc hu hs]
  · rintro ⟨x, hx, b, hb, hspells⟩
    have hs : ¬s.Spelled := by
      intro hs
      rw [hs x hx b hb] at hspells
      cases hspells
    obtain ⟨f, hf⟩ := load_text_of_not_spelled toml level? h path hu hs
    exact ⟨f, by rw [hf]⟩

end

def escaped : Settings where
  debug := true
  outputDir := "a \"b\" \\ é \t\n\u0085" ++ String.utf8EncodeChar (Char.ofNat 0xE0001)
  sourceExtension := ".\x0c\r\x08"
  major := 61
  minor := 3
  superClass := "p/Q"
  lineNumbers := true
  logLevel := "WARN"
  logFormat := "json"

theorem loadFile_save_escaped :
    let lib := Libraries.usual
    lib.toml.Rules ∧ escaped.check lib.level? = none ∧ ∃ t',
      (save escaped "sstc.toml" : StateM FileTree _) {} = (.ok (), t') ∧
        (loadFile lib.toml lib.level? "sstc.toml" : StateM FileTree _) t' = (.ok escaped, t') := by
  intro lib
  have hc : escaped.check lib.level? = none := by decide +kernel
  have hsave : ∃ t', (save escaped "sstc.toml" : StateM FileTree _) {} = (.ok (), t') := ⟨_, rfl⟩
  obtain ⟨t', ht'⟩ := hsave
  exact ⟨Toml.rules_reader, hc, t', ht',
    (loadFile_save lib.toml lib.level? Toml.rules_reader ht' hc (by decide +kernel)).1 (by decide +kernel)⟩

def ringing : Settings := { outputDir := [7] }

/-- The bell is quoted as `\a`, which TOML does not know. -/
theorem loadFile_save_ringing :
    let lib := Libraries.usual
    lib.toml.Rules ∧ ringing.check lib.level? = none ∧ (∀ x ∈ ringing.strings, x.isUtf8 = true) ∧
      ∃ t' f, (save ringing "sstc.toml" : StateM FileTree _) {} = (.ok (), t') ∧
        (loadFile lib.toml lib.level? "sstc.toml" : StateM FileTree _) t' = (.error f, t') := by
  intro lib
  have hc : ringing.check lib.level? = none := by decide +kernel
  have hu : ∀ x ∈ ringing.strings, x.isUtf8 = true := by decide +kernel
  have hs : ¬ringing.Spelled := fun hs => absurd (hs [7] (by decide) 7 (by decide)) (by decide)
  have hsave : ∃ t', (save ringing "sstc.toml" : StateM FileTree _) {} = (.ok (), t') := ⟨_, rfl⟩
  obtain ⟨t', ht'⟩ := hsave
  obtain ⟨f, hf⟩ := load_text_of_not_spelled lib.toml lib.level? Toml.rules_reader "sstc.toml" hu hs
  have hload := loadFile_of_save lib.toml lib.level? ht'
  rw [hf] at hload
  exact ⟨Toml.rules_reader, hc, hu, t', _, ht', hload⟩

end ClassForge.Settings
