import ClassForge.Listing
import ClassForge.Proofs.ConstructorRun
import ClassForge.Proofs.TomlLines
import ClassForge.Proofs.Verdict

/-!
# Listings of code

Disassembling the bytes of instructions gives the instructions back, a line each: what
the encoder writes is as wide as what the decoder takes, so each instruction is met
where it starts. Of other bytes the lines are still in order, as every line moves on by
a byte at least.
-/

namespace ClassForge

/-! ## Lines of plain bytes -/

namespace Text

theorem splitAt_flatMap_line {ls : List Text} (h : ∀ l ∈ ls, 10 ∉ l) :
    splitAt 10 (ls.flatMap (· ++ ofString "\n")) = ls ++ [[]] := by
  have hjoin : ls.flatMap (· ++ ofString "\n") = [10].intercalate (ls ++ [[]]) := by
    clear h
    induction ls with
    | nil => rfl
    | cons l ls ih =>
      rw [List.flatMap_cons, ih, List.cons_append, List.intercalate_cons_of_ne_nil (by simp)]
      rfl
  rw [splitAt_eq_splitOn, hjoin, List.splitOn_intercalate]
  · intro l hl
    rcases List.mem_append.mp hl with hl | hl
    · exact h l hl
    · rw [List.mem_singleton.mp hl]
      exact List.not_mem_nil
  · simp

/-- Neither a line feed nor the sign that opens a remark. -/
def isPlain (b : UInt8) : Bool := b != 10 && b != 60

theorem all_isPlain_ofNat (n : Nat) : (ofNat n).all isPlain = true := by
  rw [List.all_eq_true]
  intro b hb
  have hdigit := Toml.isDigit_ofNat b hb
  rw [Ascii.isDigit, Bool.and_eq_true, decide_eq_true_eq, decide_eq_true_eq] at hdigit
  have hne : b ≠ 10 ∧ b ≠ 60 := by
    constructor
    · rintro rfl
      exact absurd hdigit.1 (by decide)
    · rintro rfl
      exact absurd hdigit.2 (by decide)
  simp [isPlain, hne]

theorem all_isPlain_ofInt (n : Int) : (ofInt n).all isPlain = true := by
  cases n with
  | ofNat n => exact all_isPlain_ofNat n
  | negSucc n =>
    rw [ofInt, List.all_cons, all_isPlain_ofNat]
    rfl

theorem all_isPlain_padLeft {t : Text} (h : t.all isPlain = true) (columns : Nat) :
    (padLeft columns t).all isPlain = true := by
  rw [padLeft, List.all_append, h, Bool.and_true, List.all_replicate]
  split <;> rfl

theorem all_isPlain_padRight {t : Text} (h : t.all isPlain = true) (columns : Nat) :
    (padRight columns t).all isPlain = true := by
  rw [padRight, List.all_append, h, Bool.true_and, List.all_replicate]
  split <;> rfl

theorem not_mem_of_all_isPlain {t : Text} (h : t.all isPlain = true) : 10 ∉ t ∧ 60 ∉ t := by
  rw [List.all_eq_true] at h
  exact ⟨fun hmem => absurd (h _ hmem) (by decide), fun hmem => absurd (h _ hmem) (by decide)⟩

end Text

/-! ## What the lines say -/

namespace Instruction

def operand? : Instruction → Option Text
  | simple _ => none
  | bipush value => some (Text.ofInt value.toInt)
  | member _ index => some ("#" ++ Text.ofNat index.toNat)

def columns (mnemonic operand : Text) : Text := Text.padRight 14 mnemonic ++ " " ++ operand

def text (i : Instruction) : Text :=
  match i.operand? with
  | none => i.mnemonic
  | some operand => columns i.mnemonic operand

def placed (pc : Nat) : List Instruction → List (Nat × Instruction)
  | [] => []
  | i :: is => (pc, i) :: placed (pc + i.bytes.length) is

theorem all_isPlain_mnemonic (i : Instruction) : i.mnemonic.all Text.isPlain = true := by
  cases i with
  | simple op => cases op <;> rfl
  | bipush value => rfl
  | member op index => cases op <;> rfl

theorem all_isPlain_text (i : Instruction) : i.text.all Text.isPlain = true := by
  have hcolumns {operand : Text} (h : operand.all Text.isPlain = true) :
      (columns i.mnemonic operand).all Text.isPlain = true := by
    rw [columns, List.all_append, List.all_append, h, Text.all_isPlain_padRight i.all_isPlain_mnemonic]
    rfl
  cases i with
  | simple op => exact all_isPlain_mnemonic (simple op)
  | bipush value => exact hcolumns (Text.all_isPlain_ofInt _)
  | member op index =>
    refine hcolumns ?_
    rw [List.all_append, Text.all_isPlain_ofNat]
    rfl

end Instruction

namespace CodeItem

def text : CodeItem → Text
  | instruction i => i.text
  | unknown opcode => "<unknown 0x" ++ Text.hexUpper 2 opcode.toNat ++ ">"
  | truncated mnemonic => mnemonic ++ " <truncated>"

def lineOf (pc : Nat) (text : Text) : Text := "  " ++ Text.padLeft 4 (Text.ofNat pc) ++ ": " ++ text

theorem line_eq (pc : Nat) (item : CodeItem) : item.line pc = lineOf pc item.text ++ "\n" := by
  cases item with
  | instruction i => cases i <;> rfl
  | unknown opcode => rfl
  | truncated mnemonic => rfl

theorem all_isPlain_lineOf (pc : Nat) {text : Text} (h : text.all Text.isPlain = true) :
    (lineOf pc text).all Text.isPlain = true := by
  rw [lineOf, List.all_append, List.all_append, List.all_append, h,
    Text.all_isPlain_padLeft (Text.all_isPlain_ofNat pc)]
  rfl

theorem not_mem_lineOf (pc : Nat) {text : Text} (h : 10 ∉ text) : 10 ∉ lineOf pc text := by
  have hfront := (Text.not_mem_of_all_isPlain (@all_isPlain_lineOf pc [] rfl)).1
  rw [lineOf, List.append_nil] at hfront
  rw [lineOf, List.mem_append, not_or]
  exact ⟨hfront, h⟩

theorem not_mem_text_unknown (opcode : UInt8) : 10 ∉ (unknown opcode).text := by
  have hall : ∀ n < 256, 10 ∉ Text.hexUpper 2 n := by decide +kernel
  have hhex := hall opcode.toNat opcode.toNat_lt
  simp only [text, List.mem_append, hhex, or_false, not_or]
  decide

/-! ## What is decoded -/

theorem decodeLoop_bytes (i : Instruction) (rest : Text) (pc : Nat) (done : List (Nat × CodeItem)) :
    decodeLoop pc (i.bytes ++ rest) done =
      decodeLoop (pc + i.bytes.length) rest ((pc, instruction i) :: done) := by
  cases i with
  | simple op => cases op <;> rfl
  | bipush value =>
    show decodeLoop _ rest ((pc, instruction (.bipush value.toUInt8.toInt8)) :: done) = _
    rw [Int8.toInt8_toUInt8]
    rfl
  | member op index =>
    have hword := Text.toU2_bytes index
    cases op <;>
    · show decodeLoop _ rest ((pc, instruction (.member _ (Text.toU2 _ _))) :: done) = _
      rw [hword]
      rfl

theorem decodeLoop_flatMap_bytes (is : List Instruction) (pc : Nat) (done : List (Nat × CodeItem)) :
    decodeLoop pc (is.flatMap Instruction.bytes) done =
      done.reverse ++ (Instruction.placed pc is).map fun x => (x.1, instruction x.2) := by
  induction is generalizing pc done with
  | nil => simp [decodeLoop, Instruction.placed]
  | cons i is ih =>
    rw [List.flatMap_cons, decodeLoop_bytes, ih]
    simp [Instruction.placed]

/-- Items for the bytes from `pc` up to `stop`: in order, and each can stand on a line. -/
structure Ordered (pc stop : Nat) (items : List (Nat × CodeItem)) : Prop where
  length_le : pc + items.length ≤ stop
  sorted : items.Pairwise fun x y => x.1 < y.1
  within : ∀ x ∈ items, pc ≤ x.1 ∧ x.1 < stop
  oneLine : ∀ x ∈ items, 10 ∉ x.2.text

theorem Ordered.nil {pc stop : Nat} (h : pc ≤ stop) : Ordered pc stop [] :=
  ⟨h, .nil, fun _ => nofun, fun _ => nofun⟩

theorem Ordered.cons {pc next stop : Nat} {item : CodeItem} {items : List (Nat × CodeItem)}
    (h : Ordered next stop items) (hnext : pc < next) (hitem : 10 ∉ item.text) :
    Ordered pc stop ((pc, item) :: items) where
  length_le := by
    have := h.length_le
    rw [List.length_cons]
    omega
  sorted := List.pairwise_cons.mpr ⟨fun x hx => Nat.lt_of_lt_of_le hnext (h.within x hx).1, h.sorted⟩
  within := by
    have := h.length_le
    refine List.forall_mem_cons.mpr ⟨⟨Nat.le_refl pc, by omega⟩, fun x hx => ?_⟩
    have := h.within x hx
    omega
  oneLine := List.forall_mem_cons.mpr ⟨hitem, h.oneLine⟩

/-- The result of a loop that had `done` at `pc`: to it, items for the bytes up to `stop`
are added. -/
def Adds (pc stop : Nat) (done result : List (Nat × CodeItem)) : Prop :=
  ∃ items, result = done.reverse ++ items ∧ Ordered pc stop items

section
variable {pc next stop : Nat} {item : CodeItem} {done result : List (Nat × CodeItem)}

theorem Adds.step (h : Adds next stop ((pc, item) :: done) result) (hnext : pc < next)
    (hitem : 10 ∉ item.text) : Adds pc stop done result := by
  obtain ⟨items, hresult, hitems⟩ := h
  refine ⟨(pc, item) :: items, ?_, hitems.cons hnext hitem⟩
  rw [hresult, List.reverse_cons, List.append_assoc, List.singleton_append]

theorem adds_last (hstop : pc < stop) (hitem : 10 ∉ item.text) :
    Adds pc stop done ((pc, item) :: done).reverse :=
  .step ⟨[], (List.append_nil _).symm, .nil hstop⟩ (Nat.lt_succ_self pc) hitem

end

theorem not_mem_text_instruction (i : Instruction) : 10 ∉ (instruction i).text :=
  (Text.not_mem_of_all_isPlain i.all_isPlain_text).1

theorem not_mem_text_truncated (i : Instruction) : 10 ∉ (truncated i.mnemonic).text := by
  have hmnemonic := (Text.not_mem_of_all_isPlain i.all_isPlain_mnemonic).1
  simp only [text, List.mem_append, hmnemonic, false_or]
  decide

/-- Whatever the bytes are, a line moves on by one of them at least. -/
theorem adds_decodeLoop (pc : Nat) (code : Text) (done : List (Nat × CodeItem)) :
    Adds pc (pc + code.length) done (decodeLoop pc code done) := by
  fun_induction decodeLoop pc code done with
  | case1 pc done => exact ⟨[], (List.append_nil _).symm, .nil (Nat.le_refl pc)⟩
  | case2 pc b rest done op _ ih =>
    rw [List.length_cons, Nat.add_comm rest.length, ← Nat.add_assoc]
    exact ih.step (by omega) (not_mem_text_instruction _)
  | case3 pc done => exact adds_last (by simp) (not_mem_text_truncated (.bipush 0))
  | case4 pc done v rest _ ih =>
    have hlength : pc + (Instruction.bipushOpcode :: v :: rest).length = pc + 2 + rest.length := by
      simp only [List.length_cons]
      omega
    rw [hlength]
    exact ih.step (by omega) (not_mem_text_instruction _)
  | case5 pc b rest done _ _ _ ih =>
    rw [List.length_cons, Nat.add_comm rest.length, ← Nat.add_assoc]
    exact ih.step (by omega) (not_mem_text_unknown b)
  | case6 pc b done _ _ op _ hi lo rest ih =>
    have hlength : pc + (b :: hi :: lo :: rest).length = pc + 3 + rest.length := by
      simp only [List.length_cons]
      omega
    rw [hlength]
    exact ih.step (by omega) (not_mem_text_instruction _)
  | case7 pc b rest done _ _ op => exact adds_last (by simp) (not_mem_text_truncated (.member op 0))

end CodeItem

/-! ## Whole listings -/

theorem disassemble_eq (code : Text) :
    disassemble code =
      ((CodeItem.decode code).map fun x => CodeItem.lineOf x.1 x.2.text).flatMap
        (· ++ Text.ofString "\n") := by
  rw [disassemble, List.flatMap_map]
  exact List.flatMap_congr fun x _ => x.2.line_eq x.1

theorem decode_flatMap_bytes (is : List Instruction) :
    CodeItem.decode (is.flatMap Instruction.bytes) =
      (Instruction.placed 0 is).map fun x => (x.1, .instruction x.2) :=
  CodeItem.decodeLoop_flatMap_bytes is 0 []

theorem splitAt_disassemble (code : Text) :
    (disassemble code).splitAt 10 =
      (CodeItem.decode code).map (fun x => CodeItem.lineOf x.1 x.2.text) ++ [[]] := by
  obtain ⟨items, hitems, hordered⟩ := CodeItem.adds_decodeLoop 0 code []
  have hdecode : CodeItem.decode code = items := hitems
  rw [disassemble_eq, Text.splitAt_flatMap_line]
  intro l hl
  obtain ⟨x, hx, rfl⟩ := List.mem_map.mp hl
  exact CodeItem.not_mem_lineOf x.1 (hordered.oneLine x (hdecode ▸ hx))

theorem not_mem_disassemble (is : List Instruction) : 60 ∉ disassemble (is.flatMap Instruction.bytes) := by
  rw [disassemble_eq, decode_flatMap_bytes]
  intro h
  obtain ⟨l, hl, h⟩ := List.mem_flatMap.mp h
  simp only [List.map_map, List.mem_map] at hl
  obtain ⟨x, -, rfl⟩ := hl
  have hplain := CodeItem.all_isPlain_lineOf x.1 x.2.all_isPlain_text
  rcases List.mem_append.mp h with h | h
  · exact (Text.not_mem_of_all_isPlain hplain).2 h
  · exact absurd h (by decide)

namespace Constructor

def pushText (v : Int32) : Text :=
  if 0 ≤ v ∧ v ≤ 5 then "iconst_" ++ Text.ofInt v.toInt
  else Instruction.columns "bipush" (Text.ofInt v.toInt)

def assignmentTexts (x : Final × UInt16) : List Text :=
  ["aload_0", pushText x.1.value, Instruction.columns "putfield" ("#" ++ Text.ofNat x.2.toNat)]

def texts (finals : List (Final × UInt16)) : List Text :=
  "aload_0" :: Instruction.columns "invokespecial" "#1" ::
    (finals.flatMap assignmentTexts ++ [Text.ofString "return"])

theorem text_push {v : Int32} {i : Instruction} (h : Instruction.push? v = some i) :
    i.text = pushText v := by
  by_cases hsmall : 0 ≤ v ∧ v ≤ 5
  · have hv := Instruction.small_iff.mp hsmall
    simp only [List.mem_cons, List.not_mem_nil, or_false] at hv
    rcases hv with rfl | rfl | rfl | rfl | rfl | rfl
    all_goals
      cases h
      rfl
  · rcases Instruction.push?_cases v with ⟨hs, -⟩ | ⟨-, hpush⟩
    · exact absurd hs hsmall
    · rw [hpush] at h
      split at h
      · rename_i hbyte
        cases h
        have hvalue : v.toInt8.toInt = v.toInt := by
          rw [← Int8.toInt_toInt32, toInt32_toInt8 hbyte.1 hbyte.2]
        rw [pushText, if_neg hsmall, ← hvalue]
        rfl
      · cases h

theorem texts_assignments {finals : List (Final × UInt16)} {is : List Instruction}
    (h : assignments? finals = some is) :
    is.map Instruction.text = finals.flatMap assignmentTexts := by
  induction finals generalizing is with
  | nil =>
    cases h
    rfl
  | cons x finals ih =>
    obtain ⟨f, ref⟩ := x
    unfold assignments? at h
    split at h
    · rename_i push more hpush hmore
      cases h
      rw [List.map_cons, List.map_cons, List.map_cons, ih hmore, text_push hpush]
      rfl
    · cases h

theorem texts_instructions {k : Constructor} {is : List Instruction} (h : k.instructions? = some is)
    (hsuper : k.superInit = 1) : is.map Instruction.text = texts k.finals := by
  obtain ⟨assigned, hassigned, rfl⟩ := Option.map_eq_some_iff.mp h
  rw [List.map_cons, List.map_cons, List.map_append, texts_assignments hassigned, hsuper]
  rfl

theorem length_texts (finals : List (Final × UInt16)) : (texts finals).length = 3 + 3 * finals.length := by
  have hassignments : (finals.flatMap assignmentTexts).length = 3 * finals.length := by
    rw [List.length_flatMap]
    simp [assignmentTexts, Nat.mul_comm]
  rw [texts, List.length_cons, List.length_cons, List.length_append, hassignments, List.length_singleton]
  omega

end Constructor

/-- Disassembling gives instructions back: each one stands on a line of its own, with its
offset, mnemonic and operand. A constructor has three lines for each final and three
more. The lines of any bytes are in order of their offsets, and no more than the bytes. -/
theorem disassemble_lines :
    (∀ is : List Instruction,
      (disassemble (is.flatMap Instruction.bytes)).splitAt 10 =
          (Instruction.placed 0 is).map (fun x => CodeItem.lineOf x.1 x.2.text) ++ [[]] ∧
        ¬ Text.ofString "<unknown" <:+: disassemble (is.flatMap Instruction.bytes) ∧
        ¬ Text.ofString "<truncated>" <:+: disassemble (is.flatMap Instruction.bytes)) ∧
    (∀ (options : Options) (c : ClassDecl) (s : Skeleton) (lineNumbers : Bool) (w : ByteWriter)
      (a : CodeAttribute), (Skeleton.build options c).1 = .ok s →
      ((Constructor.ofSkeleton s).emit lineNumbers w).1 = .ok a →
      ∃ (fs : List Symbol) (is : List Instruction), c.finals = fs.map some ∧
        s.finals.toList.map Prod.fst = fs.map Symbol.final ∧ a.code = is.flatMap Instruction.bytes ∧
        (disassemble a.code).splitAt 10 =
          (Instruction.placed 0 is).map (fun x => CodeItem.lineOf x.1 x.2.text) ++ [[]] ∧
        is.map Instruction.text = Constructor.texts s.finals.toList ∧
        is.length = 3 + 3 * c.finals.length) ∧
    ∀ code : Text, ∃ items : List (Nat × Text),
      (disassemble code).splitAt 10 = items.map (fun x => CodeItem.lineOf x.1 x.2) ++ [[]] ∧
        items.Pairwise (fun x y => x.1 < y.1) ∧ (∀ x ∈ items, x.1 < code.length) ∧
        items.length ≤ code.length := by
  have hlines (is : List Instruction) : (disassemble (is.flatMap Instruction.bytes)).splitAt 10 =
      (Instruction.placed 0 is).map (fun x => CodeItem.lineOf x.1 x.2.text) ++ [[]] := by
    rw [splitAt_disassemble, decode_flatMap_bytes, List.map_map]
    rfl
  refine ⟨fun is => ⟨hlines is, ?_, ?_⟩, ?_, ?_⟩
  · exact fun h => not_mem_disassemble is (h.subset (by decide))
  · exact fun h => not_mem_disassemble is (h.subset (by decide))
  · intro options c s lineNumbers w a hs ha
    obtain ⟨fs, gs, ms, hp, hl, -⟩ := Skeleton.laid_of_build hs
    obtain ⟨is, his, rfl⟩ := Constructor.emit_ok ha
    have hfinals : s.finals.toList.map Prod.fst = fs.map Symbol.final := by
      refine map_eq_of_forall₂ (List.forall₂_map_right_iff.mpr ?_)
      exact (hl.finals_of_map hp.outline_finals).imp fun _ _ h => h.1
    have htexts : is.map Instruction.text = Constructor.texts s.finals.toList :=
      Constructor.texts_instructions his hl.superInit
    refine ⟨fs, is, hp.finals, hfinals, rfl, hlines is, htexts, ?_⟩
    have hcount := congrArg List.length hfinals
    rw [List.length_map, List.length_map] at hcount
    rw [← List.length_map Instruction.text, htexts, Constructor.length_texts, hcount, hp.finals,
      List.length_map]
  · intro code
    obtain ⟨items, hitems, hordered⟩ := CodeItem.adds_decodeLoop 0 code []
    have hdecode : CodeItem.decode code = items := hitems
    have hlength := hordered.length_le
    rw [Nat.zero_add] at hordered
    refine ⟨items.map fun x => (x.1, x.2.text), ?_, ?_, ?_, ?_⟩
    · rw [splitAt_disassemble, hdecode, List.map_map]
      rfl
    · exact List.pairwise_map.mpr hordered.sorted
    · exact List.forall_mem_map.mpr fun x hx => (hordered.within x hx).2
    · rw [List.length_map]
      omega

def sampleListing : Text :=
  List.flatMap (fun line : String => Text.ofString line ++ Text.ofString "\n")
    ["     0: aload_0", "     1: invokespecial  #1", "     4: aload_0", "     5: iconst_5",
      "     6: putfield       #9", "     9: aload_0", "    10: bipush         -128",
      "    12: putfield       #13", "    15: return"]

theorem disassemble_lines_sample :
    ∃ s a, (Skeleton.build {} ClassDecl.sample).1 = .ok s ∧
      ((Constructor.ofSkeleton s).emit true .forCode).1 = .ok a ∧ disassemble a.code = sampleListing ∧
      ∃ is : List Instruction, a.code = is.flatMap Instruction.bytes ∧ is.length = 9 ∧
        is.map Instruction.text = Constructor.texts s.finals.toList := by
  have hs : ∃ s a, (Skeleton.build {} ClassDecl.sample).1 = .ok s ∧
      ((Constructor.ofSkeleton s).emit true .forCode).1 = .ok a ∧ disassemble a.code = sampleListing :=
    ⟨_, _, rfl, rfl, by decide +kernel⟩
  obtain ⟨s, a, hs, ha, hlisting⟩ := hs
  obtain ⟨-, is, -, -, hcode, -, htexts, hlength⟩ := disassemble_lines.2.1 {} _ s true _ a hs ha
  exact ⟨s, a, hs, ha, hlisting, is, hcode, hlength, htexts⟩

end ClassForge
