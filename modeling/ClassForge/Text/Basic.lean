/-!
# Byte strings

Names, messages, paths and file contents are byte strings. They are nearly
always UTF-8, but a class file may hold any bytes, so nothing here asks for it.
-/

namespace ClassForge

/-- A byte string, by convention UTF-8. -/
abbrev Text := List UInt8

namespace Text

def ofString (s : String) : Text := s.toUTF8.data.toList

instance : Coe String Text := ⟨ofString⟩

/-! ## Numbers -/

def ofNat (n : Nat) : Text := (Nat.toDigits 10 n).map Char.toUInt8

def ofInt : Int → Text
  | .ofNat n => ofNat n
  | .negSucc n => 45 :: ofNat (n + 1)

/-- Lower-case hexadecimal digits, zero-filled to `width`. -/
def hex (width n : Nat) : Text :=
  let digits := (Nat.toDigits 16 n).map Char.toUInt8
  List.replicate (width - digits.length) 48 ++ digits

def hexUpper (width n : Nat) : Text :=
  (hex width n).map fun b => if 97 ≤ b then b - 32 else b

def ofBool (b : Bool) : Text := if b then "true" else "false"

/-! ## Parts -/

def join (sep : Text) (parts : List Text) : Text := List.intercalate sep parts

/-- Whether `part` occurs in the text as a run of neighbouring bytes. -/
def hasPart (part : Text) : Text → Bool
  | [] => part.isEmpty
  | b :: rest => part.isPrefixOf (b :: rest) || hasPart part rest

/-- The loop of `splitAt`: `word` holds the current piece and `done` the
finished ones, both backwards. -/
def splitAtLoop (sep : UInt8) : Text → (word : Text) → (done : List Text) → List Text
  | [], word, done => (word.reverse :: done).reverse
  | b :: rest, word, done =>
    if b = sep then splitAtLoop sep rest [] (word.reverse :: done)
    else splitAtLoop sep rest (b :: word) done

/-- The pieces between the occurrences of `sep`; one more piece than `sep`s. -/
def splitAt (sep : UInt8) (t : Text) : List Text := splitAtLoop sep t [] []

theorem splitAtLoop_eq (sep : UInt8) (t word : Text) (done : List Text) :
    splitAtLoop sep t word done = done.reverse ++ t.splitOnPPrepend (· == sep) word := by
  induction t generalizing word done with
  | nil => simp [splitAtLoop]
  | cons b t ih =>
    rw [splitAtLoop]
    split
    · rename_i h
      rw [ih, List.splitOnPPrepend_cons_pos (by simpa using h)]
      simp
    · rename_i h
      rw [ih, List.splitOnPPrepend_cons_neg (by simpa using h)]

theorem splitAt_eq_splitOn (sep : UInt8) (t : Text) : splitAt sep t = t.splitOn sep :=
  splitAtLoop_eq sep t [] []

def asciiLower (t : Text) : Text :=
  t.map fun b => if 65 ≤ b && b ≤ 90 then b + 32 else b

/-! ## Big-endian words -/

def u2 (v : UInt16) : Text := [UInt8.ofNat (v.toNat / 256), UInt8.ofNat v.toNat]

def u4 (v : UInt32) : Text :=
  [UInt8.ofNat (v.toNat / 16777216), UInt8.ofNat (v.toNat / 65536),
    UInt8.ofNat (v.toNat / 256), UInt8.ofNat v.toNat]

def toU2 (hi lo : UInt8) : UInt16 := UInt16.ofNat (hi.toNat * 256 + lo.toNat)

def toU4 (a b c d : UInt8) : UInt32 :=
  UInt32.ofNat (((a.toNat * 256 + b.toNat) * 256 + c.toNat) * 256 + d.toNat)

def word? : Text → Option UInt16
  | [hi, lo] => some (toU2 hi lo)
  | _ => none

end Text

end ClassForge
