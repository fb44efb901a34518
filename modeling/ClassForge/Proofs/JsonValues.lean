import ClassForge.Proofs.JsonTokens
import ClassForge.Json.Parser

/-!
# JSON values read back

The tokens of a value take the parser from wherever a value is due to where the
value leads, so a value that does not nest too deep is read back from its text.
-/

namespace ClassForge.Json

/-! ## Depth -/

mutual

def nesting : Json → Nat
  | .array items => itemsNesting items + 1
  | .object members => membersNesting members + 1
  | _ => 0

def itemsNesting : List Json → Nat
  | [] => 0
  | v :: rest => max (nesting v) (itemsNesting rest)

def membersNesting : List (List Char × Json) → Nat
  | [] => 0
  | (_, v) :: rest => max (nesting v) (membersNesting rest)

end

/-! ## The parser over the tokens of a value -/

namespace ParseState

def Due (s : ParseState) : Prop := s.expect = .value ∨ s.expect = .firstItem

theorem Due.step?_eq {s : ParseState} (h : s.Due) {t : Token} (ht : t ≠ .closeBracket) :
    s.step? t = s.value? t := by
  obtain ⟨expect, frames, depth⟩ := s
  rcases h with h | h
  · cases h
    rfl
  · cases h
    cases t with
    | closeBracket => exact absurd rfl ht
    | _ => rfl

end ParseState

theorem parseLoop_cons {s s' : ParseState} {t : Token} (h : s.step? t = some s') (rest : List Token) :
    parseLoop (t :: rest) s = parseLoop rest s' := by
  rw [parseLoop, h]

def Parses (v : Json) : Prop := ∀ (s : ParseState) (rest : List Token), s.Due →
  s.depth + v.nesting ≤ maxDepth → parseLoop (tokens v ++ rest) s = parseLoop rest (s.accept v)

section
variable (frames : List Frame) (depth : Nat) (rest : List Token)

theorem parseLoop_itemTokens {items : List Json} (done : List Json) (hv : ∀ v ∈ items, Parses v)
    (hd : depth + itemsNesting items ≤ maxDepth) :
    parseLoop (itemTokens items ++ rest) ⟨.afterItem, .array done :: frames, depth⟩ =
      parseLoop rest ⟨.afterItem, .array (items.reverse ++ done) :: frames, depth⟩ := by
  induction items generalizing done with
  | nil => rfl
  | cons v items ih =>
    rw [itemsNesting] at hd
    have hone := hv v (List.mem_cons_self ..) ⟨.value, .array done :: frames, depth⟩
      (itemTokens items ++ rest) (.inl rfl) (by simp only; omega)
    have hrest := ih (v :: done) (fun v hmem => hv v (List.mem_cons_of_mem _ hmem)) (by omega)
    rw [itemTokens, List.cons_append, parseLoop_cons rfl, List.append_assoc]
    rw [hone, List.reverse_cons, List.append_assoc]
    exact hrest

theorem parseLoop_memberTokens {members : List (List Char × Json)} (done : List (List Char × Json))
    (hv : ∀ m ∈ members, Parses m.2) (hd : depth + membersNesting members ≤ maxDepth) :
    parseLoop (memberTokens members ++ rest) ⟨.afterMember done, frames, depth⟩ =
      parseLoop rest ⟨.afterMember (members.reverse ++ done), frames, depth⟩ := by
  induction members generalizing done with
  | nil => rfl
  | cons m members ih =>
    obtain ⟨key, v⟩ := m
    rw [membersNesting] at hd
    have hone := hv (key, v) (List.mem_cons_self ..) ⟨.value, .object done key :: frames, depth⟩
      (memberTokens members ++ rest) (.inl rfl) (by simp only; omega)
    have hrest := ih ((key, v) :: done) (fun m hmem => hv m (List.mem_cons_of_mem _ hmem))
      (by omega)
    rw [memberTokens, List.cons_append, parseLoop_cons rfl, List.cons_append, parseLoop_cons rfl,
      List.cons_append, parseLoop_cons rfl, List.append_assoc]
    rw [hone, List.reverse_cons, List.append_assoc]
    exact hrest

end

theorem parses_array {items : List Json} (hv : ∀ v ∈ items, Parses v) : Parses (.array items) := by
  intro s rest hs hd
  rw [nesting] at hd
  have hopen : s.step? .openBracket = some ⟨.firstItem, .array [] :: s.frames, s.depth + 1⟩ := by
    rw [hs.step?_eq (by decide), ParseState.value?, ParseState.enter?, if_pos (by omega)]
  cases items with
  | nil =>
    rw [tokens, List.cons_append, parseLoop_cons hopen, List.cons_append, parseLoop_cons rfl]
    rfl
  | cons v items =>
    rw [itemsNesting] at hd
    have hone := hv v (List.mem_cons_self ..) ⟨.firstItem, .array [] :: s.frames, s.depth + 1⟩
      (itemTokens items ++ ([.closeBracket] ++ rest)) (.inr rfl) (by simp only; omega)
    have hrest := parseLoop_itemTokens s.frames (s.depth + 1) ([.closeBracket] ++ rest) [v]
      (fun v hmem => hv v (List.mem_cons_of_mem _ hmem)) (by omega)
    rw [tokens, List.cons_append, parseLoop_cons hopen, List.append_assoc, List.append_assoc, hone]
    -- the first item is in the frame; the others join it, and the bracket empties the frame
    refine hrest.trans ?_
    rw [List.singleton_append, parseLoop_cons rfl]
    simp [ParseState.leave, ParseState.accept]

theorem parses_object {members : List (List Char × Json)} (hv : ∀ m ∈ members, Parses m.2) :
    Parses (.object members) := by
  intro s rest hs hd
  rw [nesting] at hd
  have hopen : s.step? .openBrace = some ⟨.firstKey, s.frames, s.depth + 1⟩ := by
    rw [hs.step?_eq (by decide), ParseState.value?, ParseState.enter?, if_pos (by omega)]
  cases members with
  | nil =>
    rw [tokens, List.cons_append, parseLoop_cons hopen, List.cons_append, parseLoop_cons rfl]
    rfl
  | cons m members =>
    obtain ⟨key, v⟩ := m
    rw [membersNesting] at hd
    have hone := hv (key, v) (List.mem_cons_self ..)
      ⟨.value, .object [] key :: s.frames, s.depth + 1⟩
      (memberTokens members ++ ([.closeBrace] ++ rest)) (.inl rfl) (by simp only; omega)
    have hrest := parseLoop_memberTokens s.frames (s.depth + 1) ([.closeBrace] ++ rest) [(key, v)]
      (fun m hmem => hv m (List.mem_cons_of_mem _ hmem)) (by omega)
    rw [tokens, List.cons_append, parseLoop_cons hopen, List.cons_append, parseLoop_cons rfl,
      List.cons_append, parseLoop_cons rfl, List.append_assoc, List.append_assoc, hone]
    refine hrest.trans ?_
    rw [List.singleton_append, parseLoop_cons rfl]
    simp [ParseState.leave, ParseState.accept]

theorem Legible.parses {v : Json} (h : Legible v) : Parses v := by
  induction h with
  | null =>
    intro s rest hs _
    exact parseLoop_cons (hs.step?_eq (by decide)) rest
  | bool b =>
    intro s rest hs _
    exact parseLoop_cons (hs.step?_eq (by simp)) rest
  | @number literal _ =>
    intro s rest hs _
    exact parseLoop_cons (hs.step?_eq (by simp)) rest
  | string cs =>
    intro s rest hs _
    exact parseLoop_cons (hs.step?_eq (by simp)) rest
  | array _ ih => exact parses_array ih
  | object _ ih => exact parses_object ih

/-- A value is read back from its text. -/
theorem parse?_text {v : Json} (h : Legible v) (hd : v.nesting ≤ maxDepth) :
    parse? v.text = some v := by
  have hloop := h.parses {} [] (.inl rfl) (by simpa using hd)
  rw [List.append_nil] at hloop
  rw [parse?, tokens?_text h]
  exact hloop

end ClassForge.Json
