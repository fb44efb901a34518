import ClassForge.ClassFile

/-!
# A machine for constructor code

The meaning of the instructions that constructors are made of, over the bytes
of a code array. A run stops with a fault when it reads outside the array, meets
another opcode, passes a limit of its frame, or finds operands or a reference of
the wrong kind; it ends well only by a return.
-/

namespace ClassForge

inductive Operand where
  | this
  | int (v : Int32)
  deriving DecidableEq

/-- What a run does to the object: through which number of the pool, and what
class, name and descriptor that number leads to. -/
inductive Effect where
  | call (index : UInt16) (member : Text × Text × Text)
  | store (index : UInt16) (member : Text × Text × Text) (value : Int32)
  deriving DecidableEq

inductive Fault where
  | outside
  | unknown (opcode : UInt8)
  | overflow
  | noLocal (n : Nat)
  | operands
  | unresolved (index : UInt16)
  deriving DecidableEq

/-! ## Instructions -/

inductive Operation where
  | const (v : Int32)
  | load (n : Nat)
  | putfield (index : UInt16)
  | invokespecial (index : UInt16)
  | ret
  deriving DecidableEq

namespace Operation

def read : Text → Except Fault (Operation × Nat)
  | [] => .error .outside
  | op :: rest =>
    if 0x02 ≤ op ∧ op ≤ 0x08 then .ok (const (Int32.ofInt (op.toNat - 3)), 1)
    else if op = 0x10 then
      match rest with
      | v :: _ => .ok (const v.toInt8.toInt32, 2)
      | [] => .error .outside
    else if op = 0x2A then .ok (load 0, 1)
    else if op = 0xB1 then .ok (ret, 1)
    else if op = 0xB5 then
      match rest with
      | hi :: lo :: _ => .ok (putfield (Text.toU2 hi lo), 3)
      | _ => .error .outside
    else if op = 0xB7 then
      match rest with
      | hi :: lo :: _ => .ok (invokespecial (Text.toU2 hi lo), 3)
      | _ => .error .outside
    else .error (.unknown op)

/-- An operation takes at least one byte, and there is one. -/
theorem pos_of_read {t : Text} {op : Operation} {width : Nat} (h : read t = .ok (op, width)) :
    0 < width ∧ t ≠ [] := by
  unfold read at h
  split at h
  · cases h
  · refine ⟨?_, List.cons_ne_nil _ _⟩
    repeat' split at h
    all_goals cases h <;> exact Nat.succ_pos _

end Operation

/-! ## Runs -/

structure Frame where
  pool : Pool
  code : Text
  maxStack : Nat
  maxLocals : Nat

namespace Frame

def ofCode (pool : Pool) (a : CodeAttribute) : Frame :=
  ⟨pool, a.code, a.maxStack.toNat, a.maxLocals.toNat⟩

def field? (f : Frame) (index : UInt16) : Option (Text × Text × Text) :=
  match f.pool.get? index with
  | some (.fieldref _ _) => (f.pool.memberRef index).toOption
  | _ => none

def method? (f : Frame) (index : UInt16) : Option (Text × Text × Text) :=
  match f.pool.get? index with
  | some (.methodref _ _) => (f.pool.memberRef index).toOption
  | _ => none

end Frame

/-- A run part way through. It starts with the object as its only local. -/
structure Machine where
  pc : Nat := 0
  /-- The top first. -/
  stack : List Operand := []
  locals : List Operand := [.this]
  effects : List Effect := []
  /-- The offsets of the bytes executed so far. -/
  ran : List Nat := []
  halted : Bool := false
  deriving DecidableEq

namespace Machine

def push (f : Frame) (v : Operand) (m : Machine) : Except Fault Machine :=
  if m.stack.length < f.maxStack then .ok { m with stack := v :: m.stack } else .error .overflow

/-- Carries out one operation. Fields are integers, and methods take no
arguments and give nothing back. -/
def perform (f : Frame) (m : Machine) : Operation → Except Fault Machine
  | .const v => m.push f (.int v)
  | .load n =>
    match m.locals[n]? with
    | some v => if n < f.maxLocals then m.push f v else .error (.noLocal n)
    | none => .error (.noLocal n)
  | .putfield i =>
    match f.field? i, m.stack with
    | some (c, n, d), .int v :: .this :: stack =>
      if d = Text.ofString "I" then
        .ok { m with stack, effects := m.effects ++ [.store i (c, n, d) v] }
      else .error (.unresolved i)
    | none, _ => .error (.unresolved i)
    | _, _ => .error .operands
  | .invokespecial i =>
    match f.method? i, m.stack with
    | some (c, n, d), .this :: stack =>
      if d = Text.ofString "()V" then
        .ok { m with stack, effects := m.effects ++ [.call i (c, n, d)] }
      else .error (.unresolved i)
    | none, _ => .error (.unresolved i)
    | _, _ => .error .operands
  | .ret => .ok { m with halted := true }

def step (f : Frame) (m : Machine) : Except Fault Machine :=
  match Operation.read (f.code.drop m.pc) with
  | .error e => .error e
  | .ok (op, width) =>
    perform f { m with pc := m.pc + width, ran := m.ran ++ List.range' m.pc width } op

theorem pc_perform {f : Frame} {m m' : Machine} {op : Operation} (h : perform f m op = .ok m') :
    m'.pc = m.pc := by
  unfold perform push at h
  repeat' split at h
  all_goals cases h <;> rfl

/-- A step moves on, and starts inside the code. -/
theorem lt_of_step {f : Frame} {m m' : Machine} (h : step f m = .ok m') :
    m.pc < f.code.length ∧ m.pc < m'.pc := by
  unfold step at h
  split at h
  · cases h
  · rename_i op width hread
    obtain ⟨hpos, hne⟩ := Operation.pos_of_read hread
    have hpc := pc_perform h
    refine ⟨?_, by rw [hpc]; exact Nat.lt_add_of_pos_right hpos⟩
    refine Nat.lt_of_not_le fun hle => hne ?_
    exact List.drop_eq_nil_of_le hle

def run (f : Frame) (m : Machine) : Except Fault Machine :=
  if m.halted then .ok m
  else
    match h : step f m with
    | .error e => .error e
    | .ok m' =>
      have := lt_of_step h
      run f m'
termination_by f.code.length - m.pc

theorem run_of_halted {f : Frame} {m : Machine} (h : m.halted = true) : run f m = .ok m := by
  rw [run, if_pos h]

theorem run_of_step {f : Frame} {m m' : Machine} (hm : m.halted = false) (h : step f m = .ok m') :
    run f m = run f m' := by
  rw [run, hm, if_neg Bool.false_ne_true]
  split
  · rename_i e he
    rw [h] at he
    cases he
  · rename_i m'' he
    rw [h] at he
    cases he
    rfl

end Machine

end ClassForge
