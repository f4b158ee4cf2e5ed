import Mathlib.Data.List.Nodup
import Funchook.Lib.A64
import Funchook.Lib.Frame

/-!
# Straight-line code of A64 that saves and restores registers

Loads and stores of pairs at offsets from the stack pointer, with its update before or behind them,
and moves between registers. They act on the state of the instruction set; the program counter is
not followed through such code, and a call is given the address behind it. The general registers
are `x0` to `x30` here.
-/

namespace A64

open ByteMemory Frame

/-- A register of a pair. -/
inductive Operand where
  | x (r : Reg)
  | q (r : Reg)
  deriving DecidableEq, Repr

def Operand.size : Operand → ℕ
  | .x _ => 8
  | .q _ => 16

def State.value (s : State) : (o : Operand) → BitVec (8 * o.size)
  | .x r => s.x r
  | .q r => s.v r

def State.set (s : State) : (o : Operand) → BitVec (8 * o.size) → State
  | .x r, value => { s with x := fun q => if q = r then value else s.x q }
  | .q r, value => s.writeV r value

/-- The registers of the machine. -/
def registers : Registers 64 State Operand where
  size := Operand.size
  value := State.value
  set := State.set
  mem := State.mem
  setMem := fun s m => { s with mem := m }
  value_set_self := by
    intro s o v
    cases o with
    | x r => exact if_pos rfl
    | q r => exact if_pos rfl
  value_set_of_ne := by
    intro s o v p hne
    cases o with
    | x r =>
      cases p with
      | x p => exact if_neg fun heq => hne (congrArg Operand.x heq)
      | q p => rfl
    | q r =>
      cases p with
      | x p => rfl
      | q p => exact if_neg fun heq => hne (congrArg Operand.q heq)
  mem_set := by
    intro s o v
    cases o <;> rfl
  value_setMem := by
    intro s m o
    cases o <;> rfl
  mem_setMem := fun _ _ => rfl

/-! ## Instructions -/

/-- Two registers of one kind and the offset of the first. -/
structure Pair where
  first : Operand
  second : Operand
  offset : BitVec 64
  deriving DecidableEq, Repr

/-- The second register is behind the first one. -/
def Pair.transfers (p : Pair) : List (Operand × BitVec 64) :=
  [(p.first, p.offset), (p.second, p.offset + BitVec.ofNat 64 p.first.size)]

inductive FrameInstr where
  /-- `stp first, second, [sp, offset]!` -/
  | stpPre (p : Pair)
  /-- `stp first, second, [sp, offset]` -/
  | stp (p : Pair)
  /-- `ldp first, second, [sp, offset]` -/
  | ldp (p : Pair)
  /-- `ldp first, second, [sp], imm` -/
  | ldpPost (first second : Operand) (imm : BitVec 64)
  | mov (rd rm : Reg)
  /-- `mov rd, sp` -/
  | movSp (rd : Reg)
  deriving DecidableEq, Repr

def FrameInstr.effect (s : State) : FrameInstr → State
  | .stpPre p => { registers.storeAll s.sp p.transfers s with sp := s.sp + p.offset }
  | .stp p => registers.storeAll s.sp p.transfers s
  | .ldp p => registers.loadAll s.sp p.transfers s
  | .ldpPost first second imm =>
    { registers.loadAll s.sp (Pair.transfers ⟨first, second, 0⟩) s with sp := s.sp + imm }
  | .mov rd rm => s.set (.x rd) (s.x rm)
  | .movSp rd => s.set (.x rd) s.sp

def exec (code : List FrameInstr) (s : State) : State := code.foldl FrameInstr.effect s

/-- `bl target`, when the instruction behind it stands at `next`. -/
def State.branchLink (s : State) (target next : BitVec 64) : State :=
  { s with x := fun q => if q = 30 then next else s.x q, pc := target }

/-- `br r` -/
def State.branchReg (s : State) (r : Reg) : State := s.withPc (s.x r)

variable {s : State} {ps : List Pair}

theorem exec_append (code code' : List FrameInstr) (s : State) :
    exec (code ++ code') s = exec code' (exec code s) :=
  List.foldl_append

theorem branchLink_x {target next : BitVec 64} {r : Reg} (hr : r ≠ 30) :
    (s.branchLink target next).x r = s.x r := if_neg hr

theorem branchLink_v (target next : BitVec 64) : (s.branchLink target next).v = s.v := rfl

theorem branchLink_sp (target next : BitVec 64) : (s.branchLink target next).sp = s.sp := rfl

theorem branchLink_mem (target next : BitVec 64) : (s.branchLink target next).mem = s.mem := rfl

theorem branchReg_x (r : Reg) : (s.branchReg r).x = s.x := rfl

theorem branchReg_v (r : Reg) : (s.branchReg r).v = s.v := rfl

theorem branchReg_sp (r : Reg) : (s.branchReg r).sp = s.sp := rfl

theorem branchReg_pc (r : Reg) : (s.branchReg r).pc = s.x r := rfl

theorem branchReg_mem (r : Reg) : (s.branchReg r).mem = s.mem := rfl

/-- The state behind the push of two general registers. -/
theorem effect_stpPre (a b : Reg) (off : BitVec 64) :
    FrameInstr.effect s (.stpPre ⟨.x a, .x b, off⟩) = { s with
      sp := s.sp + off
      mem := write (write s.mem (s.sp + off) (leBytes 8 (s.x a))) (s.sp + (off + 8))
        (leBytes 8 (s.x b)) } := rfl

/-- The state behind the pop of two general registers. -/
theorem effect_ldpPost (a b : Reg) (imm : BitVec 64) :
    FrameInstr.effect s (.ldpPost (.x a) (.x b) imm) = { s with
      sp := s.sp + imm
      x := fun r => if r = b then readWord 8 s.mem (s.sp + 8) else
        if r = a then readWord 8 s.mem s.sp else s.x r } := by
  have hzero : s.sp + 0 = s.sp := BitVec.add_zero s.sp
  have hnext : (0 : BitVec 64) + BitVec.ofNat 64 8 = 8 := by decide
  show State.mk (fun r => if r = b then readWord 8 s.mem (s.sp + (0 + BitVec.ofNat 64 8)) else
    if r = a then readWord 8 s.mem (s.sp + 0) else s.x r) _ _ _ _ _ _ _ _ _ = _
  rw [hzero, hnext]
  rfl

/-! ## Transfers and the parts of the state -/

theorem storeAll_sp {base : BitVec 64} {ts : List (Operand × BitVec 64)} :
    (registers.storeAll base ts s).sp = s.sp :=
  Registers.storeAll_keeps (f := State.sp) fun _ _ => rfl

theorem loadAll_sp {base : BitVec 64} {ts : List (Operand × BitVec 64)} :
    (registers.loadAll base ts s).sp = s.sp := by
  apply Registers.loadAll_keeps (f := State.sp)
  intro s o v
  cases o <;> rfl

section Transfers

variable {addr : BitVec 64} {ts : List (Operand × BitVec 64)} {r : Reg} {off : BitVec 64}

theorem storeAll_x (r : Reg) : (registers.storeAll addr ts s).x r = s.x r :=
  Registers.storeAll_value (R := registers) (.x r)

theorem storeAll_v (r : Reg) : (registers.storeAll addr ts s).v r = s.v r :=
  Registers.storeAll_value (R := registers) (.q r)

theorem storeAll_mem :
    (registers.storeAll addr ts s).mem = save addr (ts.map (registers.cell s)) s.mem :=
  Registers.storeAll_mem (R := registers)

theorem loadAll_mem : (registers.loadAll addr ts s).mem = s.mem :=
  Registers.loadAll_mem (R := registers)

theorem loadAll_x_of_notMem (h : Operand.x r ∉ ts.map Prod.fst) :
    (registers.loadAll addr ts s).x r = s.x r :=
  Registers.loadAll_value_of_notMem (R := registers) h

theorem loadAll_v_of_notMem (h : Operand.q r ∉ ts.map Prod.fst) :
    (registers.loadAll addr ts s).v r = s.v r :=
  Registers.loadAll_value_of_notMem (R := registers) h

theorem loadAll_x (hnodup : (ts.map Prod.fst).Nodup) (h : (Operand.x r, off) ∈ ts) :
    (registers.loadAll addr ts s).x r = readWord 8 s.mem (addr + off) :=
  Registers.loadAll_value (R := registers) hnodup h

theorem loadAll_v (hnodup : (ts.map Prod.fst).Nodup) (h : (Operand.q r, off) ∈ ts) :
    (registers.loadAll addr ts s).v r = readWord 16 s.mem (addr + off) :=
  Registers.loadAll_value (R := registers) hnodup h

end Transfers

/-! ## Sequences of transfers -/

theorem exec_stps : exec (ps.map .stp) s =
    registers.storeAll s.sp (ps.flatMap Pair.transfers) s := by
  induction ps generalizing s with
  | nil => rfl
  | cons p ps ih =>
    have hsp : (registers.storeAll s.sp p.transfers s).sp = s.sp := storeAll_sp
    show exec (ps.map .stp) (registers.storeAll s.sp p.transfers s) = _
    rw [ih, hsp, List.flatMap_cons, Registers.storeAll, Registers.storeAll, Registers.storeAll,
      List.foldl_append]

theorem exec_ldps : exec (ps.map .ldp) s =
    registers.loadAll s.sp (ps.flatMap Pair.transfers) s := by
  induction ps generalizing s with
  | nil => rfl
  | cons p ps ih =>
    have hsp : (registers.loadAll s.sp p.transfers s).sp = s.sp := loadAll_sp
    show exec (ps.map .ldp) (registers.loadAll s.sp p.transfers s) = _
    rw [ih, hsp, List.flatMap_cons, Registers.loadAll, Registers.loadAll, Registers.loadAll,
      List.foldl_append]

end A64
