import Mathlib.Data.List.Nodup
import Funchook.Lib.Frame

/-!
# Straight-line code of x86-64

The instructions that save registers in a frame, move them and restore them, as an assembler names
them. The vector registers are modelled by their low 128 bits. Code is a list of instructions; a
call and a jump through a register stand between such lists.
-/

namespace X64

open ByteMemory Frame

/-- `rax`, `rcx`, `rdx`, `rbx`, `rsp`, `rbp`, `rsi`, `rdi`, `r8` to `r15`. -/
abbrev Reg := BitVec 4

structure State where
  reg : Reg → BitVec 64
  /-- `xmm0` to `xmm15` -/
  xmm : BitVec 4 → BitVec 128
  mem : Mem 64
  ip : BitVec 64

/-- A register that a `mov` or a `movdqu` transfers. -/
inductive Operand where
  | reg (r : Reg)
  | xmm (r : BitVec 4)
  deriving DecidableEq, Repr

def Operand.size : Operand → ℕ
  | .reg _ => 8
  | .xmm _ => 16

namespace State

def writeReg (s : State) (r : Reg) (value : BitVec 64) : State :=
  { s with reg := fun q => if q = r then value else s.reg q }

def writeXmm (s : State) (r : BitVec 4) (value : BitVec 128) : State :=
  { s with xmm := fun q => if q = r then value else s.xmm q }

/-- The stack pointer. -/
def sp (s : State) : BitVec 64 := s.reg 4

def push (s : State) (value : BitVec 64) : State :=
  { s.writeReg 4 (s.sp - 8) with mem := write s.mem (s.sp - 8) (leBytes 8 value) }

theorem writeReg_reg_self (s : State) (r : Reg) (value : BitVec 64) :
    (s.writeReg r value).reg r = value := if_pos rfl

theorem writeReg_reg_of_ne (s : State) {r q : Reg} (value : BitVec 64) (h : q ≠ r) :
    (s.writeReg r value).reg q = s.reg q := if_neg h

def value (s : State) : (o : Operand) → BitVec (8 * o.size)
  | .reg r => s.reg r
  | .xmm r => s.xmm r

def set (s : State) : (o : Operand) → BitVec (8 * o.size) → State
  | .reg r, v => s.writeReg r v
  | .xmm r, v => s.writeXmm r v

end State

/-- The registers of the machine. -/
def registers : Registers 64 State Operand where
  size := Operand.size
  value := State.value
  set := State.set
  mem := State.mem
  setMem := fun s m => { s with mem := m }
  value_set_self := by
    intro s o v
    cases o with
    | reg r => exact if_pos rfl
    | xmm r => exact if_pos rfl
  value_set_of_ne := by
    intro s o v q hne
    cases o with
    | reg r =>
      cases q with
      | reg q => exact if_neg fun heq => hne (congrArg Operand.reg heq)
      | xmm q => rfl
    | xmm r =>
      cases q with
      | reg q => rfl
      | xmm q => exact if_neg fun heq => hne (congrArg Operand.xmm heq)
  mem_set := by
    intro s o v
    cases o <;> rfl
  value_setMem := by
    intro s m o
    cases o <;> rfl
  mem_setMem := fun _ _ => rfl

/-! ## Instructions -/

inductive Instr where
  | endbr64
  | push (src : Reg)
  | mov (src dst : Reg)
  | sub (imm : BitVec 64) (dst : Reg)
  | and (imm : BitVec 64) (dst : Reg)
  /-- `mov` or `movdqu %src,disp(%base)` -/
  | store (src : Operand) (disp : BitVec 64) (base : Reg)
  /-- `mov` or `movdqu disp(%base),%dst` -/
  | load (disp : BitVec 64) (base : Reg) (dst : Operand)
  | leave
  deriving DecidableEq, Repr

def Instr.effect (s : State) : Instr → State
  | .endbr64 => s
  | .push src => s.push (s.reg src)
  | .mov src dst => s.writeReg dst (s.reg src)
  | .sub imm dst => s.writeReg dst (s.reg dst - imm)
  | .and imm dst => s.writeReg dst (s.reg dst &&& imm)
  | .store src disp base =>
    { s with mem := write s.mem (s.reg base + disp) (leBytes src.size (s.value src)) }
  | .load disp base dst => s.set dst (readWord dst.size s.mem (s.reg base + disp))
  | .leave => (s.writeReg 4 (s.reg 5 + 8)).writeReg 5 (readWord 8 s.mem (s.reg 5))

def exec (code : List Instr) (s : State) : State := code.foldl Instr.effect s

/-- `call target`, when the instruction behind it stands at `next`. -/
def State.call (s : State) (target next : BitVec 64) : State := { s.push next with ip := target }

theorem call_reg {s : State} {target next : BitVec 64} {r : Reg} (hr : r ≠ 4) :
    (s.call target next).reg r = s.reg r := if_neg hr

theorem call_sp (s : State) (target next : BitVec 64) : (s.call target next).sp = s.sp - 8 :=
  State.writeReg_reg_self s 4 (s.sp - 8)

theorem call_mem (s : State) (target next : BitVec 64) :
    (s.call target next).mem = write s.mem (s.sp - 8) (leBytes 8 next) := rfl

/-- `jmp *%r` -/
def State.jumpReg (s : State) (r : Reg) : State := { s with ip := s.reg r }

theorem jumpReg_mem (s : State) (r : Reg) : (s.jumpReg r).mem = s.mem := rfl

variable {s : State} {base : Reg} {ts : List (Operand × BitVec 64)}

theorem exec_append (code code' : List Instr) (s : State) :
    exec (code ++ code') s = exec code' (exec code s) :=
  List.foldl_append

/-- A sequence of stores at offsets from one register. -/
def stores (base : Reg) (ts : List (Operand × BitVec 64)) : List Instr :=
  ts.map fun t => .store t.1 t.2 base

/-- A sequence of loads from offsets from one register. -/
def loads (base : Reg) (ts : List (Operand × BitVec 64)) : List Instr :=
  ts.map fun t => .load t.2 base t.1

theorem exec_stores : exec (stores base ts) s = registers.storeAll (s.reg base) ts s := by
  induction ts generalizing s with
  | nil => rfl
  | cons t ts ih =>
    show exec (stores base ts) (registers.store (s.reg base) s t) = _
    rw [ih]
    rfl

/-- The base register must not be loaded on the way. -/
theorem exec_loads (hbase : Operand.reg base ∉ ts.map Prod.fst) :
    exec (loads base ts) s = registers.loadAll (s.reg base) ts s := by
  induction ts generalizing s with
  | nil => rfl
  | cons t ts ih =>
    rw [List.map_cons, List.mem_cons, not_or] at hbase
    have hsame : (registers.load (s.reg base) s t).reg base = s.reg base :=
      registers.value_set_of_ne s t.1 _ (.reg base) hbase.1
    show exec (loads base ts) (registers.load (s.reg base) s t) = _
    rw [ih hbase.2, hsame]
    rfl

/-! ## Transfers and the parts of the state -/

section Transfers

variable {addr : BitVec 64}

theorem storeAll_reg (r : Reg) : (registers.storeAll addr ts s).reg r = s.reg r :=
  Registers.storeAll_value (R := registers) (.reg r)

theorem storeAll_mem :
    (registers.storeAll addr ts s).mem = save addr (ts.map (registers.cell s)) s.mem :=
  Registers.storeAll_mem (R := registers)

theorem loadAll_reg_of_notMem {r : Reg} (h : Operand.reg r ∉ ts.map Prod.fst) :
    (registers.loadAll addr ts s).reg r = s.reg r :=
  Registers.loadAll_value_of_notMem (R := registers) h

theorem loadAll_mem : (registers.loadAll addr ts s).mem = s.mem :=
  Registers.loadAll_mem (R := registers)

theorem loadAll_reg (hnodup : (ts.map Prod.fst).Nodup) {r : Reg} {off : BitVec 64}
    (h : (Operand.reg r, off) ∈ ts) :
    (registers.loadAll addr ts s).reg r = readWord 8 s.mem (addr + off) :=
  Registers.loadAll_value (R := registers) hnodup h

theorem loadAll_xmm (hnodup : (ts.map Prod.fst).Nodup) {r : BitVec 4} {off : BitVec 64}
    (h : (Operand.xmm r, off) ∈ ts) :
    (registers.loadAll addr ts s).xmm r = readWord 16 s.mem (addr + off) :=
  Registers.loadAll_value (R := registers) hnodup h

end Transfers

end X64
