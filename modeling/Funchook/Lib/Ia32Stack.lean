import Funchook.Lib.Ia32

/-!
# Straight-line code of IA-32 on the stack

The instructions that set up a frame of 32-bit code, keep registers in it and take it down, as an
assembler names them. A call and a jump through a register stand between lists of instructions.
-/

/-! ## The stack -/

namespace Ia32.State

open ByteMemory

def push (s : State 32) (value : BitVec 32) : State 32 :=
  { s.writeReg 4 (s.sp - 4) with mem := write s.mem (s.sp - 4) (leBytes 4 value) }

def pop (s : State 32) (dst : Reg) : State 32 :=
  (s.writeReg 4 (s.sp + 4)).writeReg dst (readWord 4 s.mem s.sp)

/-- `call target`, when the instruction behind it stands at `next`. -/
def call (s : State 32) (target next : BitVec 32) : State 32 := (s.push next).withIp target

/-- `jmp *%r` -/
def jumpReg (s : State 32) (r : Reg) : State 32 := s.withIp (s.reg r)

variable (s : State 32) (value target next : BitVec 32)

@[simp] theorem push_sp : (s.push value).sp = s.sp - 4 := s.writeReg_reg_self 4 (s.sp - 4)

theorem push_reg {r : Reg} (h : r ≠ 4) : (s.push value).reg r = s.reg r :=
  s.writeReg_reg_of_ne (s.sp - 4) h

@[simp] theorem push_mem :
    (s.push value).mem = write s.mem (s.sp - 4) (leBytes 4 value) := rfl

@[simp] theorem call_sp : (s.call target next).sp = s.sp - 4 := push_sp s next

theorem call_reg {r : Reg} (h : r ≠ 4) : (s.call target next).reg r = s.reg r :=
  push_reg s next h

@[simp] theorem call_mem :
    (s.call target next).mem = write s.mem (s.sp - 4) (leBytes 4 next) := rfl

theorem pop_reg {r q : Reg} (h : q ≠ r) (h4 : q ≠ 4) : (s.pop r).reg q = s.reg q :=
  ((s.writeReg 4 (s.sp + 4)).writeReg_reg_of_ne _ h).trans (s.writeReg_reg_of_ne _ h4)

end Ia32.State

/-! ## Instructions -/

namespace Ia32.Stack

open ByteMemory

inductive Instr where
  | endbr32
  | push (src : Reg)
  | pop (dst : Reg)
  | mov (src dst : Reg)
  | add (imm : BitVec 32) (dst : Reg)
  | sub (imm : BitVec 32) (dst : Reg)
  | and (imm : BitVec 32) (dst : Reg)
  /-- `mov disp(%base),%dst` -/
  | load (disp : BitVec 32) (base dst : Reg)
  | leave
  deriving DecidableEq, Repr

/-- The flags are not followed. -/
def Instr.effect (s : State 32) : Instr → State 32
  | .endbr32 => s
  | .push src => s.push (s.reg src)
  | .pop dst => s.pop dst
  | .mov src dst => s.writeReg dst (s.reg src)
  | .add imm dst => s.writeReg dst (s.reg dst + imm)
  | .sub imm dst => s.writeReg dst (s.reg dst - imm)
  | .and imm dst => s.writeReg dst (s.reg dst &&& imm)
  | .load disp base dst => s.writeReg dst (readWord 4 s.mem (s.reg base + disp))
  | .leave => (s.writeReg 4 (s.reg 5)).pop 5

def exec (code : List Instr) (s : State 32) : State 32 := code.foldl Instr.effect s

end Ia32.Stack
