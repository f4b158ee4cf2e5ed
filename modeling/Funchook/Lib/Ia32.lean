import Mathlib.Tactic.SplitIfs
import Funchook.Lib.ByteMemory

/-!
# A subset of the IA-32 instruction set

Jumps, calls, returns and the instructions that compute an address from the instruction pointer or
from a register or load one, with the encodings of 32-bit and of 64-bit mode. `Instr.encode` gives
the bytes of an instruction and `decode` reads it back from the bytes at the instruction pointer.
The state is the same for both modes, with addresses and registers of `w` bits; none of these
instructions touches the flags. `step` fetches from the memory of the state, and `stepIn` from code
that the writes of the program do not reach.
-/

namespace Ia32

open ByteMemory

/-- `eax`, `ecx`, `edx`, `ebx`, `esp`, `ebp`, `esi`, `edi`, `r8` to `r15`. -/
abbrev Reg := BitVec 4

/-! ## State -/

structure State (w : ℕ) where
  reg : Reg → BitVec w
  flags : BitVec 32
  mem : Mem w
  ip : BitVec w

variable {w : ℕ}

namespace State

/-- A machine with zero registers. -/
def initial (mem : Mem w) (ip : BitVec w) : State w := ⟨fun _ => 0, 0, mem, ip⟩

def writeReg (s : State w) (r : Reg) (value : BitVec w) : State w :=
  { s with reg := fun q => if q = r then value else s.reg q }

def withIp (s : State w) (ip : BitVec w) : State w := { s with ip := ip }

/-- The stack pointer. -/
def sp (s : State w) : BitVec w := s.reg 4

@[simp] theorem withIp_mem (s : State w) (ip : BitVec w) : (s.withIp ip).mem = s.mem := rfl
@[simp] theorem withIp_withIp (s : State w) (ip ip' : BitVec w) :
    (s.withIp ip).withIp ip' = s.withIp ip' := rfl
@[simp] theorem writeReg_mem (s : State w) (r : Reg) (value : BitVec w) :
    (s.writeReg r value).mem = s.mem := rfl

@[simp] theorem writeReg_reg_self (s : State w) (r : Reg) (value : BitVec w) :
    (s.writeReg r value).reg r = value := if_pos rfl

theorem writeReg_reg_of_ne (s : State w) {r q : Reg} (value : BitVec w) (h : q ≠ r) :
    (s.writeReg r value).reg q = s.reg q := if_neg h

end State

/-! ## Instructions -/

inductive Instr where
  | nop
  | ret
  | jmpRel (rel : BitVec 32)
  | callRel (rel : BitVec 32)
  /-- `jmp *disp(%rip)` -/
  | jmpMemIp (disp : BitVec 32)
  /-- `lea disp(%rip),%dst` -/
  | leaIp (dst : Reg) (disp : BitVec 32)
  /-- `lea disp(%base),%dst` -/
  | lea (dst base : BitVec 3) (disp : BitVec 8)
  /-- `jmp *disp(%base)` -/
  | jmpMem (base : BitVec 3) (disp : BitVec 32)
  /-- `mov (%esp),%dst` -/
  | movTop (dst : BitVec 3)
  /-- `mov $imm,%dst` -/
  | movImm (dst : BitVec 3) (imm : BitVec 32)
  /-- `pop %dst` -/
  | pop (dst : BitVec 3)
  deriving DecidableEq, Repr

def modRM (mod : BitVec 2) (reg rm : BitVec 3) : Byte := mod ++ reg ++ rm

/-- `REX.W`, with the high bit of the register in `R`. -/
def rexW (r : Reg) : Byte := (0b01001 : BitVec 5) ++ r.extractLsb' 3 1 ++ (0 : BitVec 2)

/-- An opcode with a register in its low bits. -/
def opReg (op : BitVec 5) (r : BitVec 3) : Byte := op ++ r

def Instr.encode : Instr → List Byte
  | .nop => [0x90]
  | .ret => [0xc3]
  | .jmpRel rel => [0xe9] ++ leBytes 4 rel
  | .callRel rel => [0xe8] ++ leBytes 4 rel
  | .jmpMemIp disp => [0xff, modRM 0 4 5] ++ leBytes 4 disp
  | .leaIp dst disp => [rexW dst, 0x8d, modRM 0 (dst.extractLsb' 0 3) 5] ++ leBytes 4 disp
  | .lea dst base disp => [0x8d, modRM 1 dst base, disp]
  | .jmpMem base disp => [0xff, modRM 2 4 base] ++ leBytes 4 disp
  | .movTop dst => [0x8b, modRM 0 dst 4, 0x24]
  | .movImm dst imm => [opReg 0b10111 dst] ++ leBytes 4 imm
  | .pop dst => [opReg 0b01011 dst]

/-- The length of the encoding. -/
def Instr.size : Instr → ℕ
  | .nop => 1
  | .ret => 1
  | .jmpRel _ => 5
  | .callRel _ => 5
  | .jmpMemIp _ => 6
  | .leaIp _ _ => 7
  | .lea _ _ _ => 3
  | .jmpMem _ _ => 6
  | .movTop _ => 3
  | .movImm _ _ => 5
  | .pop _ => 1

theorem encode_length (i : Instr) : i.encode.length = i.size := by
  cases i <;> simp [Instr.encode, Instr.size]

/-- The mode that has the encoding; a base register other than `esp` needs no further byte. -/
def Instr.valid (long : Bool) : Instr → Bool
  | .nop => true
  | .ret => true
  | .jmpRel _ => true
  | .callRel _ => true
  | .jmpMemIp _ => long
  | .leaIp _ _ => long
  | .lea _ base _ => !long && decide (base ≠ 4)
  | .jmpMem base _ => !long && decide (base ≠ 4)
  | .movTop _ => !long
  | .movImm _ _ => !long
  | .pop _ => !long

/-- The instruction at the start of `code` and its size, for the instructions of this subset. -/
def decode (long : Bool) (code : List Byte) : Option (Instr × ℕ) :=
  let byte (i : ℕ) : Byte := (code[i]?).getD 0
  let mod (i : ℕ) : BitVec 2 := (byte i).extractLsb' 6 2
  let reg (i : ℕ) : BitVec 3 := (byte i).extractLsb' 3 3
  let rm (i : ℕ) : BitVec 3 := (byte i).extractLsb' 0 3
  if byte 0 = 0x90 then some (.nop, 1)
  else if byte 0 = 0xc3 then some (.ret, 1)
  else if byte 0 = 0xe9 then some (.jmpRel (bufWord 4 code 1), 5)
  else if byte 0 = 0xe8 then some (.callRel (bufWord 4 code 1), 5)
  else if byte 0 = 0xff ∧ reg 1 = 4 then
    if long then
      if mod 1 = 0 ∧ rm 1 = 5 then some (.jmpMemIp (bufWord 4 code 2), 6) else none
    else if mod 1 = 2 ∧ rm 1 ≠ 4 then some (.jmpMem (rm 1) (bufWord 4 code 2), 6)
    else none
  else if long then
    if (byte 0).extractLsb' 3 5 = 0b01001 ∧ (byte 0).extractLsb' 0 2 = 0 ∧ byte 1 = 0x8d ∧
        mod 2 = 0 ∧ rm 2 = 5 then
      some (.leaIp ((byte 0).extractLsb' 2 1 ++ reg 2) (bufWord 4 code 3), 7)
    else none
  else if byte 0 = 0x8d ∧ mod 1 = 1 ∧ rm 1 ≠ 4 then some (.lea (reg 1) (rm 1) (byte 2), 3)
  else if byte 0 = 0x8b ∧ mod 1 = 0 ∧ rm 1 = 4 ∧ byte 2 = 0x24 then some (.movTop (reg 1), 3)
  else if (byte 0).extractLsb' 3 5 = 0b10111 then some (.movImm (rm 0) (bufWord 4 code 1), 5)
  else if (byte 0).extractLsb' 3 5 = 0b01011 then some (.pop (rm 0), 1)
  else none

theorem bufWord_append_leBytes {n : ℕ} (bs rest : List Byte) (v : BitVec (8 * n)) :
    bufWord n (bs ++ leBytes n v ++ rest) bs.length = v := by
  rw [bufWord_append_left (by simp)]
  exact (bufWord_append_right bs (leBytes n v) 0).trans (bufWord_leBytes v)

@[simp] theorem modRM_mod (mod : BitVec 2) (reg rm : BitVec 3) :
    (modRM mod reg rm).extractLsb' 6 2 = mod := by
  revert mod reg rm
  decide

@[simp] theorem modRM_reg (mod : BitVec 2) (reg rm : BitVec 3) :
    (modRM mod reg rm).extractLsb' 3 3 = reg := by
  revert mod reg rm
  decide

@[simp] theorem modRM_rm (mod : BitVec 2) (reg rm : BitVec 3) :
    (modRM mod reg rm).extractLsb' 0 3 = rm := by
  revert mod reg rm
  decide

/-- The byte before a 64-bit `lea`, and the register that it and the next field make up. -/
theorem rexW_fields (r : Reg) : (rexW r).extractLsb' 3 5 = 9#5 ∧ (rexW r).extractLsb' 0 2 = 0#2 ∧
    (rexW r).extractLsb' 2 1 ++ r.extractLsb' 0 3 = r ∧
      rexW r ≠ 0x90#8 ∧ rexW r ≠ 0xc3#8 ∧ rexW r ≠ 0xe9#8 ∧ rexW r ≠ 0xe8#8 ∧ rexW r ≠ 0xff#8 := by
  revert r
  decide

@[simp] theorem opReg_op (op : BitVec 5) (r : BitVec 3) : (opReg op r).extractLsb' 3 5 = op := by
  revert op r
  decide

@[simp] theorem opReg_reg (op : BitVec 5) (r : BitVec 3) : (opReg op r).extractLsb' 0 3 = r := by
  revert op r
  decide

/-- The opcodes of the other instructions. -/
theorem opReg_ne (r : BitVec 3) : ∀ op ∈ [0b10111#5, 0b01011#5],
    opReg op r ≠ 0x90#8 ∧ opReg op r ≠ 0xc3#8 ∧ opReg op r ≠ 0xe9#8 ∧ opReg op r ≠ 0xe8#8 ∧
      opReg op r ≠ 0xff#8 ∧ opReg op r ≠ 0x8d#8 ∧ opReg op r ≠ 0x8b#8 := by
  revert r
  decide

/-- **Encoding.** An instruction is read back from its bytes. -/
theorem decode_encode {long : Bool} {i : Instr} (h : i.valid long = true) (rest : List Byte) :
    decode long (i.encode ++ rest) = some (i, i.size) := by
  cases i with
  | nop => rfl
  | ret => rfl
  | jmpRel rel =>
    have hrel := bufWord_append_leBytes (n := 4) [0xe9] rest rel
    simp [decode, Instr.encode, Instr.size] at hrel ⊢
    exact hrel
  | callRel rel =>
    have hrel := bufWord_append_leBytes (n := 4) [0xe8] rest rel
    simp [decode, Instr.encode, Instr.size] at hrel ⊢
    exact hrel
  | jmpMemIp disp =>
    have hdisp := bufWord_append_leBytes (n := 4) [0xff, modRM 0 4 5] rest disp
    have hlong : long = true := h
    simp [decode, Instr.encode, Instr.size, hlong] at hdisp ⊢
    exact hdisp
  | leaIp dst disp =>
    have hdisp := bufWord_append_leBytes (n := 4)
      [rexW dst, 0x8d, modRM 0 (dst.extractLsb' 0 3) 5] rest disp
    have hlong : long = true := h
    obtain ⟨hhigh, hlow, hreg, h₁, h₂, h₃, h₄, h₅⟩ := rexW_fields dst
    simp [decode, Instr.encode, Instr.size, hlong, hhigh, hlow, hreg, h₁, h₂, h₃, h₄, h₅] at hdisp ⊢
    exact hdisp
  | lea dst base disp =>
    have hmode : long = false ∧ base ≠ 4#3 := by simpa [Instr.valid] using h
    simp [decode, Instr.encode, Instr.size, hmode]
  | jmpMem base disp =>
    have hdisp := bufWord_append_leBytes (n := 4) [0xff, modRM 2 4 base] rest disp
    have hmode : long = false ∧ base ≠ 4#3 := by simpa [Instr.valid] using h
    simp [decode, Instr.encode, Instr.size, hmode] at hdisp ⊢
    exact hdisp
  | movTop dst =>
    have hmode : long = false := by simpa [Instr.valid] using h
    simp [decode, Instr.encode, Instr.size, hmode]
  | movImm dst imm =>
    have himm := bufWord_append_leBytes (n := 4) [opReg 0b10111 dst] rest imm
    have hmode : long = false := by simpa [Instr.valid] using h
    obtain ⟨h₁, h₂, h₃, h₄, h₅, h₆, h₇⟩ := opReg_ne dst 0b10111#5 (by decide)
    simp [decode, Instr.encode, Instr.size, hmode, h₁, h₂, h₃, h₄, h₅, h₆, h₇] at himm ⊢
    exact himm
  | pop dst =>
    have hmode : long = false := by simpa [Instr.valid] using h
    obtain ⟨h₁, h₂, h₃, h₄, h₅, h₆, h₇⟩ := opReg_ne dst 0b01011#5 (by decide)
    simp [decode, Instr.encode, Instr.size, hmode, h₁, h₂, h₃, h₄, h₅, h₆, h₇]

/-! ## Execution -/

/-- What an instruction does when `next` is the address of the one that follows it. -/
def Instr.effect (next : BitVec w) (s : State w) : Instr → State w
  | .nop => s.withIp next
  | .ret => (s.writeReg 4 (s.sp + BitVec.ofNat w (w / 8))).withIp (readPtr s.mem s.sp)
  | .jmpRel rel => s.withIp (next + rel.signExtend w)
  | .callRel rel =>
    let sp := s.sp - BitVec.ofNat w (w / 8)
    { (s.writeReg 4 sp).withIp (next + rel.signExtend w) with mem := writePtr s.mem sp next }
  | .jmpMemIp disp => s.withIp (readPtr s.mem (next + disp.signExtend w))
  | .leaIp dst disp => (s.writeReg dst (next + disp.signExtend w)).withIp next
  | .lea dst base disp =>
    (s.writeReg (dst.setWidth 4) (s.reg (base.setWidth 4) + disp.signExtend w)).withIp next
  | .jmpMem base disp =>
    s.withIp (readPtr s.mem (s.reg (base.setWidth 4) + disp.signExtend w))
  | .movTop dst => (s.writeReg (dst.setWidth 4) (readPtr s.mem s.sp)).withIp next
  | .movImm dst imm => (s.writeReg (dst.setWidth 4) (imm.setWidth w)).withIp next
  | .pop dst =>
    ((s.writeReg 4 (s.sp + BitVec.ofNat w (w / 8))).writeReg (dst.setWidth 4)
      (readPtr s.mem s.sp)).withIp next

/-- The processor fetches at most this many bytes for an instruction. -/
def maxInsnLen : ℕ := 15

/-- One step with the instruction fetched from `code`. -/
def stepIn (long : Bool) (code : Mem w) (s : State w) : Option (State w) :=
  (decode long (readBytes code s.ip maxInsnLen)).map fun d =>
    d.1.effect (s.ip + BitVec.ofNat w d.2) s

def runIn (long : Bool) (code : Mem w) : ℕ → State w → Option (State w)
  | 0, s => some s
  | n + 1, s => (stepIn long code s).bind (runIn long code n)

/-- One step; `none` when no instruction of this subset stands at the instruction pointer. -/
def step (long : Bool) (s : State w) : Option (State w) :=
  (decode long (readBytes s.mem s.ip maxInsnLen)).map fun d =>
    d.1.effect (s.ip + BitVec.ofNat w d.2) s

/-- A number of steps. -/
def run (long : Bool) : ℕ → State w → Option (State w)
  | 0, s => some s
  | n + 1, s => (step long s).bind (run long n)

theorem size_le (i : Instr) : i.size ≤ maxInsnLen := by
  cases i <;> simp [Instr.size, maxInsnLen]

/-- The address behind the instruction at the instruction pointer. -/
def State.next (s : State w) (i : Instr) : BitVec w := s.ip + BitVec.ofNat w i.size

theorem stepIn_of_holds (long : Bool) {code : Mem w} {s : State w} {i : Instr}
    (hvalid : i.valid long = true) (hcode : Holds code s.ip i.encode) :
    stepIn long code s = some (i.effect (s.next i) s) := by
  have hread : readBytes code s.ip i.size = i.encode := by
    rw [← encode_length]
    exact hcode
  have hfetch : readBytes code s.ip maxInsnLen =
      i.encode ++ readBytes code (s.next i) (maxInsnLen - i.size) := by
    have hsplit := readBytes_add code s.ip i.size (maxInsnLen - i.size)
    rwa [Nat.add_sub_cancel' (size_le i), hread] at hsplit
  rw [stepIn, hfetch, decode_encode hvalid]
  rfl

theorem step_of_holds {long : Bool} {s : State w} {i : Instr} (hvalid : i.valid long = true)
    (hcode : Holds s.mem s.ip i.encode) : step long s = some (i.effect (s.next i) s) :=
  stepIn_of_holds long hvalid hcode

theorem runIn_succ {long : Bool} {code : Mem w} {s s' : State w}
    (h : stepIn long code s = some s') (n : ℕ) :
    runIn long code (n + 1) s = runIn long code n s' := by
  rw [runIn, h]
  rfl

theorem run_succ {long : Bool} {s s' : State w} (h : step long s = some s') (n : ℕ) :
    run long (n + 1) s = run long n s' := by
  rw [run, h]
  rfl

theorem run_one {long : Bool} {s s' : State w} (h : step long s = some s') :
    run long 1 s = some s' :=
  run_succ h 0

/-- What follows a number of steps. -/
theorem run_add {long : Bool} {s s' : State w} {n : ℕ} (h : run long n s = some s') (k : ℕ) :
    run long (n + k) s = run long k s' := by
  induction n generalizing s with
  | zero =>
    rw [Nat.zero_add, Option.some.inj h]
  | succ n ih =>
    obtain ⟨s₁, hstep, hrest⟩ := Option.bind_eq_some_iff.mp h
    rw [Nat.succ_add, run_succ hstep]
    exact ih hrest

/-! ## Code in memory -/

/-- The bytes of a sequence of instructions. -/
def asm (code : List Instr) : List Byte := code.flatMap Instr.encode

/-- Where the instruction `k` of a sequence starts. -/
def offset (code : List Instr) (k : ℕ) : ℕ := ((code.take k).map Instr.size).sum

theorem asm_length (code : List Instr) : (asm code).length = (code.map Instr.size).sum := by
  induction code with
  | nil => rfl
  | cons i code ih =>
    rw [asm, List.flatMap_cons, List.length_append, encode_length, List.map_cons, List.sum_cons]
    exact congrArg (i.size + ·) ih

theorem offset_succ {code : List Instr} {k : ℕ} {i : Instr} (hi : code[k]? = some i) :
    offset code (k + 1) = offset code k + i.size := by
  rw [offset, List.take_add_one, hi, List.map_append, List.sum_append]
  rfl

/-- **One instruction of a sequence.** -/
theorem step_at {long : Bool} {code : List Instr} {s : State w} {base : BitVec w} {k : ℕ}
    {i : Instr} (hcode : Holds s.mem base (asm code)) (hi : code[k]? = some i)
    (hvalid : i.valid long = true) (hip : s.ip = base + BitVec.ofNat w (offset code k)) :
    step long s = some (i.effect (base + BitVec.ofNat w (offset code (k + 1))) s) := by
  obtain ⟨hlt, hget⟩ := List.getElem?_eq_some_iff.mp hi
  have hsplit : asm code = asm (code.take k) ++ (i.encode ++ asm (code.drop (k + 1))) := by
    have hparts := List.take_append_drop k code
    rw [List.drop_eq_getElem_cons hlt, hget] at hparts
    rw [asm, ← hparts, List.flatMap_append, List.flatMap_cons, hparts]
    rfl
  rw [hsplit, holds_append, holds_append, asm_length] at hcode
  have hnext : s.next i = base + BitVec.ofNat w (offset code (k + 1)) := by
    rw [State.next, hip, offset_succ hi, BitVec.ofNat_add, BitVec.add_assoc]
  rw [← hnext]
  refine step_of_holds hvalid ?_
  rw [hip]
  exact hcode.2.1

end Ia32
