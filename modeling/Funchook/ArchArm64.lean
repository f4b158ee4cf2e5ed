import Funchook.Handle

/-!
# AArch64 (`arch_arm64.c`, `arch_arm64.h`, `template.inc`)

`funchookMakeTrampoline` moves the first two instructions of a function. An instruction that
depends on its own address becomes a load of the address from a literal pool behind the code,
followed by the instruction that uses it through a register. `funchookFixCode` writes the patch,
an `ADRP` and a branch, and the transit code.

The disassembler is a parameter: for each instruction of the check window it reports the class
and the registers among `x9` to `x15` that the instruction uses. Positions in the function are
counted in words from `func`. The code and the literal pool of a trampoline grow as two lists,
and `trampolineBytes` puts them where the two pointers of the source write.
-/

namespace Funchook.Arm64

open ByteMemory

/-- `insn_t` -/
abbrev Word := BitVec 32

/-! ## Constants -/

def maxInsnCheckSize : ℕ := 64
def rel4gJumpSize : ℕ := 2
def literalPoolOffset : ℕ := 3 * rel4gJumpSize + 2
def literalPoolNum : ℕ := rel4gJumpSize + 1
def trampolineSize : ℕ := literalPoolOffset + 2 * literalPoolNum
def maxPatchCodeSize : ℕ := rel4gJumpSize

/-- `PAGE_SIZE`, the unit of `ADRP` whatever the page size of the operating system is. -/
def adrpPageSize : BitVec 64 := 4096

/-- `FUNCHOOK_ARM64_REG_X9` -/
def regX9 : Word := 1 <<< 9

/-- `FUNCHOOK_ARM64_CORRUPTIBLE_REGS`: bits 9 to 15. -/
def corruptibleRegs : Word := 0xfe00

def transitCodeTemplate : List Word :=
  [0x1000000a,  -- adr x10, 0 <transit>
   0x58000069,  -- ldr x9, 10 <hook_caller_addr>
   0xd61f0120,  -- br x9
   0xd503201f,  -- nop
   0xd503201f, 0xd503201f]

def transitHookCallerAddr : ℕ := 0x4
def transitCodeSize : ℕ := 0x6

/-- `p + idx` for a pointer to `insn_t`. -/
def wordAddr (p : Addr 64) (idx : ℕ) : Addr 64 := p + BitVec.ofNat 64 (4 * idx)

/-! ## Fields of an instruction word -/

def imm19Mask : Word := 0x00ffffe0
def imm14Mask : Word := 0x0007ffe0

/-- `(int64_t)(int32_t)((ins) << 6) >> 4` -/
def imm26Offset (ins : Word) : BitVec 64 := ((ins <<< 6).signExtend 64).sshiftRight 4

/-- `((int64_t)(int32_t)((ins) << 8) >> 11) & ~0x3l` -/
def imm19Offset (ins : Word) : BitVec 64 := ((ins <<< 8).signExtend 64).sshiftRight 11 &&& ~~~3#64

/-- `((int64_t)(int32_t)((ins) << 13) >> 16) & ~0x3l` -/
def imm14Offset (ins : Word) : BitVec 64 := ((ins <<< 13).signExtend 64).sshiftRight 16 &&& ~~~3#64

/-- `IMM19_OFFSET(ins) | (((ins) >> 29) & 0x3)` -/
def immAdrOffset (ins : Word) : BitVec 64 := imm19Offset ins ||| ((ins >>> 29) &&& 3).setWidth 64

def imm19Reset (ins : Word) : Word := ins &&& ~~~imm19Mask
def imm14Reset (ins : Word) : Word := ins &&& ~~~imm14Mask

/-- `TO_IMM19`, `TO_IMM14` and `TO_RN` -/
def toImm (value : Word) : Word := value <<< 5

/-- `RD_REGNO` and `RT_REGNO` -/
def rdRegno (ins : Word) : Word := ins &&& 0x1f

def resetAt (ins : Word) (pos : ℕ) : Word := ins &&& ~~~(1#32 <<< pos)
def invertAt (ins : Word) (pos : ℕ) : Word := (ins &&& 1#32 <<< pos) ^^^ 1#32 <<< pos

/-! ## What the disassembler reports -/

/-- `funchook_arm64_insn_id_t` -/
inductive InsnId where
  | other | adr | adrp | b | bl | bCond | cbnz | cbz | ldr | ldrsw | prfm | tbnz | tbz
  deriving DecidableEq, Repr

/-- `funchook_insn_info_t` -/
structure InsnInfo where
  insnId : InsnId
  regs : Word
  deriving DecidableEq, Repr

/-- `funchook_disasm_init` on the check window of a function, with what
`funchook_disasm_arm64_insn_info` says of the instructions that `funchook_disasm_next` returns. -/
abbrev Disasm := Mem 64 → Addr 64 → Except Failure (List InsnInfo)

/-- The word at an index from `func`. -/
def insnAt (m : Mem 64) (func : Addr 64) (idx : ℕ) : Word :=
  readWord 4 m (wordAddr func idx)

/-! ## Building the trampoline -/

/-- `make_trampoline_context_t`, with the code and the literals written and the registers that no
instruction has used. -/
structure MakeTrampolineContext where
  src : ℕ
  dst : List Word
  literalPool : List (BitVec 64)
  availRegs : Word
  deriving DecidableEq, Repr

def MakeTrampolineContext.init : MakeTrampolineContext := ⟨0, [], [], corruptibleRegs⟩

/-- `to_regno` -/
def toRegno (availRegs : Word) : Except Failure Word :=
  if availRegs.getLsbD 9 then .ok 9
  else if availRegs.getLsbD 10 then .ok 10
  else if availRegs.getLsbD 11 then .ok 11
  else if availRegs.getLsbD 12 then .ok 12
  else if availRegs.getLsbD 13 then .ok 13
  else if availRegs.getLsbD 14 then .ok 14
  else if availRegs.getLsbD 15 then .ok 15
  else .error ⟨errorNoAvailableRegisters, "All caller-saved registers are used."⟩

/-- `*(ctx.dst++) = ins` -/
def MakeTrampolineContext.put (ctx : MakeTrampolineContext) (ins : Word) : MakeTrampolineContext :=
  { ctx with dst := ctx.dst ++ [ins] }

/-- `LDR_ADDR`: the address goes to the next slot of the literal pool, and `ldr` from there. The
immediate is the distance of the two pointers in words. -/
def MakeTrampolineContext.ldrAddr (ctx : MakeTrampolineContext) (regno : Word) (addr : BitVec 64) :
    MakeTrampolineContext :=
  let literalPool : Word := BitVec.ofNat 32 (4 * literalPoolOffset + 8 * ctx.literalPool.length)
  let imm19 := (literalPool - BitVec.ofNat 32 (4 * ctx.dst.length)).sshiftRight 2
  { ctx with
    literalPool := ctx.literalPool ++ [addr]
    dst := ctx.dst ++ [0x58000000 ||| toImm imm19 ||| regno] }

/-- `BR_BY_REG` -/
def MakeTrampolineContext.brByReg (ctx : MakeTrampolineContext) (regno : Word) :
    MakeTrampolineContext :=
  ctx.put (0xd61f0000 ||| toImm regno)

/-- The opcode of the load through a register that replaces a literal form, by its top byte. -/
def ldrOpcode (top : Word) : Option Word :=
  if top = 0x18 then some 0xb9400000  -- LDR <Wt>
  else if top = 0x58 then some 0xf9400000  -- LDR <Xt>
  else if top = 0x98 then some 0xb9800000  -- LDRSW <Xt>
  else if top = 0x1c then some 0xbd400000  -- LDR <St>
  else if top = 0x5c then some 0xfd400000  -- LDR <Dt>
  else if top = 0x9c then some 0x3dc00000  -- LDR <Qt>
  else if top = 0xd8 then some 0xf9800000  -- PRFM <prfop>
  else none

/-- A conditional branch: the branch inverted so that it skips the next two words, which lead to
the target. -/
def branchOver (ctx : MakeTrampolineContext) (inverted : Word) (addr : BitVec 64) (regno : Word) :
    MakeTrampolineContext :=
  ((ctx.put inverted).ldrAddr regno addr).brByReg regno

/-- The body of the loop for the instruction `ins` at the address `src`, up to `ctx.src++`. -/
def moveInsn (src : Addr 64) (ins : Word) (info : InsnInfo) (ctx : MakeTrampolineContext) :
    Except Failure MakeTrampolineContext :=
  let ctx := { ctx with availRegs := ctx.availRegs &&& ~~~info.regs }
  match info.insnId with
  | .other => .ok (ctx.put ins)
  | .adr => .ok (ctx.ldrAddr (rdRegno ins) (src + immAdrOffset ins))
  | .adrp =>
    .ok (ctx.ldrAddr (rdRegno ins) (roundDown src adrpPageSize + immAdrOffset ins <<< 12))
  | .bCond => do
    let addr := src + imm19Offset ins
    let regno ← toRegno ctx.availRegs
    if ins &&& 0x0f ≠ 0x0e then
      return branchOver ctx (imm19Reset (resetAt ins 0) ||| toImm 3 ||| invertAt ins 0) addr regno
    else
      return (ctx.ldrAddr regno addr).brByReg regno
  | .b | .bl => do
    let addr := src + imm26Offset ins
    let regno ← toRegno ctx.availRegs
    return (ctx.ldrAddr regno addr).put
      (0xd61f0000 ||| (ins &&& 0x80000000) >>> 10 ||| toImm regno)
  | .cbnz | .cbz => do
    let addr := src + imm19Offset ins
    let regno ← toRegno ctx.availRegs
    return branchOver ctx (imm19Reset (resetAt ins 24) ||| invertAt ins 24 ||| toImm 3) addr regno
  | .ldr | .ldrsw | .prfm =>
    if ins &&& 0x20000000 ≠ 0 then .ok (ctx.put ins)
    else do
      let addr := src + imm19Offset ins
      let regno ← toRegno ctx.availRegs
      match ldrOpcode (ins >>> 24) with
      | some opcode =>
        return (ctx.ldrAddr regno addr).put (opcode ||| toImm regno ||| rdRegno ins)
      | none => .error ⟨errorInternalError, "Unknonw instruction: 0x" ++ fmtHex8 ins⟩
  | .tbnz | .tbz => do
    let addr := src + imm14Offset ins
    let regno ← toRegno ctx.availRegs
    return branchOver ctx (imm14Reset (resetAt ins 24) ||| invertAt ins 24 ||| toImm 3) addr regno

/-- The first instruction is `B` and the second is `UDF`. -/
def branchThenUdf (m : Mem 64) (func : Addr 64) : Bool :=
  insnAt m func 0 &&& 0xfc000000 == 0x14000000 && insnAt m func 1 &&& 0xffff0000 == 0

/-- `ctx.src++` and the special case after it. -/
def nextSrc (m : Mem 64) (func : Addr 64) (src : ℕ) : ℕ :=
  if branchThenUdf m func then 2 else src + 1

/-- `target_addr` -/
def targetAddr (addr : Addr 64) (ins : Word) : InsnId → Addr 64
  | .adr => addr + immAdrOffset ins
  | .adrp => roundDown addr adrpPageSize + immAdrOffset ins <<< 12
  | .b | .bl => addr + imm26Offset ins
  | .ldr | .ldrsw | .prfm => if ins &&& 0x20000000 ≠ 0 then 0 else addr + imm19Offset ins
  | .bCond | .cbnz | .cbz => addr + imm19Offset ins
  | .tbnz | .tbz => addr + imm14Offset ins
  | .other => 0

/-- `func < target && target < func + REL4G_JUMP_SIZE`, for the address and word that `ctx.src`
points to. -/
def jumpsBack (m : Mem 64) (func : Addr 64) (src : ℕ) (info : InsnInfo) : Bool :=
  let target := targetAddr (wordAddr func src) (insnAt m func src) info.insnId
  func.ult target && target.ult (wordAddr func rel4gJumpSize)

/-- Once two words are covered: the jump to the rest of the function, then the scan of the
instructions that stay. The scan does not advance `ctx.src`. -/
def finishTrampoline (m : Mem 64) (func : Addr 64) (ctx : MakeTrampolineContext)
    (rest : List InsnInfo) : Except Failure MakeTrampolineContext := do
  let regno ← toRegno ctx.availRegs
  let ctx := (ctx.ldrAddr regno (wordAddr func ctx.src)).brByReg regno
  if rest.any (jumpsBack m func ctx.src) then
    .error ⟨errorFoundBackJump, "instruction jumping back to the hot-patched region was found"⟩
  else return ctx

/-- The body of the loop up to the test that ends it. -/
def loopBody (m : Mem 64) (func : Addr 64) (ctx : MakeTrampolineContext) (info : InsnInfo) :
    Except Failure MakeTrampolineContext := do
  let moved ← moveInsn (wordAddr func ctx.src) (insnAt m func ctx.src) info ctx
  return { moved with src := nextSrc m func ctx.src }

/-- The decoding loop. -/
def moveInsns (m : Mem 64) (func : Addr 64) :
    List InsnInfo → MakeTrampolineContext → Except Failure MakeTrampolineContext
  | [], ctx => .ok ctx
  | info :: rest, ctx => do
    let ctx ← loopBody m func ctx info
    if ctx.src ≥ rel4gJumpSize then finishTrampoline m func ctx rest
    else moveInsns m func rest ctx

def funchookMakeTrampoline (disasm : Disasm) (m : Mem 64) (func : Addr 64) :
    Except Failure MakeTrampolineContext := do
  let infos ← disasm m func
  let ctx ← moveInsns m func infos .init
  if ctx.src < rel4gJumpSize then .error ⟨errorTooShortInstructions, "Too short instructions"⟩
  else return ctx

/-- The bytes of a list of words. -/
def wordBytes (ws : List Word) : List Byte := leWords 4 ws

/-- The trampoline that the two lists stand for: zero but for the code from the start and the
literals from `LITERAL_POOL_OFFSET`. -/
def MakeTrampolineContext.trampolineBytes (ctx : MakeTrampolineContext) : List Byte :=
  let code := overwrite (List.replicate (4 * trampolineSize) 0) 0 (wordBytes ctx.dst)
  overwrite code (4 * literalPoolOffset) (leWords 8 ctx.literalPool)

/-! ## Writing the jumps -/

def funchookWriteRelative4gJump (src dst : Addr 64) : List Word :=
  let imm := roundDown dst adrpPageSize - roundDown src adrpPageSize
  let immlo : Word := (imm.sshiftRight 12).setWidth 32 &&& 0x03
  let immhi : Word := (imm.sshiftRight 14).setWidth 32 &&& 0x7ffff
  [0x90000009 ||| immlo <<< 29 ||| immhi <<< 5, 0xd61f0120]

/-- The bytes written; nothing is written when no register is available. -/
def funchookWriteAbsoluteJump (dst : Addr 64) (availRegs : Word) : List Byte :=
  match toRegno availRegs with
  | .ok regno => wordBytes [0x58000040 ||| regno, 0xd61f0120 ||| toImm regno] ++ leBytes 8 dst
  | .error _ => []

def funchookWriteJumpWithPrehook (hookCallerAsm : Addr 64) : List Byte :=
  overwrite (wordBytes transitCodeTemplate) (4 * transitHookCallerAddr) (leBytes 8 hookCallerAsm)

/-- `offsetof(funchook_entry_t, trampoline)` -/
def trampolineOffset : ℕ := offsetofTrampoline 8 (4 * transitCodeSize)

/-- `sizeof(funchook_entry_t)` -/
def entrySize : ℕ :=
  sizeofEntry 8 (4 * transitCodeSize) (4 * trampolineSize) (4 * maxPatchCodeSize)

theorem entrySize_eq : entrySize = 144 := by decide

def funchookFixCode (hookCallerAsm slot : Addr 64) (entry : FunchookEntry 64) :
    FunchookEntry 64 :=
  let trampolineAddr := slot + BitVec.ofNat 64 trampolineOffset
  let hookFunc := hookOrTrampoline trampolineAddr entry.hookFunc
  { entry with
    newCode := overwrite entry.newCode 0
      (wordBytes (funchookWriteRelative4gJump entry.targetFunc slot))
    transit := overwrite entry.transit 0
      (if entry.prehook ≠ 0 then funchookWriteJumpWithPrehook hookCallerAsm
        else funchookWriteAbsoluteJump hookFunc regX9) }

end Funchook.Arm64
