import Funchook.Handle

/-!
# x86 and x86-64 (`arch_x86.c`, `arch_x86.h`, `template.inc`)

`funchookMakeTrampoline` copies whole instructions from the start of a function until five bytes
are covered, records at most two displacements to fix, and scans the rest of the check window
for branches back into the overwritten bytes. `funchookFixCode` writes the patch, the transit
code and the displacements once the address of the entry is known.

The disassembler is a parameter: it reports, for each instruction, its size and address, its
branch address and the two records that `funchook_disasm_x86_rip_relative` fills. Positions in
the function and in the trampoline are offsets from `func` and `dst_base`.
-/

namespace Funchook.X86

open ByteMemory

/-- The two processors `arch_x86.c` is compiled for. -/
inductive Cpu where
  | i386
  | x86_64
  deriving DecidableEq, Repr

/-- Bits of a pointer. -/
def Cpu.bits : Cpu → ℕ
  | .i386 => 32
  | .x86_64 => 64

/-! ## Constants -/

def maxInsnLen : ℕ := 16
def maxInsnCheckSize : ℕ := 256
def rel2gJumpSize : ℕ := 5
def trampolineSize : ℕ := rel2gJumpSize + (maxInsnLen - 1) + rel2gJumpSize
def maxPatchCodeSize : ℕ := rel2gJumpSize + maxInsnLen - 1

def nopInstruction : Byte := 0x90

/-- `TRANSIT_CODE_TEMPLATE` of `template.inc`. -/
def transitCodeTemplate : Cpu → List Byte
  | .x86_64 =>
    [0x4c, 0x8d, 0x1d, 0xf9, 0xff, 0xff, 0xff,  -- lea -0x7(%rip),%r11
     0xff, 0x25, 0x00, 0x00, 0x00, 0x00,        -- jmp *0x0(%rip)
     0x0f, 0x1f, 0x40, 0x00, 0x0f, 0x1f, 0x40, 0x00]
  | .i386 =>
    [0xe8, 0x09, 0x00, 0x00, 0x00,              -- call get_eip
     0x8d, 0x40, 0xfb,                          -- lea -0x5(%eax),%eax
     0xff, 0xa0, 0x14, 0x00, 0x00, 0x00,        -- jmp *0x14(%eax)
     0x8b, 0x04, 0x24,                          -- get_eip: mov (%esp),%eax
     0xc3,                                      -- ret
     0x66, 0x90,                                -- xchg %ax,%ax
     0x0f, 0x1f, 0x40, 0x00]

def transitHookCallerAddr : Cpu → ℕ
  | .x86_64 => 0xd
  | .i386 => 0x14

def transitCodeSize : Cpu → ℕ
  | .x86_64 => 0x15
  | .i386 => 0x18

theorem transitCodeTemplate_length (cpu : Cpu) :
    (transitCodeTemplate cpu).length = transitCodeSize cpu := by
  cases cpu <;> rfl

/-- The bytes of a stored pointer. -/
def ptrBytes : (cpu : Cpu) → BitVec cpu.bits → List Byte
  | .i386, a => leBytes 4 a
  | .x86_64, a => leBytes 8 a

/-! ## Displacements and decoded instructions -/

variable {w : ℕ}

/-- `ip_displacement_entry_t`; a null `dstAddr` marks an unused entry. -/
structure IpDisplacementEntry (w : ℕ) where
  dstAddr : Addr w
  srcAddrOffset : ℕ
  posOffset : ℕ
  deriving DecidableEq, Repr

/-- `ip_displacement_t`: the jump back and the one PC-relative field. -/
structure IpDisplacement (w : ℕ) where
  disp0 : IpDisplacementEntry w
  disp1 : IpDisplacementEntry w
  deriving DecidableEq, Repr

def IpDisplacement.zero : IpDisplacement w := ⟨⟨0, 0, 0⟩, ⟨0, 0, 0⟩⟩

/-- `rip_relative_t`: a field of `size` bits at `offset`, zero-sized when there is none. -/
structure RipRelative (w : ℕ) where
  addr : Addr w
  raddr : BitVec w
  offset : ℕ
  size : ℕ
  deriving DecidableEq, Repr

/-- A decoded instruction, as the disassembler reports it. -/
structure Insn (w : ℕ) where
  size : ℕ
  address : Addr w
  branchAddress : Addr w
  relDisp : RipRelative w
  relImm : RipRelative w
  deriving DecidableEq, Repr

/-- `funchook_disasm_init` on the check window of a function, with the instructions that the
successive calls of `funchook_disasm_next` return. -/
abbrev Disasm (w : ℕ) := Mem w → Addr w → Except Failure (List (Insn w))

/-! ## Building the trampoline -/

/-- `make_trampoline_context_t`, with the trampoline it points into and `*trampoline_size`. -/
structure MakeTrampolineContext (w : ℕ) where
  ripDisp : IpDisplacement w
  src : ℕ
  dst : ℕ
  trampoline : List Byte
  trampolineLen : ℕ
  deriving DecidableEq, Repr

def MakeTrampolineContext.init : MakeTrampolineContext w :=
  ⟨.zero, 0, 0, List.replicate trampolineSize nopInstruction, 0⟩

/-- `memcpy(ctx.dst, ctx.src, insn_size)` -/
def copyInsn (m : Mem w) (func : Addr w) (ctx : MakeTrampolineContext w) (insnSize : ℕ) :
    MakeTrampolineContext w :=
  let code := readBytes m (func + BitVec.ofNat w ctx.src) insnSize
  { ctx with trampoline := overwrite ctx.trampoline ctx.dst code }

def handleRipRelative (ctx : MakeTrampolineContext w) (rel : RipRelative w) (insnSize : ℕ) :
    Except Failure (MakeTrampolineContext w) :=
  if rel.size = 32 then
    let value : BitVec 32 := bufWord 4 ctx.trampoline (ctx.dst + rel.offset)
    if value ≠ rel.raddr.setWidth 32 then
      .error ⟨errorIpRelativeOffset, "Invalid ip-relative offset " ++ toString rel.offset ++
        ". The value at the offset should be " ++ fmtHex8 (rel.raddr.setWidth 32) ++ " but " ++
        fmtHex8 value⟩
    else
      let disp1 := ⟨rel.addr, ctx.dst + insnSize, ctx.dst + rel.offset⟩
      .ok { ctx with ripDisp := { ctx.ripDisp with disp1 := disp1 } }
  else if rel.size ≠ 0 then
    .error ⟨errorCannotFixIpRelative, "Could not fix ip-relative address. The size is not 32."⟩
  else .ok ctx

/-- The opcode of the `movl $imm32,%reg` that replaces a call of `movl (%esp),%reg; ret`. -/
def getPcThunkMov (first4Bytes : BitVec 32) : Option Byte :=
  if first4Bytes = 0xc324048b then some 0xb8
  else if first4Bytes = 0xc3241c8b then some 0xbb
  else if first4Bytes = 0xc3240c8b then some 0xb9
  else if first4Bytes = 0xc324148b then some 0xba
  else if first4Bytes = 0xc324348b then some 0xbe
  else if first4Bytes = 0xc3243c8b then some 0xbf
  else if first4Bytes = 0xc3242c8b then some 0xbd
  else none

/-- The opcode of the `movl $imm32,%reg` that replaces a call of the next address and `pop %reg`. -/
def popMov (pop : Byte) : Option Byte :=
  if pop = 0x58 then some 0xb8
  else if pop = 0x5b then some 0xbb
  else if pop = 0x59 then some 0xb9
  else if pop = 0x5a then some 0xba
  else if pop = 0x5e then some 0xbe
  else if pop = 0x5f then some 0xbf
  else if pop = 0x5d then some 0xbd
  else none

/-- Write `movl $eip,%reg` at `dst`, consuming `srcSize` bytes of the function. -/
def putMovEip (ctx : MakeTrampolineContext w) (opcode : Byte) (eip : BitVec 32) (srcSize : ℕ) :
    MakeTrampolineContext w :=
  { ctx with
    trampoline := overwrite ctx.trampoline ctx.dst (opcode :: leBytes 4 eip)
    dst := ctx.dst + 5
    src := ctx.src + srcSize }

/-- `handle_x86_get_pc_thunk`, a constant 0 outside i386. -/
def handleX86GetPcThunk (cpu : Cpu) (m : Mem w) (func : Addr w) (ctx : MakeTrampolineContext w)
    (insn : Insn w) : Option (MakeTrampolineContext w) :=
  match cpu with
  | .x86_64 => none
  | .i386 =>
    if m (func + BitVec.ofNat w ctx.src) = 0xe8 then
      (getPcThunkMov (readWord 4 m insn.branchAddress)).map fun opcode =>
        putMovEip ctx opcode ((insn.address + 5).setWidth 32) 5
    else none

/-- `handle_x86_get_pc_by_call_and_pop`, a constant 0 outside i386. -/
def handleX86GetPcByCallAndPop (cpu : Cpu) (m : Mem w) (func : Addr w)
    (ctx : MakeTrampolineContext w) (insn : Insn w) : Option (MakeTrampolineContext w) :=
  match cpu with
  | .x86_64 => none
  | .i386 =>
    if m (func + BitVec.ofNat w ctx.src) = 0xe8 ∧
        readWord 4 m (func + BitVec.ofNat w (ctx.src + 1)) = (0 : BitVec 32) then
      (popMov (m (func + BitVec.ofNat w (ctx.src + 5)))).map fun opcode =>
        putMovEip ctx opcode ((insn.address + 5).setWidth 32) 6
    else none

/-- `func < rel_imm.addr && rel_imm.addr < func + REL2G_JUMP_SIZE` -/
def jumpsBack (func : Addr w) (insn : Insn w) : Bool :=
  func.ult insn.relImm.addr &&
    insn.relImm.addr.ult (func + BitVec.ofNat w rel2gJumpSize)

/-- Once five bytes are covered: the jump back, then the scan of the instructions that stay. -/
def finishTrampoline (func : Addr w) (ctx : MakeTrampolineContext w) (rest : List (Insn w)) :
    Except Failure (MakeTrampolineContext w) :=
  let disp0 := ⟨func + BitVec.ofNat w ctx.src, ctx.dst + 5, ctx.dst + 1⟩
  let ctx := { ctx with
    trampoline := overwrite ctx.trampoline ctx.dst [0xe9]
    ripDisp := { ctx.ripDisp with disp0 := disp0 }
    trampolineLen := ctx.dst + 5 }
  if rest.any (jumpsBack func) then
    .error ⟨errorFoundBackJump,
      "instruction jumping back to the hot-patched region was found"⟩
  else .ok ctx

/-- The body of the loop for an instruction that is copied. -/
def moveInsn (m : Mem w) (func : Addr w) (ctx : MakeTrampolineContext w) (insn : Insn w) :
    Except Failure (MakeTrampolineContext w) := do
  let ctx := copyInsn m func ctx insn.size
  let ctx ← handleRipRelative ctx insn.relDisp insn.size
  let ctx ← handleRipRelative ctx insn.relImm insn.size
  return { ctx with src := ctx.src + insn.size, dst := ctx.dst + insn.size }

/-- The decoding loop. A matched call-and-pop consumes the decoded `pop` as well. -/
def moveInsns (cpu : Cpu) (m : Mem w) (func : Addr w) :
    List (Insn w) → MakeTrampolineContext w → Except Failure (MakeTrampolineContext w)
  | [], ctx => .ok ctx
  | insn :: rest, ctx =>
    match handleX86GetPcThunk cpu m func ctx insn with
    | some ctx =>
      if ctx.src ≥ rel2gJumpSize then finishTrampoline func ctx rest
      else moveInsns cpu m func rest ctx
    | none =>
      match handleX86GetPcByCallAndPop cpu m func ctx insn with
      | some ctx =>
        match rest with
        | [] =>
          if ctx.src ≥ rel2gJumpSize then finishTrampoline func ctx [] else .ok ctx
        | _ :: rest =>
          if ctx.src ≥ rel2gJumpSize then finishTrampoline func ctx rest
          else moveInsns cpu m func rest ctx
      | none =>
        match moveInsn m func ctx insn with
        | .error f => .error f
        | .ok ctx =>
          if ctx.src ≥ rel2gJumpSize then finishTrampoline func ctx rest
          else moveInsns cpu m func rest ctx

/-- The bytes from `src` up to the fifth are all NOP instructions. -/
def nopsContinue (m : Mem w) (func : Addr w) (src : ℕ) : Bool :=
  (List.range' src (rel2gJumpSize - src)).all fun i => m (func + BitVec.ofNat w i) == nopInstruction

def funchookMakeTrampoline (cpu : Cpu) (disasm : Disasm w) (m : Mem w) (func : Addr w) :
    Except Failure (MakeTrampolineContext w) :=
  match disasm m func with
  | .error f => .error f
  | .ok insns =>
    match moveInsns cpu m func insns .init with
    | .error f => .error f
    | .ok ctx =>
      if nopsContinue m func ctx.src then .ok ctx
      else .error ⟨errorTooShortInstructions, "Too short instructions"⟩

/-! ## Writing the jumps -/

/-- The 32-bit displacement that takes the address `src` to `dst`. -/
def displacement (src dst : Addr w) : BitVec 32 := (dst - src).setWidth 32

def funchookWriteRelative2gJump (src dst : Addr w) : List Byte :=
  0xe9 :: leBytes 4 (displacement (src + 5) dst)

def funchookWriteJumpWithPrehook (cpu : Cpu) (hookCallerAsm : Addr cpu.bits) : List Byte :=
  overwrite (transitCodeTemplate cpu) (transitHookCallerAddr cpu) (ptrBytes cpu hookCallerAsm)

def funchookWriteAbsoluteJump (dst : Addr 64) : List Byte :=
  [0xff, 0x25, 0x00, 0x00, 0x00, 0x00] ++ leBytes 8 dst

def funchookWithin32bitRelative (src dst : Addr 64) : Bool :=
  decide (-2 ^ 31 ≤ (dst - src).toInt ∧ (dst - src).toInt ≤ 2 ^ 31 - 1)

def funchookRelative2gJumpAvail (src dst : Addr 64) : Bool :=
  funchookWithin32bitRelative (src + 5) dst

/-! ## Layout of `funchook_page_t` -/

/-- `offsetof(funchook_entry_t, trampoline)` -/
def trampolineOffset (cpu : Cpu) : ℕ := offsetofTrampoline (cpu.bits / 8) (transitCodeSize cpu)

/-- `sizeof(funchook_entry_t)` -/
def entrySize (cpu : Cpu) : ℕ :=
  sizeofEntry (cpu.bits / 8) (transitCodeSize cpu) trampolineSize maxPatchCodeSize

theorem entrySize_le (cpu : Cpu) : entrySize cpu ≤ 144 := by
  cases cpu <;> decide

/-- `offsetof(funchook_page_t, entries)` -/
def entriesOffset : Cpu → ℕ
  | .i386 => 8
  | .x86_64 => 16

/-! ## Fixing an entry -/

/-- Whether the jump from the target has to go through an absolute jump in the transit code. -/
def needsAbsoluteJump : (cpu : Cpu) → Addr cpu.bits → Addr cpu.bits → Bool
  | .i386, _, _ => false
  | .x86_64, target, hook => !funchookRelative2gJumpAvail target hook

/-- The transit code of the absolute-jump branch; that branch exists on x86-64 only. -/
def absoluteTransit : (cpu : Cpu) → Addr cpu.bits → List Byte → List Byte
  | .i386, _, transit => transit
  | .x86_64, hook, transit => overwrite transit 0 (funchookWriteAbsoluteJump hook)

/-- `*offset_addr = (uint32_t)(dst_addr - src_addr)` for one displacement. -/
def fixDisplacement (trampolineAddr : Addr w) (d : IpDisplacementEntry w) (trampoline : List Byte) :
    List Byte :=
  overwrite trampoline d.posOffset
    (leBytes 4 (displacement (trampolineAddr + BitVec.ofNat w d.srcAddrOffset) d.dstAddr))

/-- The three ways from the target to the hook: `new_code` and `transit`. -/
def jumpCode (cpu : Cpu) (hookCallerAsm slot hook : Addr cpu.bits)
    (entry : FunchookEntry cpu.bits) : List Byte × List Byte :=
  let nops := List.replicate maxPatchCodeSize nopInstruction
  if entry.prehook ≠ 0 then
    (overwrite nops 0 (funchookWriteRelative2gJump entry.targetFunc slot),
      overwrite entry.transit 0 (funchookWriteJumpWithPrehook cpu hookCallerAsm))
  else if needsAbsoluteJump cpu entry.targetFunc hook then
    (overwrite nops 0 (funchookWriteRelative2gJump entry.targetFunc slot),
      absoluteTransit cpu hook entry.transit)
  else
    (overwrite nops 0 (funchookWriteRelative2gJump entry.targetFunc hook),
      overwrite entry.transit 0 [0])

def funchookFixCode (cpu : Cpu) (hookCallerAsm slot : Addr cpu.bits)
    (entry : FunchookEntry cpu.bits) (disp : IpDisplacement cpu.bits) :
    FunchookEntry cpu.bits :=
  let trampolineAddr := slot + BitVec.ofNat cpu.bits (trampolineOffset cpu)
  let code := jumpCode cpu hookCallerAsm slot (hookOrTrampoline trampolineAddr entry.hookFunc) entry
  let trampoline := fixDisplacement trampolineAddr disp.disp0 entry.trampoline
  { entry with
    newCode := code.1
    transit := code.2
    patchCodeSize := displacement entry.targetFunc disp.disp0.dstAddr
    trampoline :=
      if disp.disp1.dstAddr ≠ 0 then fixDisplacement trampolineAddr disp.disp1 trampoline
      else trampoline }

/-- `funchook_page_avail`; outside x86-64 it is the macro that yields 1. -/
def funchookPageAvail : (cpu : Cpu) → (slot addr : Addr cpu.bits) → IpDisplacement cpu.bits → Bool
  | .i386, _, _, _ => true
  | .x86_64, slot, addr, disp =>
    let trampolineAddr : Addr 64 := slot + BitVec.ofNat _ (trampolineOffset .x86_64)
    funchookRelative2gJumpAvail addr slot &&
      funchookWithin32bitRelative
        (trampolineAddr + BitVec.ofNat 64 disp.disp0.srcAddrOffset) disp.disp0.dstAddr &&
      (disp.disp1.dstAddr == 0 ||
        funchookWithin32bitRelative
          (trampolineAddr + BitVec.ofNat 64 disp.disp1.srcAddrOffset) disp.disp1.dstAddr)

/-! ## Builds -/

/-- An OS page size: a power of two from 4096 to 65536. -/
structure PageSize where
  log : ℕ
  lower : 12 ≤ log
  upper : log ≤ 16

def PageSize.toNat (p : PageSize) : ℕ := 2 ^ p.log

theorem PageSize.bounds (p : PageSize) : 4096 ≤ p.toNat ∧ p.toNat ≤ 65536 :=
  ⟨Nat.pow_le_pow_right (n := 2) (by decide) p.lower,
    Nat.pow_le_pow_right (n := 2) (by decide) p.upper⟩

/-- Bytes that a list of instructions covers. -/
def totalSize (insns : List (Insn w)) : ℕ := (insns.map Insn.size).sum

/-- A disassembler with what the library relies on: an instruction has 1 to 15 bytes, and the
one-byte `nop` is never where decoding stops short. -/
structure Disassembler (w : ℕ) where
  decode : Disasm w
  size_bounds : ∀ {m func insns}, decode m func = .ok insns →
    ∀ insn ∈ insns, 1 ≤ insn.size ∧ insn.size ≤ 15
  stop_ne_nop : ∀ {m func insns}, decode m func = .ok insns → totalSize insns < rel2gJumpSize →
    m (func + BitVec.ofNat w (totalSize insns)) ≠ nopInstruction

/-- What a build for one processor is linked with and runs on: the disassembler, the function
resolver of the operating system, the page size and the address of the prehook bridge. -/
structure Build (cpu : Cpu) where
  disasm : Disassembler cpu.bits
  resolveFunc : Mem cpu.bits → Addr cpu.bits → Addr cpu.bits
  pageSize : PageSize
  hookCallerAsm : Addr cpu.bits

/-- `(page_size - offsetof(funchook_page_t, entries)) / sizeof(funchook_entry_t)` -/
def numEntriesInPage (cpu : Cpu) (pageSize : PageSize) : ℕ :=
  (pageSize.toNat - entriesOffset cpu) / entrySize cpu

theorem jumpCode_transit_length (cpu : Cpu) (hookCallerAsm slot hook : Addr cpu.bits)
    (entry : FunchookEntry cpu.bits) :
    (jumpCode cpu hookCallerAsm slot hook entry).2.length = entry.transit.length := by
  unfold jumpCode
  split
  · simp
  · split
    · cases cpu <;> simp [absoluteTransit]
    · simp

@[simp] theorem fixDisplacement_length (trampolineAddr : Addr w) (d : IpDisplacementEntry w)
    (trampoline : List Byte) :
    (fixDisplacement trampolineAddr d trampoline).length = trampoline.length := by
  simp [fixDisplacement]

theorem funchookFixCode_trampoline_length (cpu : Cpu) (hookCallerAsm slot : Addr cpu.bits)
    (entry : FunchookEntry cpu.bits) (disp : IpDisplacement cpu.bits) :
    (funchookFixCode cpu hookCallerAsm slot entry disp).trampoline.length =
      entry.trampoline.length := by
  simp only [funchookFixCode]
  split <;> simp

/-! ## The size of a patch -/

theorem handleRipRelative_src {ctx ctx' : MakeTrampolineContext w} {rel : RipRelative w}
    {insnSize : ℕ} (h : handleRipRelative ctx rel insnSize = .ok ctx') :
    ctx'.src = ctx.src ∧ ctx'.dst = ctx.dst ∧ ctx'.trampoline = ctx.trampoline := by
  unfold handleRipRelative at h
  split at h
  · dsimp only at h
    split at h
    · cases h
    · cases h
      exact ⟨rfl, rfl, rfl⟩
  · split at h
    · cases h
    · cases h
      exact ⟨rfl, rfl, rfl⟩

/-- What moving an instruction does: the copy, the two fields, the two pointers. -/
theorem moveInsn_ok {m : Mem w} {func : Addr w} {ctx ctx' : MakeTrampolineContext w}
    {insn : Insn w} (h : moveInsn m func ctx insn = .ok ctx') :
    ∃ ctx₁ ctx₂,
      handleRipRelative (copyInsn m func ctx insn.size) insn.relDisp insn.size = .ok ctx₁ ∧
        handleRipRelative ctx₁ insn.relImm insn.size = .ok ctx₂ ∧
          ctx' = { ctx₂ with src := ctx₂.src + insn.size, dst := ctx₂.dst + insn.size } := by
  obtain ⟨ctx₁, hdisp, h⟩ := exceptBind_ok h
  obtain ⟨ctx₂, himm, h⟩ := exceptBind_ok h
  exact ⟨ctx₁, ctx₂, hdisp, himm, (Except.ok.inj h).symm⟩

theorem moveInsn_src {m : Mem w} {func : Addr w} {ctx ctx' : MakeTrampolineContext w}
    {insn : Insn w} (h : moveInsn m func ctx insn = .ok ctx') :
    ctx'.src = ctx.src + insn.size ∧ ctx'.dst = ctx.dst + insn.size := by
  obtain ⟨ctx₁, ctx₂, hdisp, himm, rfl⟩ := moveInsn_ok h
  obtain ⟨hsrc₁, hdst₁, -⟩ := handleRipRelative_src hdisp
  obtain ⟨hsrc₂, hdst₂, -⟩ := handleRipRelative_src himm
  exact ⟨by rw [hsrc₂, hsrc₁]; rfl, by rw [hdst₂, hdst₁]; rfl⟩

theorem handleX86GetPcThunk_src {cpu : Cpu} {m : Mem w} {func : Addr w}
    {ctx ctx' : MakeTrampolineContext w} {insn : Insn w}
    (h : handleX86GetPcThunk cpu m func ctx insn = some ctx') : ctx'.src = ctx.src + 5 := by
  cases cpu with
  | x86_64 => cases h
  | i386 =>
    unfold handleX86GetPcThunk at h
    dsimp only at h
    split at h
    · obtain ⟨opcode, -, rfl⟩ := Option.map_eq_some_iff.mp h
      rfl
    · cases h

theorem handleX86GetPcByCallAndPop_src {cpu : Cpu} {m : Mem w} {func : Addr w}
    {ctx ctx' : MakeTrampolineContext w} {insn : Insn w}
    (h : handleX86GetPcByCallAndPop cpu m func ctx insn = some ctx') : ctx'.src = ctx.src + 6 := by
  cases cpu with
  | x86_64 => cases h
  | i386 =>
    unfold handleX86GetPcByCallAndPop at h
    dsimp only at h
    split at h
    · obtain ⟨opcode, -, rfl⟩ := Option.map_eq_some_iff.mp h
      rfl
    · cases h

/-- The loop has reached the fifth byte and recorded where the jump back goes. -/
def MakeTrampolineContext.Finished (func : Addr w) (ctx : MakeTrampolineContext w) : Prop :=
  5 ≤ ctx.src ∧ ctx.src ≤ 19 ∧ ctx.ripDisp.disp0.dstAddr = func + BitVec.ofNat w ctx.src

theorem finishTrampoline_finished {func : Addr w} {ctx ctx' : MakeTrampolineContext w}
    {rest : List (Insn w)} (h : finishTrampoline func ctx rest = .ok ctx')
    (hlower : 5 ≤ ctx.src) (hupper : ctx.src ≤ 19) : ctx'.Finished func := by
  unfold finishTrampoline at h
  dsimp only at h
  split at h
  · cases h
  · cases h
    exact ⟨hlower, hupper, rfl⟩

/-- What a round of the loop does when the loop does not fail: it leaves by an idiom or with an
instruction that reaches the fifth byte, or it moves an instruction and goes on. -/
inductive Round (cpu : Cpu) (m : Mem w) (func : Addr w) (insn : Insn w) (rest : List (Insn w))
    (ctx ctx' : MakeTrampolineContext w) : Prop where
  | thunk {ctx₁ : MakeTrampolineContext w}
      (hthunk : handleX86GetPcThunk cpu m func ctx insn = some ctx₁)
      (hfinish : finishTrampoline func ctx₁ rest = .ok ctx')
  | pop {ctx₁ : MakeTrampolineContext w} (hthunk : handleX86GetPcThunk cpu m func ctx insn = none)
      (hpop : handleX86GetPcByCallAndPop cpu m func ctx insn = some ctx₁)
      (hfinish : finishTrampoline func ctx₁ rest.tail = .ok ctx')
  | last {ctx₁ : MakeTrampolineContext w} (hthunk : handleX86GetPcThunk cpu m func ctx insn = none)
      (hpop : handleX86GetPcByCallAndPop cpu m func ctx insn = none)
      (hmove : moveInsn m func ctx insn = .ok ctx₁) (hge : 5 ≤ ctx₁.src)
      (hfinish : finishTrampoline func ctx₁ rest = .ok ctx')
  | next {ctx₁ : MakeTrampolineContext w} (hthunk : handleX86GetPcThunk cpu m func ctx insn = none)
      (hpop : handleX86GetPcByCallAndPop cpu m func ctx insn = none)
      (hmove : moveInsn m func ctx insn = .ok ctx₁) (hlt : ctx₁.src < 5)
      (hrest : moveInsns cpu m func rest ctx₁ = .ok ctx')

/-- **One round of the loop.** An idiom covers five bytes by itself. -/
theorem moveInsns_round {cpu : Cpu} {m : Mem w} {func : Addr w} {insn : Insn w}
    {rest : List (Insn w)} {ctx ctx' : MakeTrampolineContext w}
    (h : moveInsns cpu m func (insn :: rest) ctx = .ok ctx') :
    Round cpu m func insn rest ctx ctx' := by
  unfold moveInsns at h
  split at h
  · rename_i ctx₁ hthunk
    have hsrc := handleX86GetPcThunk_src hthunk
    rw [if_pos (show ctx₁.src ≥ rel2gJumpSize by simp only [rel2gJumpSize]; omega)] at h
    exact .thunk hthunk h
  · rename_i hthunk
    split at h
    · rename_i ctx₁ hpop
      have hsrc := handleX86GetPcByCallAndPop_src hpop
      have hge : ctx₁.src ≥ rel2gJumpSize := by simp only [rel2gJumpSize]; omega
      cases rest with
      | nil =>
        dsimp only at h
        rw [if_pos hge] at h
        exact .pop hthunk hpop h
      | cons pop rest =>
        dsimp only at h
        rw [if_pos hge] at h
        exact .pop hthunk hpop h
    · rename_i hpop
      split at h
      · cases h
      · rename_i ctx₁ hmove
        split at h
        · rename_i hge
          exact .last hthunk hpop hmove hge h
        · rename_i hlt
          exact .next hthunk hpop hmove (Nat.lt_of_not_ge hlt) h

/-- A loop that ends has finished, or has moved every instruction without reaching five bytes. -/
theorem moveInsns_finished {cpu : Cpu} {m : Mem w} {func : Addr w} {insns : List (Insn w)}
    {ctx ctx' : MakeTrampolineContext w} (hsize : ∀ insn ∈ insns, 1 ≤ insn.size ∧ insn.size ≤ 15)
    (hsrc : ctx.src < 5) (h : moveInsns cpu m func insns ctx = .ok ctx') :
    ctx'.Finished func ∨ ctx'.src < 5 ∧ ctx'.src = ctx.src + totalSize insns := by
  induction insns generalizing ctx with
  | nil =>
    cases h
    exact Or.inr ⟨hsrc, rfl⟩
  | cons insn rest ih =>
    have hbounds := hsize insn List.mem_cons_self
    cases moveInsns_round h with
    | thunk hthunk hfinish =>
      have hsrc₁ := handleX86GetPcThunk_src hthunk
      exact Or.inl (finishTrampoline_finished hfinish (by omega) (by omega))
    | pop hthunk hpop hfinish =>
      have hsrc₁ := handleX86GetPcByCallAndPop_src hpop
      exact Or.inl (finishTrampoline_finished hfinish (by omega) (by omega))
    | last hthunk hpop hmove hge hfinish =>
      have hsrc₁ := (moveInsn_src hmove).1
      exact Or.inl (finishTrampoline_finished hfinish hge (by omega))
    | next hthunk hpop hmove hlt hrest =>
      have hsrc₁ := (moveInsn_src hmove).1
      refine (ih (fun i hi => hsize i (List.mem_cons_of_mem _ hi)) hlt hrest).imp_right ?_
      rintro ⟨hlt', heq⟩
      refine ⟨hlt', ?_⟩
      rw [heq, hsrc₁, totalSize, totalSize, List.map_cons, List.sum_cons, Nat.add_assoc]

theorem nopsContinue_head {m : Mem w} {func : Addr w} {src : ℕ} (hsrc : src < 5)
    (h : nopsContinue m func src = true) : m (func + BitVec.ofNat w src) = nopInstruction := by
  have hall := List.all_eq_true.mp h src
    (List.mem_range'_1.mpr ⟨Nat.le_refl _, by simp only [rel2gJumpSize]; omega⟩)
  simpa using hall

/-- A trampoline that is made ends with the jump back to the byte after the patch. -/
theorem funchookMakeTrampoline_finished {cpu : Cpu} (d : Disassembler w) {m : Mem w}
    {func : Addr w} {ctx : MakeTrampolineContext w}
    (h : funchookMakeTrampoline cpu d.decode m func = .ok ctx) : ctx.Finished func := by
  unfold funchookMakeTrampoline at h
  split at h
  · cases h
  · rename_i insns hdecode
    split at h
    · cases h
    · rename_i ctx₁ hmove
      split at h
      · rename_i hnops
        cases h
        have hfinished := moveInsns_finished (d.size_bounds hdecode) (Nat.zero_lt_succ 4) hmove
        refine hfinished.resolve_right ?_
        rintro ⟨hlt, heq⟩
        have htotal : ctx.src = totalSize insns := by rw [heq]; exact Nat.zero_add _
        refine d.stop_ne_nop hdecode (by rw [← htotal]; exact hlt) ?_
        rw [← htotal]
        exact nopsContinue_head hlt hnops
      · cases h

theorem finished_patchCodeSize {cpu : Cpu} {func : Addr cpu.bits}
    {ctx : MakeTrampolineContext cpu.bits} (h : ctx.Finished func) :
    (displacement func ctx.ripDisp.disp0.dstAddr).toNat = ctx.src := by
  obtain ⟨-, hle, hdst⟩ := h
  have hpow : 2 ^ 32 ≤ 2 ^ cpu.bits := by cases cpu <;> decide
  rw [displacement, hdst, BitVec.toNat_setWidth, add_sub_toNat func (by omega),
    Nat.mod_eq_of_lt (by omega)]

/-! ## The platform -/

def platform {cpu : Cpu} (b : Build cpu) : Platform cpu.bits where
  IpDisplacement := IpDisplacement cpu.bits
  insnSize := 1
  maxPatchCodeSize := maxPatchCodeSize
  transitByteSize := transitCodeSize cpu
  trampolineByteSize := trampolineSize
  pageSize := b.pageSize.toNat
  entriesOffset := entriesOffset cpu
  entrySize := entrySize cpu
  trampolineOffset := trampolineOffset cpu
  numEntriesInPage := numEntriesInPage cpu b.pageSize
  funchookResolveFunc := b.resolveFunc
  funchookMakeTrampoline := fun m func =>
    (funchookMakeTrampoline cpu b.disasm.decode m func).map fun ctx => (ctx.ripDisp, ctx.trampoline)
  funchookPageAvail := funchookPageAvail cpu
  funchookFixCode := funchookFixCode cpu b.hookCallerAsm
  pageSize_le := by
    have := b.pageSize.bounds
    cases cpu <;> simp only [Cpu.bits] <;> omega
  numEntries_pos := by
    have := b.pageSize.bounds
    have hentry := entrySize_le cpu
    have hoff : entriesOffset cpu ≤ 16 := by cases cpu <;> decide
    refine Nat.div_pos ?_ (by cases cpu <;> decide)
    omega
  entries_fit := by
    have := b.pageSize.bounds
    have hdiv : numEntriesInPage cpu b.pageSize * entrySize cpu ≤
        b.pageSize.toNat - entriesOffset cpu := Nat.div_mul_le_self _ _
    have hoff : entriesOffset cpu ≤ 16 := by cases cpu <;> decide
    omega
  transit_fits := by cases cpu <;> decide
  trampoline_fits := by cases cpu <;> decide
  fixCode_targetFunc := fun _ _ _ => rfl
  fixCode_oldCode := fun _ _ _ => rfl
  fixCode_transit_length := fun _ _ _ => jumpCode_transit_length ..
  fixCode_trampoline_length := fun _ _ _ => funchookFixCode_trampoline_length ..
  fixCode_patchCodeSize := by
    intro m func disp trampoline slot e hmake htarget _
    obtain ⟨ctx, hctx, hpair⟩ := exceptMap_ok hmake
    cases hpair
    have hfinished := funchookMakeTrampoline_finished b.disasm hctx
    have hsize := finished_patchCodeSize hfinished
    show (displacement e.targetFunc _).toNat ≤ maxPatchCodeSize
    rw [htarget, hsize]
    exact Nat.le_trans hfinished.2.1 (by decide)

/-! ## A sample build -/

/-- A disassembler of code made of `nop` and `jmp rel32`. It stops at any other byte, as the ones
of the library stop at a byte that starts no instruction. The first number bounds the recursion. -/
def decodeSample (m : Mem w) : ℕ → ℕ → Addr w → List (Insn w)
  | 0, _, _ => []
  | fuel + 1, size, addr =>
    if m addr = 0x90 ∧ 1 ≤ size then
      ⟨1, addr, 0, ⟨0, 0, 0, 0⟩, ⟨0, 0, 0, 0⟩⟩ :: decodeSample m fuel (size - 1) (addr + 1)
    else if m addr = 0xe9 ∧ 5 ≤ size then
      let rel : BitVec 32 := readWord 4 m (addr + 1)
      let dst := addr + 5 + rel.signExtend w
      ⟨5, addr, dst, ⟨0, 0, 0, 0⟩, ⟨dst, rel.signExtend w, 1, 32⟩⟩ ::
        decodeSample m fuel (size - 5) (addr + 5)
    else []

theorem decodeSample_size (m : Mem w) (fuel size : ℕ) (addr : Addr w) :
    ∀ insn ∈ decodeSample m fuel size addr, 1 ≤ insn.size ∧ insn.size ≤ 15 := by
  fun_induction decodeSample m fuel size addr with
  | case1 => simp
  | case2 fuel size addr hnop ih =>
    rintro insn (_ | ⟨_, hmem⟩)
    · exact ⟨Nat.le_refl 1, by simp⟩
    · exact ih insn hmem
  | case3 fuel size addr hnop hjmp rel dst ih =>
    rintro insn (_ | ⟨_, hmem⟩)
    · exact ⟨by simp, by simp⟩
    · exact ih insn hmem
  | case4 => simp

theorem decodeSample_stop (m : Mem w) (fuel size : ℕ) (addr : Addr w) (hfuel : size ≤ fuel)
    (h : totalSize (decodeSample m fuel size addr) < size) :
    m (addr + BitVec.ofNat w (totalSize (decodeSample m fuel size addr))) ≠ nopInstruction := by
  fun_induction decodeSample m fuel size addr with
  | case1 => omega
  | case2 fuel size addr hnop ih =>
    simp only [totalSize, List.map_cons, List.sum_cons] at h ih ⊢
    rw [BitVec.ofNat_add, ← BitVec.add_assoc]
    exact ih (by omega) (by omega)
  | case3 fuel size addr hnop hjmp rel dst ih =>
    simp only [totalSize, List.map_cons, List.sum_cons] at h ih ⊢
    rw [BitVec.ofNat_add, ← BitVec.add_assoc]
    exact ih (by omega) (by omega)
  | case4 fuel size addr hnop hjmp =>
    intro heq
    exact hnop ⟨by simpa [totalSize, nopInstruction] using heq, Nat.one_le_of_lt h⟩

def sampleDisassembler : Disassembler w where
  decode := fun m func => .ok (decodeSample m maxInsnCheckSize maxInsnCheckSize func)
  size_bounds := by
    rintro m func insns ⟨⟩
    exact decodeSample_size m _ _ func
  stop_ne_nop := by
    rintro m func insns ⟨⟩ hlt
    exact decodeSample_stop m _ _ func (Nat.le_refl _) (Nat.lt_of_lt_of_le hlt (by decide))

def sampleBuild (cpu : Cpu) : Build cpu where
  disasm := sampleDisassembler
  resolveFunc := fun _ func => func
  pageSize := ⟨12, by decide, by decide⟩
  hookCallerAsm := 0x403000

/-- Three pages of code with functions of seven `nop` at `0x401000` and `0x401100`; the byte `06`
around them starts no instruction of x86-64. -/
def sampleWorld : World w where
  bytes := fun a => if InRange 0x401000 7 a ∨ InRange 0x401100 7 a then 0x90 else 0x06
  mapped := fun a => decide (InRange 0x400000 0x4000 a)

end Funchook.X86
